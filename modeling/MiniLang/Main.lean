import MiniLang.CommandLine.Report
/-!
# The command line program

Reads the file that the arguments name, prints the report on it and ends with its status.
-/

set_option autoImplicit false

namespace MiniLang.CommandLine

/-- The code that the system gives when a folder is read like a file. -/
def folderCode : UInt32 := 21

/-- The bytes of the file at a path, or why they cannot be read. -/
def load (path : String) : IO (Except OpenFault ByteArray) := do
  try
    return .ok (← IO.FS.readBinFile path)
  catch
    | .noFileOrDirectory .. => return .error .missing
    | .inappropriateType _ code _ =>
      return .error (if code = folderCode then .folder else .notFolder)
    | fault => return .error (.other (toString fault))

end MiniLang.CommandLine

open MiniLang.CommandLine in
/-- Runs the program and gives its exit status. -/
def main (arguments : List String) : IO UInt32 := do
  let content ←
    match Request.ofArguments arguments with
    | .ok (.run _ _ path) => load path
    | _ => pure (.error .missing)
  match respond (fun _ => content) arguments with
  | .ok report =>
    IO.print report.output
    IO.eprint report.errorOutput
    return report.status.toUInt32
  | .error .nullInPath =>
    IO.eprintln "the path holds a null character"
    return 1
  | .error .undecodable =>
    IO.eprintln "the file is not UTF-8"
    return 1
  | .error (.fault fault) =>
    IO.eprintln fault.message
    return 1
