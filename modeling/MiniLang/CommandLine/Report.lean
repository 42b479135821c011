import MiniLang.CommandLine.Folder
import MiniLang.CommandLine.Request
import MiniLang.CommandLine.Table
import MiniLang.Program
import MiniLang.SourceText
/-!
# Reports

What a command prints and how it ends, as a function of the command line and of what opening the
path gives.  A report has an exit status: zero if all went well, one if the text of the file has a
fault, two if it cannot be opened or the command line cannot be understood.
-/

set_option autoImplicit false

namespace MiniLang.CommandLine

/-! ## Log entries -/

/-- What is told in passing when it is asked for. -/
inductive LogEntry where
  /-- The source text of the file at `path` is there, and how long it is. -/
  | sourceRead (length : Nat) (path : String)
  /-- An item of the program is there. -/
  | itemRead (item : Node)
  deriving DecidableEq, Repr

/-- The line of a log entry. -/
def LogEntry.text : LogEntry → String
  | .sourceRead length path =>
    "DEBUG MiniLang_Parser.Main: read " ++ toString length ++ " characters from " ++ path ++ "\n"
  | .itemRead item => "DEBUG MiniLang_Parser.Parser: parsed top-level " ++ item.kindName ++ "\n"

/-! ## The work of a command -/

/-- What a command has printed and told, and the fault that ended it. -/
structure Work where
  output : String
  log : List LogEntry
  fault : Option Fault
  deriving DecidableEq, Repr

namespace Command

/-- The work of printing the outline of a program.  Nothing is printed unless the program is read to
its end; the items before a fault are told all the same. -/
def outline (source : String) : Work :=
  match Window.start (.ofSource source) with
  | .error fault => ⟨"", [], some (.lexical fault)⟩
  | .ok w =>
    let reading := readItems [] w
    let log := reading.items.map .itemRead
    match reading.ending with
    | .fail fault _ => ⟨"", log, some fault⟩
    | .ok _ _ =>
      match (Node.program reading.items).render with
      | .error fault => ⟨"", log, some fault⟩
      | .ok text => ⟨text, log, none⟩

/-- The work of printing a token table.  The rows before a fault stand. -/
def tabulate (source : String) : Work :=
  let tokenized := tokenize source
  ⟨table tokenized.tokens, [], tokenized.fault.map .lexical⟩

/-- The work of a command. -/
def work : Command → String → Work
  | .parse => outline
  | .tokens => tabulate

end Command

/-! ## Reports -/

/-- The exit status of a command, what it has printed, and what it has printed about its own
course. -/
structure Report where
  status : Nat
  output : String
  errorOutput : String
  deriving DecidableEq, Repr, Inhabited

/-- What may keep a command from a report. -/
inductive Breakdown where
  /-- The path holds the character that ends a path for the system. -/
  | nullInPath
  /-- The bytes of the file are not UTF-8. -/
  | undecodable
  /-- A fault that is neither one of characters nor one of the order of tokens. -/
  | fault (fault : Fault)
  deriving DecidableEq, Repr

/-- The line that names a fault of a source text, unless the fault is of another sort. -/
def faultLine? : Fault → Option String
  | .lexical fault => some ("Lexer error: " ++ fault.message ++ "\n")
  | .syntactic fault => some ("Parser error: " ++ fault.message ++ "\n")
  | _ => none

/-- The report of a command's work, after what it has told on the way. -/
def Work.report (work : Work) (told : String) : Except Breakdown Report :=
  match work.fault with
  | none => .ok ⟨0, work.output, told⟩
  | some fault =>
    match faultLine? fault with
    | some line => .ok ⟨1, work.output, told ++ line⟩
    | none => .error (.fault fault)

/-- The text of a log, if it is asked for. -/
def logText (verbose : Bool) (log : List LogEntry) : String :=
  if verbose then String.join (log.map LogEntry.text) else ""

/-- The report of a command on the file at `path`, from what opening that path gives. -/
def Command.report (command : Command) (verbose : Bool) (path : String)
    (content : Except OpenFault ByteArray) : Except Breakdown Report :=
  if path.toList.contains '\x00' then .error .nullInPath
  else
    match content with
    | .error fault =>
      .ok ⟨2, "", "Error: cannot read '" ++ path ++ "': " ++ fault.message ++ "\n"⟩
    | .ok bytes =>
      match SourceText.ofBytes? bytes with
      | none => .error .undecodable
      | some source =>
        let work := command.work source
        work.report (logText verbose (.sourceRead source.length path :: work.log))

/-- The report on a command line, where `read` opens paths. -/
def respond (read : String → Except OpenFault ByteArray) (arguments : List String) :
    Except Breakdown Report :=
  match Request.ofArguments arguments with
  | .error refusal => .ok ⟨2, "", refusal.text⟩
  | .ok (.help page) => .ok ⟨0, page.text, ""⟩
  | .ok (.run verbose command path) => command.report verbose path (read path)

end MiniLang.CommandLine
