import MiniLang.CommandLine.Page
/-!
# Requests

What a command line asks for.  Switches stand in front of the command, and the command takes all
that follows it: a path, with its own help switch around it.  Behind two dashes alone nothing is a
switch any more.

Every argument is told apart before any is acted upon, so the front of several words is refused
wherever it stands.  After that the first reason to refuse or to show a page wins, and arguments
that nothing is known to do with come last.
-/

set_option autoImplicit false

namespace MiniLang.CommandLine

/-- What a command line asks for. -/
inductive Request where
  | help (page : Page)
  | run (verbose : Bool) (command : Command) (path : String)
  deriving DecidableEq, Repr, Inhabited

namespace Request

/-- The switches in front of a command. -/
def programSwitches : List Switch := [.help, .verbose]

/-- The switches of a command. -/
def commandSwitches : List Switch := [.help]

/-- The argument behind which nothing is a switch. -/
def divider : String := "--"

/-- A path, and arguments that nothing is known to do with. -/
structure PathFound where
  path : String
  strangers : List String
  deriving DecidableEq, Repr, Inhabited

/-- What reading the arguments of a command comes to. -/
inductive PathReading where
  | found (found : PathFound)
  /-- The help page of the command is asked for. -/
  | help
  deriving DecidableEq, Repr, Inhabited

/-! ## The arguments of a command -/

/-- Reads the arguments behind the path of a command.  A divider there is one argument too many, and
so is all behind it. -/
def afterPath (path : String) (strangers : List String) :
    List String → Except UsageFault PathReading
  | [] => .ok (.found ⟨path, strangers⟩)
  | argument :: rest =>
    if argument = divider then .ok (.found ⟨path, strangers ++ argument :: rest⟩)
    else
      match Form.of commandSwitches argument.toList with
      | .given _ => .ok .help
      | .ignoring value => .error (.ignoredValue value)
      | _ => afterPath path (strangers ++ [argument]) rest

/-- Reads the arguments of a command up to its path.  A divider goes unnoticed right before the path
and right behind it. -/
def beforePath (strangers : List String) : List String → Except UsageFault PathReading
  | [] => .error (.required "path")
  | argument :: rest =>
    if argument = divider then
      match rest with
      | [] => .error (.required "path")
      | path :: more => .ok (.found ⟨path, strangers ++ more⟩)
    else
      match Form.of commandSwitches argument.toList with
      | .given _ => .ok .help
      | .ignoring value => .error (.ignoredValue value)
      | .plain =>
        if rest.head? = some divider then .ok (.found ⟨argument, strangers ++ rest.tail⟩)
        else afterPath argument strangers rest
      | _ => beforePath (strangers ++ [argument]) rest

/-! ## The whole command line -/

/-- The first argument in front of the divider that is the front of several words. -/
def firstAmbiguous : List String → Option UsageFault
  | [] => none
  | argument :: rest =>
    if argument = divider then none
    else
      match Form.of programSwitches argument.toList with
      | .ambiguous candidates => some (.ambiguous argument candidates)
      | _ => firstAmbiguous rest

/-- Reads a command and what follows it. -/
def ofCommand (verbose : Bool) (strangers : List String) (name : String) (rest : List String) :
    Except Refusal Request :=
  match Command.ofName? name with
  | none => .error ⟨.program, .invalidCommand name⟩
  | some command =>
    match beforePath [] rest with
    | .error fault => .error ⟨.command command, fault⟩
    | .ok .help => .ok (.help (.command command))
    | .ok (.found found) =>
      if strangers ++ found.strangers = [] then .ok (.run verbose command found.path)
      else .error ⟨.program, .unrecognized (strangers ++ found.strangers)⟩

/-- Reads the switches in front of a command, and then the command.  A divider with anything behind
it stands in the place of the command. -/
def beforeCommand (verbose : Bool) (strangers : List String) :
    List String → Except Refusal Request
  | [] => .error ⟨.program, .required "command"⟩
  | argument :: rest =>
    if argument = divider then
      if rest = [] then .error ⟨.program, .required "command"⟩
      else ofCommand verbose strangers argument rest
    else
      match Form.of programSwitches argument.toList with
      | .given switches =>
        if .help ∈ switches then .ok (.help .program) else beforeCommand true strangers rest
      | .ignoring value => .error ⟨.program, .ignoredValue value⟩
      | .foreign => beforeCommand verbose (strangers ++ [argument]) rest
      | _ => ofCommand verbose strangers argument rest

/-- What a command line asks for. -/
def ofArguments (arguments : List String) : Except Refusal Request :=
  match firstAmbiguous arguments with
  | some fault => .error ⟨.program, fault⟩
  | none => beforeCommand false [] arguments

end Request

end MiniLang.CommandLine
