import MiniLang.CommandLine.Argument
import MiniLang.Text.Quoted
/-!
# Help pages and refusals

The commands, the help page of the program and of each command, and the refusal of a command line
that cannot be understood: the usage of the page that it concerns, and the reason.
-/

set_option autoImplicit false

namespace MiniLang.CommandLine

/-- The commands. -/
inductive Command where
  /-- To print the outline of a program. -/
  | parse
  /-- To print the table of its tokens. -/
  | tokens
  deriving DecidableEq, Repr, Inhabited

namespace Command

/-- The name of a command. -/
def name : Command → String
  | .parse => "parse"
  | .tokens => "tokens"

/-- The command of a given name. -/
def ofName? (name : String) : Option Command :=
  [parse, tokens].find? fun command => command.name = name

end Command

/-! ## Pages -/

/-- The help page of the program, or of one of its commands. -/
inductive Page where
  | program
  | command (command : Command)
  deriving DecidableEq, Repr, Inhabited

namespace Page

/-- What is typed for the program, or for one of its commands, up to the arguments. -/
def caller : Page → String
  | .program => "minilang"
  | .command c => "minilang " ++ c.name

/-- The line that shows how a command line is put together. -/
def usage (page : Page) : String :=
  "usage: " ++ page.caller
    ++ (match page with
      | .program => " [-h] [-v] \x7bparse,tokens\x7d ...\n"
      | .command _ => " [-h] path\n")

/-- The lines that stand below the usage. -/
def details : Page → List String
  | .program =>
    ["Parse MiniLang source files.",
     "",
     "positional arguments:",
     "  \x7bparse,tokens\x7d",
     "    parse         print the syntax tree of a file",
     "    tokens        print the token table of a file",
     "",
     "options:",
     "  -h, --help      show this help message and exit",
     "  -v, --verbose   log parser progress"]
  | .command _ =>
    ["positional arguments:",
     "  path",
     "",
     "options:",
     "  -h, --help  show this help message and exit"]

/-- The whole page. -/
def text (page : Page) : String :=
  page.usage ++ "\n" ++ String.join (page.details.map fun line => line ++ "\n")

end Page

/-! ## Refusals -/

/-- Why a command line cannot be understood. -/
inductive UsageFault where
  /-- An argument that has to be there is not. -/
  | required (what : String)
  | invalidCommand (text : String)
  /-- The front of the words of several switches. -/
  | ambiguous (text : String) (candidates : List Switch)
  | ignoredValue (value : IgnoredValue)
  /-- Arguments that nothing is known to do with. -/
  | unrecognized (arguments : List String)
  deriving DecidableEq, Repr, Inhabited

/-- The reason in words. -/
def UsageFault.message : UsageFault → String
  | .required what => "the following arguments are required: " ++ what
  | .invalidCommand text =>
    "argument command: invalid choice: " ++ Text.quoted text ++ " (choose from 'parse', 'tokens')"
  | .ambiguous text candidates =>
    "ambiguous option: " ++ text ++ " could match " ++ ", ".intercalate (candidates.map Switch.long)
  | .ignoredValue value =>
    "argument " ++ value.switch.title ++ ": ignored explicit argument " ++ Text.quoted value.value
  | .unrecognized arguments => "unrecognized arguments: " ++ " ".intercalate arguments

/-- A refused command line: the page that it concerns, and why. -/
structure Refusal where
  page : Page
  fault : UsageFault
  deriving DecidableEq, Repr, Inhabited

/-- The usage and the reason. -/
def Refusal.text (refusal : Refusal) : String :=
  refusal.page.usage ++ refusal.page.caller ++ ": error: " ++ refusal.fault.message ++ "\n"

end MiniLang.CommandLine
