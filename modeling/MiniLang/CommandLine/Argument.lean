import MiniLang.Text.Digit
/-!
# Arguments

How one argument of the command line reads on its own, and what a switch with text attached to it
stands for.  A switch has a letter behind one dash and a word behind two.  The word may be cut short
as long as no other switch has a word that begins so, and letters may share a dash, with an equals
sign behind the first of them or none.  No switch takes a value, so a text attached to one is either
more letters or a fault.
-/

set_option autoImplicit false

namespace MiniLang.CommandLine

/-! ## Switches -/

/-- The switches. -/
inductive Switch where
  | help
  | verbose
  deriving DecidableEq, Repr, Inhabited

namespace Switch

/-- The letter of a switch. -/
def letter : Switch → Char
  | .help => 'h'
  | .verbose => 'v'

/-- The word of a switch. -/
def word : Switch → String
  | .help => "help"
  | .verbose => "verbose"

/-- A switch in its long form. -/
def long (switch : Switch) : String := "--" ++ switch.word

/-- A switch in both forms. -/
def title (switch : Switch) : String := String.ofList ['-', switch.letter] ++ "/" ++ switch.long

end Switch

/-- The switch among those that are known that has a given letter. -/
def Switch.ofLetter? (known : List Switch) (c : Char) : Option Switch :=
  known.find? fun switch => switch.letter = c

/-! ## Negative numbers -/

/-- Whether a text, or what stands before the line feed at its end, is one digit or more. -/
def isNumeral (text : List Char) : Bool :=
  let beyond := text.dropWhile Text.isScriptDigit
  !(text.takeWhile Text.isScriptDigit).isEmpty && (beyond = [] || beyond = ['\n'])

/-- Whether a text writes a negative number: digits after a dash, with a point among or before them
or none.  A line feed may follow. -/
def isNegativeNumber (text : List Char) : Bool :=
  match text with
  | '-' :: rest =>
    isNumeral rest ||
      match rest.dropWhile Text.isScriptDigit with
      | '.' :: places => isNumeral places
      | _ => false
  | _ => false

/-! ## Forms -/

/-- A text attached to a switch that can only be a value. -/
structure IgnoredValue where
  switch : Switch
  value : String
  deriving DecidableEq, Repr, Inhabited

/-- How an argument reads on its own. -/
inductive Form where
  /-- No switch: a command, a path, or one argument too many. -/
  | plain
  /-- Switches in their order. -/
  | given (switches : List Switch)
  | ignoring (value : IgnoredValue)
  /-- The front of the words of several switches. -/
  | ambiguous (candidates : List Switch)
  /-- It looks like a switch, but there is no such one. -/
  | foreign
  deriving DecidableEq, Repr, Inhabited

namespace Form

/-- The form of an argument that begins like a switch and is none. -/
def ofStranger (text : List Char) : Form :=
  if isNegativeNumber text || text.contains ' ' then .plain else .foreign

/-- The form of the letters of some switches, the letter of one more, and the text attached to that.
Letters may go on; where one is no switch's, what is left can only be a value. -/
def ofLetters (known before : List Switch) (switch : Switch) : List Char → Form
  | [] => .given (before ++ [switch])
  | c :: rest =>
    match Switch.ofLetter? known c with
    | none => .ignoring ⟨switch, String.ofList (c :: rest)⟩
    | some other => ofLetters known (before ++ [switch]) other rest

/-- The form of the first letter of an argument and the text attached to it, directly or behind an
equals sign.  Nothing behind an equals sign is a value all the same. -/
def ofLetter (known : List Switch) (switch : Switch) : List Char → Form
  | ['='] => .ignoring ⟨switch, ""⟩
  | '=' :: text => ofLetters known [] switch text
  | text => ofLetters known [] switch text

/-- The form of the front of a word, and of the value behind it if there is one. -/
def ofWord (known : List Switch) (text front : List Char) (value : Option (List Char)) : Form :=
  match known.filter fun switch => front.isPrefixOf switch.word.toList with
  | [] => ofStranger text
  | [switch] =>
    match value with
    | none => .given [switch]
    | some value => .ignoring ⟨switch, String.ofList value⟩
  | candidates => .ambiguous candidates

/-- What stands behind the first equals sign of a text, if there is one. -/
def valueOf? (text : List Char) : Option (List Char) :=
  (text.dropWhile fun c => c != '=').tail?

/-- The form of an argument where the switches `known` may be given. -/
def of (known : List Switch) (text : List Char) : Form :=
  match text with
  | '-' :: '-' :: rest => ofWord known text (rest.takeWhile fun c => c != '=') (valueOf? rest)
  | '-' :: c :: rest =>
    match Switch.ofLetter? known c with
    | some switch => ofLetter known switch rest
    | none => ofStranger text
  | _ => .plain

end Form

end MiniLang.CommandLine
