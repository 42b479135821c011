import MiniLang.Text.Quoted
/-!
# Tokens

A token is a piece of a source text, with its kind and the place where it begins.  A token stream
may also hold gaps, so a token at a place of a stream is an `Option Token`.
-/

set_option autoImplicit false

namespace MiniLang

/-! ## Positions -/

/-- A place in a source text.  Lines and columns are counted from one; a column counts code points
from the last line break.  Both are integers, so that a place can be told relative to a line start
that lies further right. -/
structure Position where
  line : Int
  column : Int
  deriving DecidableEq, Repr, Inhabited

namespace Position

/-- Where every source text begins. -/
def start : Position := ⟨1, 1⟩

/-- The place `n` characters further on the same line. -/
def right (p : Position) (n : Nat) : Position := ⟨p.line, p.column + n⟩

/-- The place after `n` line breaks. -/
def down (p : Position) (n : Nat) : Position := ⟨p.line + n, 1⟩

@[simp] theorem right_zero (p : Position) : p.right 0 = p := by simp [right]

theorem right_right (p : Position) (m n : Nat) : (p.right m).right n = p.right (m + n) := by
  simp [right, Int.add_assoc]

end Position

/-! ## Kinds -/

/-- The kinds of token.  The lexer makes the first eight; a token that is handed over from elsewhere
may carry any other name. -/
inductive Kind where
  | keyword
  | identifier
  | operation
  | comparison
  | assign
  | special
  | string
  | integer
  | other (name : String)
  deriving DecidableEq, Repr, Inhabited

namespace Kind

/-- The name that a kind is written by. -/
def name : Kind → String
  | .keyword => "KEYWORD"
  | .identifier => "IDENTIFIER"
  | .operation => "OPERATION"
  | .comparison => "COMPARISON"
  | .assign => "ASSIGN"
  | .special => "SPECIAL"
  | .string => "STRING"
  | .integer => "INT"
  | .other name => name

/-- The kinds that the lexer makes. -/
def lexical : List Kind :=
  [.keyword, .identifier, .operation, .comparison, .assign, .special, .string, .integer]

/-- The kind of a given name. -/
def ofName (name : String) : Kind :=
  (lexical.find? fun kind => kind.name = name).getD (.other name)

end Kind

/-! ## Tokens -/

/-- A token: its kind, its text, and the place of its first character.  The text of a string token
has its escapes resolved. -/
structure Token where
  kind : Kind
  text : String
  position : Position
  deriving DecidableEq, Repr, Inhabited

/-- The text of a token, or `null` where there is none. -/
def Token.textOrNull : Option Token → String
  | some token => token.text
  | none => "null"

/-- The description of a token, all fields named. -/
def Token.describe (token : Token) : String :=
  "Token(kind=" ++ Text.quoted token.kind.name ++ ", text=" ++ Text.quoted token.text
    ++ ", position=Position(line=" ++ toString token.position.line
    ++ ", column=" ++ toString token.position.column ++ "))"

/-- The description of a token or of its absence. -/
def Token.describe? : Option Token → String
  | some token => token.describe
  | none => "None"

end MiniLang
