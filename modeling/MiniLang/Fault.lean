import MiniLang.Text.Number
import MiniLang.Token
/-!
# Faults

Everything that can go wrong between a source text and the outline of its tree, one constructor for
each cause, and the wording of each in one place.  A fault keeps what it is about (the token, the
character, the place), so that its message is a function of the fault alone.
-/

set_option autoImplicit false

namespace MiniLang

/-! ## Lexical faults -/

/-- Why no token begins, or none can be completed, at a place of a source text. -/
inductive LexicalCause where
  /-- No quote closes the string literal. -/
  | unterminatedString
  /-- A backslash in a string literal stands before a character that it cannot escape. -/
  | invalidEscape (symbol : String)
  /-- An exclamation mark that is not part of `!=`. -/
  | unknownCharacter (character : String)
  /-- Any other character that no token begins with. -/
  | invalidToken (character : String)
  /-- A cause in words. -/
  | other (message : String)
  deriving DecidableEq, Repr, Inhabited

/-- A lexical fault: the cause, and the place of the offending character. -/
structure LexicalFault where
  cause : LexicalCause
  position : Position
  deriving DecidableEq, Repr, Inhabited

/-- The cause in words. -/
def LexicalCause.message : LexicalCause → String
  | .unterminatedString => "Unterminated string literal"
  | .invalidEscape symbol => "Incorrect escaped symbol: \\" ++ symbol
  | .unknownCharacter character => "Unknown character '" ++ character ++ "'"
  | .invalidToken character => "Incorrect token '" ++ character ++ "'"
  | .other message => message

/-- The cause and the place in words. -/
def LexicalFault.message (fault : LexicalFault) : String :=
  fault.cause.message ++ " at line " ++ toString fault.position.line
    ++ ", col " ++ toString fault.position.column

/-! ## Syntax faults -/

/-- Why a phrase could not be read.  The token of a fault is absent where the input has ended. -/
inductive SyntaxFault where
  /-- A certain text, or a token of a certain sort, was called for and another one was found. -/
  | mismatch (expected found : String) (token : Option Token)
  /-- No statement begins with this token. -/
  | expectedStatement (token : Option Token)
  /-- No statement goes on with this token after its leading identifier. -/
  | afterIdentifier (token : Option Token)
  /-- The token stands where the input should have ended. -/
  | expectedEnd (token : Token)
  /-- A cause in words. -/
  | other (message : String) (token : Option Token)
  deriving DecidableEq, Repr, Inhabited

/-- The fault of a token that is not what was called for.  What was found is its text. -/
def SyntaxFault.mismatched (expected : String) (token : Option Token) : SyntaxFault :=
  .mismatch expected (Token.textOrNull token) token

/-- The token that a syntax fault is about. -/
def SyntaxFault.token : SyntaxFault → Option Token
  | .mismatch _ _ token => token
  | .expectedStatement token => token
  | .afterIdentifier token => token
  | .expectedEnd token => some token
  | .other _ token => token

/-- The fault in words. -/
def SyntaxFault.message : SyntaxFault → String
  | .mismatch expected found _ =>
    "Incorrect syntax: expected " ++ expected ++ ", found: " ++ found
  | .expectedStatement token =>
    "Expected identifier for sentence but got " ++ (token.map fun t => t.kind.name).getD "null"
  | .afterIdentifier token =>
    "Unexpected token " ++ Token.textOrNull token ++ " after identifier."
  | .expectedEnd token => "Unexpected token: " ++ token.kind.name ++ ". Expected EOF."
  | .other message _ => message

/-! ## All faults -/

/-- The parts of a token that can be asked for. -/
inductive TokenField where
  | kind
  | text
  deriving DecidableEq, Repr, Inhabited

/-- The name of a part of a token. -/
def TokenField.name : TokenField → String
  | .kind => "kind"
  | .text => "text"

/-- What has no outline. -/
inductive Unrenderable where
  /-- No node at all. -/
  | nothing
  /-- A node of a kind that the language does not have. -/
  | kind (name : String)
  /-- A number with more digits than can be written. -/
  | number
  deriving DecidableEq, Repr, Inhabited

/-- What has no outline, in words. -/
def Unrenderable.message : Unrenderable → String
  | .nothing => "Cannot render node of type null"
  | .kind name => "Cannot render node of type " ++ name
  | .number => "Exceeds the limit (" ++ toString Text.digitLimit ++ " digits) for a number"

/-- Whatever can end a computation of this library. -/
inductive Fault where
  | lexical (fault : LexicalFault)
  | syntactic (fault : SyntaxFault)
  /-- A part of a token was asked for where there is no token. -/
  | noToken (field : TokenField)
  /-- A token writes a number with more digits than can be taken from a text. -/
  | tooManyDigits (digits : Nat)
  /-- A tree was to be outlined that holds something without an outline. -/
  | unrenderable (what : Unrenderable)
  /-- A cause in words. -/
  | general (message : String)
  deriving DecidableEq, Repr, Inhabited

namespace Fault

/-- The fault in words. -/
def message : Fault → String
  | .lexical fault => fault.message
  | .syntactic fault => fault.message
  | .noToken field => "No token to take the " ++ field.name ++ " of"
  | .tooManyDigits digits =>
    Unrenderable.number.message ++ ": value has " ++ toString digits ++ " digits"
  | .unrenderable what => what.message
  | .general message => message

/-- Whether the fault is one of the source text's characters. -/
def isLexical : Fault → Bool
  | .lexical _ => true
  | _ => false

/-- Whether the fault is one of the order of tokens. -/
def isSyntactic : Fault → Bool
  | .syntactic _ => true
  | _ => false

/-- The fault of a token that stands where the input should have ended; it cannot even be stated
where there is no token. -/
def expectedEnd : Option Token → Fault
  | some token => .syntactic (.expectedEnd token)
  | none => .noToken .kind

/-- The outline of a program was asked for before any program was read. -/
def notParsed : Fault := .syntactic (.other "Program wasn't parsed" none)

end Fault

end MiniLang
