import MiniLang.Fault
/-!
# Escapes in string literals

Between the quotes of a string literal a backslash and one of `\`, `"`, `n`, `r`, `t`, `b`, `$`
stand for one character together.  Any other character after a backslash is a fault, which is
reported in the same way whether or not the literal is closed further on.
-/

set_option autoImplicit false

namespace MiniLang.Escape

/-- The character that a backslash and `symbol` stand for. -/
def meaning? (symbol : Char) : Option Char :=
  match symbol with
  | '\\' => some '\\'
  | '"' => some '"'
  | 'n' => some '\n'
  | 'r' => some '\r'
  | 't' => some '\t'
  | 'b' => some '\x08'
  | '$' => some '$'
  | _ => none

/-- The fault of a backslash before `symbol`, which stands at `position`. -/
def invalid (position : Position) (symbol : Char) : LexicalFault :=
  ⟨.invalidEscape (String.singleton symbol), position⟩

/-- Resolves the escapes of the text that stands before the closing quote.  The closing quote is the
last character of the list, whatever it is; `position` is the place of the first. -/
def decode (position : Position) : List Char → Except LexicalFault (List Char)
  | [] => .ok []
  | [_] => .ok []
  | c :: d :: rest =>
    if c = '\\' then
      match meaning? d with
      | none => .error (invalid (position.right 1) d)
      | some e =>
        match decode (position.right 2) rest with
        | .error fault => .error fault
        | .ok inner => .ok (e :: inner)
    else
      match decode (position.right 1) (d :: rest) with
      | .error fault => .error fault
      | .ok inner => .ok (c :: inner)

/-- The text of a string literal that is written as `raw` at `position`: its escapes are resolved,
and its first and last characters become quotes. -/
def decodeLiteral (position : Position) (raw : List Char) : Except LexicalFault (List Char) :=
  match decode (position.right 1) raw.tail with
  | .error fault => .error fault
  | .ok inner => .ok ('"' :: inner ++ ['"'])

/-- The fault of a literal that is never closed.  It opens at `opening`, and the text that follows
its quote begins at `position`.  The first escape that cannot be resolved goes before the missing
quote. -/
def unclosed (opening position : Position) : List Char → LexicalFault
  | [] => ⟨.unterminatedString, opening⟩
  | [_] => ⟨.unterminatedString, opening⟩
  | c :: d :: rest =>
    if c = '\\' then
      match meaning? d with
      | none => invalid (position.right 1) d
      | some _ => unclosed opening (position.right 2) rest
    else unclosed opening (position.right 1) (d :: rest)

end MiniLang.Escape
