import MiniLang.Window
/-!
# Chains of cursors

Cursors share one stream.  A cursor shows two tokens and never changes what it shows; asked for its
successor it pulls one token from the stream, the first time, and names the same successor ever
after.  A successor that could not be pulled is not remembered.
-/

set_option autoImplicit false

namespace MiniLang

/-- Two tokens in view, and the number of the cursor that comes next, once it is known. -/
structure Cursor where
  current : Option Token
  next : Option Token
  successor : Option Nat
  deriving DecidableEq, Repr, Inhabited

/-- The description of a cursor. -/
def Cursor.describe (cursor : Cursor) : String :=
  "TokenCursor(" ++ Token.describe? cursor.current ++ ", " ++ Token.describe? cursor.next ++ ")"

/-- The cursors known so far, numbered from zero, and the stream that they share. -/
structure Chain where
  cursors : List Cursor
  rest : Stream
  deriving DecidableEq, Repr, Inhabited

namespace Chain

/-- The chain of one cursor at the front of a stream. -/
def start (stream : Stream) : Except LexicalFault Chain :=
  match Window.start stream with
  | .error fault => .error fault
  | .ok w => .ok ⟨[⟨w.current, w.next, none⟩], w.rest⟩

/-- The cursor of a given number. -/
def get? (chain : Chain) (i : Nat) : Option Cursor := chain.cursors[i]?

/-- The number of the successor of a cursor, and the chain afterwards; nothing where there is no
such cursor. -/
def advance (chain : Chain) (i : Nat) : Option (Except LexicalFault Nat × Chain) :=
  match chain.cursors[i]? with
  | none => none
  | some cursor =>
    match cursor.successor with
    | some j => some (.ok j, chain)
    | none =>
      match chain.rest.pull with
      | .error fault => some (.error fault, ⟨chain.cursors, .ended⟩)
      | .ok (token, rest) =>
        let j := chain.cursors.length
        let known := chain.cursors.set i ⟨cursor.current, cursor.next, some j⟩
        some (.ok j, ⟨known ++ [⟨cursor.next, token, none⟩], rest⟩)

end Chain

end MiniLang
