import MiniLang.Stream
/-!
# Readers of a source text

Any number of readers go through one source text, each at its own pace.  The text may be replaced: a
reader keeps to the text that was there when its first token was asked for.
-/

set_option autoImplicit false

namespace MiniLang

/-- A reader that has not begun, or what is still to come of the text that it has begun. -/
inductive Reader where
  | fresh
  | running (stream : Stream)
  deriving DecidableEq, Repr, Inhabited

/-- A source text and its readers, numbered from zero. -/
structure Readers where
  source : String
  readers : List Reader
  deriving DecidableEq, Repr, Inhabited

namespace Readers

/-- A source text without readers. -/
def ofSource (source : String) : Readers := ⟨source, []⟩

/-- One more reader, and its number. -/
def add (readers : Readers) : Nat × Readers :=
  (readers.readers.length, ⟨readers.source, readers.readers ++ [.fresh]⟩)

/-- Another source text. -/
def replace (readers : Readers) (source : String) : Readers := ⟨source, readers.readers⟩

/-- What a reader has still to come, once it begins now if it has not begun. -/
def ahead (readers : Readers) : Reader → Stream
  | .fresh => .ofSource readers.source
  | .running stream => stream

/-- The next token of a reader, absent at the end, or the lexical fault of its text; nothing where
there is no such reader. -/
def next (readers : Readers) (i : Nat) :
    Option (Except LexicalFault (Option Token) × Readers) :=
  match readers.readers[i]? with
  | none => none
  | some reader =>
    match (readers.ahead reader).pull with
    | .error fault =>
      some (.error fault, ⟨readers.source, readers.readers.set i (.running .ended)⟩)
    | .ok (token, stream) =>
      some (.ok token, ⟨readers.source, readers.readers.set i (.running stream)⟩)

/-- All tokens of the source text, or its lexical fault: a reader that has not begun is asked until
it has no more. -/
def all (readers : Readers) : Except LexicalFault (List Token) := (readers.ahead .fresh).drain

end Readers

end MiniLang
