/-!
# Source texts

The text of a source file.  Its bytes are strict UTF-8.  A line ends at a line feed, at a carriage
return, or at the two together, and in the text every line, the last one included, ends with a line
feed.
-/

set_option autoImplicit false

namespace MiniLang.SourceText

/-- A character in front of the first line. -/
def extend (c : Char) : List (List Char) → List (List Char)
  | [] => [[c]]
  | line :: lines => (c :: line) :: lines

/-- The lines of a text, without what ends them.  The last line need not be ended, but it is a line
only if it holds a character. -/
def lines : List Char → List (List Char)
  | [] => []
  | '\r' :: '\n' :: cs => [] :: lines cs
  | c :: cs => if c = '\r' ∨ c = '\n' then [] :: lines cs else extend c (lines cs)

/-- The text whose lines, each ended by a line feed, are given. -/
def ofLines (lines : List (List Char)) : List Char :=
  lines.flatMap fun line => line ++ ['\n']

/-- A text with all its lines ended by line feeds. -/
def normalize (text : String) : String := String.ofList (ofLines (lines text.toList))

/-- The text of a file, unless its bytes are not UTF-8. -/
def ofBytes? (bytes : ByteArray) : Option String := (String.fromUTF8? bytes).map normalize

end MiniLang.SourceText
