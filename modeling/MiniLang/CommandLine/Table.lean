import MiniLang.Token
/-!
# Token tables

The tokens of a source text as a table: two lines of heading, and a row for each token with its
line, its column and its kind centred in their columns and its text last.  A text is written as it
is, so a line feed within a string literal breaks its row.
-/

set_option autoImplicit false

namespace MiniLang.CommandLine

namespace Table

/-- A number of blanks. -/
def blanks (n : Nat) : String := String.ofList (List.replicate n ' ')

/-- A text in the middle of a column.  Where it cannot stand in the exact middle it is one place
further left; a text that is wider than the column is not cut. -/
def centred (width : Nat) (text : String) : String :=
  let free := width - text.length
  blanks (free / 2) ++ text ++ blanks (free - free / 2)

/-- A row of the table, from the cells of its four columns. -/
def row (line column kind last : String) : String :=
  "| " ++ centred 10 line ++ " | " ++ centred 10 column ++ " | " ++ centred 15 kind ++ " | " ++ last
    ++ "\n"

/-- The names of the columns, and the line below them. -/
def heading : String :=
  row "Line" "Column" "Token" (centred 10 "Value")
    ++ "|------------|------------|-----------------|------------\n"

/-- The row of a token. -/
def tokenRow (token : Token) : String :=
  row (toString token.position.line) (toString token.position.column) token.kind.name
    ("  " ++ token.text)

end Table

/-- The table of a sequence of tokens. -/
def table (tokens : List Token) : String :=
  Table.heading ++ String.join (tokens.map Table.tokenRow)

end MiniLang.CommandLine
