/-!
# Numbers in decimal

A number is taken from a text, or written as one, only as long as it has no more digits than a
limit.  Leading zeros are digits too, and the sign is none.
-/

set_option autoImplicit false

namespace MiniLang.Text

/-- How many digits a number may have that is taken from a text or written as one. -/
def digitLimit : Nat := 4300

/-- How many decimal digits a text holds. -/
def digitCount (text : List Char) : Nat := text.countP Char.isDigit

/-- The number does not have too many digits to be written. -/
def Writable (value : Int) : Prop := digitCount (toString value).toList ≤ digitLimit

instance (value : Int) : Decidable (Writable value) :=
  inferInstanceAs (Decidable (_ ≤ _))

/-- The text of a number, unless it has too many digits. -/
def ofInteger? (value : Int) : Option String :=
  if Writable value then some (toString value) else none

end MiniLang.Text
