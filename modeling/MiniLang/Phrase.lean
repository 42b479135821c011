import MiniLang.Window
/-!
# Phrases

The phrases of the language: what can be read on its own from a window.  The levels of an expression
are chains of operands, one within the other, and what follows something that has been read is a
phrase as well, so a single recursion reads them all.
-/

set_option autoImplicit false

namespace MiniLang

/-! ## Operators -/

/-- The operators that bind loosest. -/
def equalityOperators : List String := ["==", "!=", ">=", "<="]

/-- The operators that bind tighter than equality; a bare equals sign is among them. -/
def comparisonOperators : List String := ["<", ">", "="]

/-- The operators that bind tighter than comparison. -/
def sumOperators : List String := ["+", "-"]

/-- The operators that bind tightest. -/
def productOperators : List String := ["*", "/", "%"]

/-! ## Operands -/

/-- The number that a text writes: ASCII digits, after a minus sign or none. -/
def integer? (text : List Char) : Option Int :=
  match splitInteger text with
  | some ('-' :: digits, []) => some (-(Nat.ofDigitChars 10 digits 0 : Int))
  | some (digits, []) => some (Nat.ofDigitChars 10 digits 0)
  | _ => none

/-- The number that is taken from a text that writes one, or how many digits it has if they are too
many. -/
def number? (text : List Char) : Option (Except Nat Int) :=
  (integer? text).map fun value =>
    if Text.digitLimit < Text.digitCount text then .error (Text.digitCount text) else .ok value

/-- The operand that one token makes, or how many digits it has too many for a number.  A text that
writes a number is a number whatever the kind of its token; of the others an identifier is a name,
and any other token is taken for a string. -/
def Token.operand (token : Token) : Except Nat Node :=
  match number? token.text.toList with
  | some (.ok value) => .ok (.integer value)
  | some (.error digits) => .error digits
  | none => .ok (if token.kind = .identifier then .identifier token.text else .string token.text)

/-! ## Phrases -/

/-- What can be read on its own. -/
inductive Phrase where
  | identifier
  /-- An operand: an expression in parentheses, a number, a name or a string. -/
  | primary
  /-- Operands with operators between them, associated to the left. -/
  | chain (operators : List String) (operand : Phrase)
  /-- What follows the left operand of a chain. -/
  | chained (operators : List String) (operand : Phrase) (left : Node)
  | call
  /-- What follows the arguments of a call that have been read. -/
  | arguments (name : Node) (arguments : List Node)
  /-- What follows the target of an assignment. -/
  | assignment (target : Node)
  /-- A statement that begins with an identifier. -/
  | identifierLed
  | returning
  | conditional
  | declaration
  | block
  /-- What follows the statements of a block that have been read. -/
  | statements (statements : List Node)
  /-- A statement that is no block. -/
  | statement
  /-- Semicolons, and then a statement unless a block or the end follows. -/
  | sentence
  deriving Repr

namespace Phrase

/-- Factors and products of them. -/
def product : Phrase := .chain productOperators .primary

/-- Products and sums of them. -/
def sum : Phrase := .chain sumOperators product

/-- Sums and comparisons of them. -/
def comparison : Phrase := .chain comparisonOperators sum

/-- An expression. -/
def expression : Phrase := .chain equalityOperators comparison

/-- How many tokens a phrase takes at least. -/
def least : Phrase → Nat
  | .sentence => 0
  | .chained .. => 0
  | .chain _ operand => operand.least
  | _ => 1

/-- How many tokens a phrase takes at least from a given window.  A sentence takes one unless a
block or the end comes first. -/
def leastFrom (phrase : Phrase) (w : Window) : Nat :=
  match phrase with
  | .sentence => if w.current.isNone ∨ w.reads "\x7b" then 0 else 1
  | phrase => phrase.least

theorem least_le_leastFrom (phrase : Phrase) (w : Window) : phrase.least ≤ phrase.leastFrom w := by
  unfold leastFrom
  split
  · exact Nat.zero_le _
  · exact Nat.le_refl _

theorem leastFrom_sentence_le_one (w : Window) : leastFrom .sentence w ≤ 1 := by
  show (if w.current.isNone ∨ w.reads "\x7b" then 0 else 1) ≤ 1
  split
  · exact Nat.zero_le _
  · exact Nat.le_refl _

theorem leastFrom_sentence_le_zero {w : Window} (h : w.current.isNone ∨ w.reads "\x7b") :
    leastFrom .sentence w ≤ 0 :=
  Nat.le_of_eq (if_pos h)

theorem one_le_leastFrom_sentence {w : Window} (hc : ¬ w.current.isNone)
    (hr : ¬ w.reads "\x7b") : 1 ≤ leastFrom .sentence w :=
  Nat.le_of_eq (if_neg (not_or.2 ⟨hc, hr⟩)).symm

/-- How many phrases may be entered one within the other before a token is passed. -/
def rank : Phrase → Nat
  | .chain _ operand => operand.rank + 1
  | .chained _ operand _ => operand.rank
  | .identifierLed => 5
  | .statement => 6
  | .sentence => 7
  | .statements _ => 8
  | _ => 0

end Phrase

end MiniLang
