import MiniLang.Proofs.Front
import MiniLang.Proofs.Grammar
/-!
# The shape of derivations

What the rules of the grammar have in common: how a derived list begins and what may follow it, and
which nodes the rules make.
-/

set_option autoImplicit false

namespace MiniLang

open Window

/-! ## Levels -/

/-- The phrase of a level. -/
def Level.phrase : Level → Phrase
  | .equality => .expression
  | .comparison => .comparison
  | .sum => .sum
  | .product => .product
  | .primary => .primary

/-- The operators of the grammar are the ones that are read. -/
theorem Level.operators_eq :
    Level.equality.operators = equalityOperators ∧
      Level.comparison.operators = comparisonOperators ∧
      Level.sum.operators = sumOperators ∧ Level.product.operators = productOperators :=
  ⟨rfl, rfl, rfl, rfl⟩

theorem Level.phrase_eq_chain {level : Level} (h : level ≠ .primary) :
    level.phrase = .chain level.operators level.tighter.phrase := by
  cases level with
  | primary => exact absurd rfl h
  | _ => rfl

/-- The operators of a level and of all tighter ones. -/
def Level.reach : Level → List String
  | .equality =>
    equality.operators ++ (comparison.operators ++ (sum.operators ++ product.operators))
  | .comparison => comparison.operators ++ (sum.operators ++ product.operators)
  | .sum => sum.operators ++ product.operators
  | .product => product.operators
  | .primary => []

theorem Level.mem_reach {level : Level} {text : String} :
    text ∈ level.reach ↔
      text ∈ level.operators ∨ level ≠ .primary ∧ text ∈ level.tighter.reach := by
  cases level <;> simp [reach, operators, tighter, or_assoc]

theorem Level.mem_reach_equality {level : Level} {text : String} (h : text ∈ level.operators) :
    text ∈ Level.equality.reach := by
  cases level with
  | primary => exact absurd h List.not_mem_nil
  | _ => simp [reach, h]

/-- An expression of a level goes no further into a list. -/
def Level.Stops (level : Level) : List Token → Prop
  | [] => True
  | t :: _ => t.text ∉ level.reach

theorem Level.stops_primary (ts : List Token) : Level.primary.Stops ts := by
  cases ts with
  | nil => trivial
  | cons t _ => simp [Stops, reach]

/-! ## How a list begins -/

theorem reads_facing_iff {ts : List Token} {text : String} :
    (facing ts).reads text = true ↔ StartsWith text ts := by
  cases ts <;> simp [StartsWith]

theorem startsWith_append {text : String} {ts : List Token} (us : List Token)
    (h : StartsWith text ts) : StartsWith text (ts ++ us) := by
  cases ts with
  | nil => exact h.elim
  | cons t _ => exact h

theorem before_of_append {n : Node} {ts us : List Token} (h : n.Before (ts ++ us)) : n.Before ts :=
  fun ho hs => h ho (startsWith_append us hs)

namespace Grammar

/-! ## Expressions -/

theorem Expression.ne_nil {G : Grammar} {level : Level} {ts : List Token} {n : Node}
    (h : G.Expression level ts n) : ts ≠ [] := by
  induction h with
  | operand => simp
  | enclosed => simp
  | single _ ih => exact ih
  | operation => simp

/-- Whether the operands of a grammar are nodes that expressions are made of. -/
def MakesExpressions (G : Grammar) : Prop :=
  ∀ (t : Token) (n : Node), G.operand t n → n.isExpression = true

theorem makesExpressions_readable : readable.MakesExpressions := by
  rintro t n ⟨h, -⟩
  cases h <;> rfl

theorem makesExpressions_lenient : lenient.MakesExpressions := by
  rintro t n ⟨-, h⟩
  rcases Token.operand_cases h with ⟨_, -, rfl⟩ | ⟨-, ⟨-, rfl⟩ | ⟨-, rfl⟩⟩ <;> rfl

theorem Expression.isExpression {G : Grammar} (hG : G.MakesExpressions) {level : Level}
    {ts : List Token} {n : Node} (h : G.Expression level ts n) : n.isExpression = true := by
  induction h with
  | operand h => exact hG _ _ h
  | enclosed _ _ _ ih => exact ih
  | single _ ih => exact ih
  | operation => rfl

theorem Expression.isOpen {G : Grammar} (hG : G.MakesExpressions) {level : Level} {ts : List Token}
    {n : Node} (h : G.Expression level ts n) : n.isOpen = false := by
  have hn := h.isExpression hG
  cases n <;> first | rfl | exact Bool.noConfusion hn

/-- Nothing but an open conditional minds what it stands before. -/
theorem before_of_isOpen {n : Node} (h : n.isOpen = false) (ts : List Token) : n.Before ts := by
  intro ho
  rw [h] at ho
  exact Bool.noConfusion ho

/-- Every operator of one character belongs to expressions. -/
theorem mem_reach_of_operation {t : Token} (hl : t.Lexical) (h : t.kind = .operation) :
    t.text ∈ Level.equality.reach := by
  have hsub : ∀ text ∈ ["-", "+", "*", "/", "%", "<", ">"], text ∈ Level.equality.reach := by
    decide
  exact hsub _ (hl.text_of_operation h)

/-! ## Statements -/

theorem Derives.exists_block {G : Grammar} {ts : List Token} {n : Node}
    (h : G.Derives .block ts [n]) : ∃ ns, n = .block ns := by
  cases h
  exact ⟨_, rfl⟩

theorem Derives.ne_absent {G : Grammar} (hG : G.MakesExpressions) {form : Form} {ts : List Token}
    {n : Node} (h : G.Derives form ts [n]) : n ≠ .absent := by
  generalize hns : [n] = ns at h
  induction h with
  | expression _ _ he =>
    cases hns
    rintro rfl
    exact Bool.noConfusion (he.isExpression hG)
  | call hc => cases hns; cases hc; simp
  | nested _ ih => exact ih hns
  | next hs _ _ ih _ => cases hns; exact ih rfl
  | separator _ _ ih => exact ih hns
  | _ => cases hns <;> simp

theorem startsWith_of_append {text : String} {us vs ts : List Token} {t : Token}
    (h : StartsWith text us) (hts : us ++ vs = t :: ts) : t.text = text := by
  cases us with
  | nil => exact h.elim
  | cons u us =>
    cases hts
    exact h

theorem mem_tags {t : Token} (hl : t.Lexical) (hk : t.kind = .keyword) (hr : t.text ≠ "return")
    (hi : t.text ≠ "if") : t.text ∈ tags := by
  have h := hl.mem_keywords hk
  simp only [keywords, List.mem_cons, List.not_mem_nil, or_false, hr, hi] at h
  simpa [tags] using h

/-! ## Items -/

/-- Where no `int` stands in front, a semicolon in front changes nothing. -/
theorem Items.behind {G : Grammar} {ts : List Token} {ns : List Node} (h : G.Items false ts ns)
    (hi : ¬ StartsWith "int" ts) (behind : Bool) : G.Items behind ts ns := by
  cases h with
  | empty => exact .empty
  | separator hs h => exact .separator hs h
  | statement h hn hb hs =>
    exact .statement h (fun _ hst => hi (startsWith_append _ hst)) hb hs
  | declaration ht => exact (hi ht).elim

theorem Items.separators {G : Grammar} {us ts : List Token} {ns : List Node}
    (hus : ∀ s ∈ us, s.text = ";") (h : ∀ behind, G.Items behind ts ns) (behind : Bool) :
    G.Items behind (us ++ ts) ns := by
  induction us generalizing behind with
  | nil => exact h behind
  | cons s us ih =>
    obtain ⟨hs, hus⟩ := List.forall_mem_cons.1 hus
    exact .separator hs (ih hus true)

end Grammar

end MiniLang
