import MiniLang.Proofs.Assignment
/-!
# Numbers with too many digits

A number with more digits than can be taken from a text is a token like any other, but it makes no
operand.  An expression of the grammar in which there is one is not read: reading fails behind the
first of them (`Grammar.Expression.fail_of_overflow`).  So there are source texts whose tokens stand
in their right places and which are not parsed (`parse_assignment_of_digits`).
-/

set_option autoImplicit false

namespace MiniLang

open Text Window Grammar

/-! ## Tokens -/

/-- The fault of a token that writes a number with more digits than can be taken from a text. -/
def Fault.IsOverflowOf (fault : Fault) (t : Token) : Prop :=
  isDecimal t.text.toList = true ∧ digitLimit < digitCount t.text.toList ∧
    fault = .tooManyDigits (digitCount t.text.toList)

theorem Token.isOverflow_of_operand {t : Token} {digits : Nat} (h : t.operand = .error digits) :
    (Fault.tooManyDigits digits).IsOverflowOf t := by
  unfold operand at h
  rw [number?_eq] at h
  split at h
  · cases h
  · rename_i hnumber
    cases h
    split at hnumber
    · rename_i hdecimal
      split at hnumber
      · rename_i hlimit
        cases hnumber
        exact ⟨hdecimal, hlimit, rfl⟩
      · cases hnumber
    · cases hnumber
  · cases h

namespace Token

variable {t : Token} {digits : Nat}

/-- A number with too many digits makes no operand; how many they are is told. -/
theorem operand_of_digits (hd : isDecimal t.text.toList = true)
    (hl : digitLimit < digitCount t.text.toList) :
    t.operand = .error (digitCount t.text.toList) := by
  rw [operand, number?_eq, if_pos hd, if_pos hl]

/-- Of the tokens of a source text it is the numbers that do not fit. -/
theorem Lexical.operand_of_not_fits (hl : t.Lexical) (h : ¬ t.Fits) :
    t.operand = .error (digitCount t.text.toList) := by
  have hk : t.kind = .integer := Decidable.byContradiction fun hk => h fun hi => absurd hi hk
  exact operand_of_digits (hl.isDecimal_iff.2 hk) (Nat.lt_of_not_le fun hle => h fun _ => hle)

theorem text_ne_of_operand (h : t.operand = .error digits) : t.text ≠ "(" := by
  intro ht
  have hnumber : number? "(".toList = none := by decide
  rw [operand, ht, hnumber] at h
  cases h

end Token

/-! ## Expressions and assignments -/

/-- What begins with a number of too many digits, on whatever level it is read, fails behind it. -/
theorem Phrase.IsOperand.fail_of_digits {p : Phrase} (hp : p.IsOperand) {t : Token} {digits : Nat}
    (h : t.operand = .error digits) (ts : List Token) :
    p.run (facing (t :: ts)) = .fail (.tooManyDigits digits) (facing ts) := by
  fun_induction IsOperand p with
  | case1 =>
    rw [run_primary]
    simp only [current_facing, advance_facing, Outcome.andThen_ok,
      if_neg (Token.text_ne_of_operand h), h]
  | case2 operators operand ih => rw [run_chain, ih hp.2, Outcome.andThen_fail]
  | case3 => exact hp.elim

/-- The mark that a derivation takes for a parenthesis or for an operator is no number. -/
theorem Token.Lexical.fits_of_text {t : Token} (hl : t.Lexical)
    (ht : t.text ∈ "(" :: ")" :: Level.equality.reach) : t.Fits := by
  have hkind : ∀ text ∈ "(" :: ")" :: Level.equality.reach,
      Kind.ofText text.toList ≠ .integer := by
    decide
  intro hk
  exact absurd ((hl.kind_of_text rfl).symm.trans hk) (hkind _ ht)

/-- An expression in which a number has too many digits is not read: reading fails behind the first
such number, whatever stands behind the expression. -/
theorem Grammar.Expression.fail_of_overflow {level : Level} {us : List Token} {n : Node}
    (h : language.Expression level us n) (hl : ∀ t ∈ us, t.Lexical) (hu : ¬ ∀ t ∈ us, t.Fits) :
    ∃ front t back, us = front ++ t :: back ∧ (∀ u ∈ front, u.Fits) ∧ ¬ t.Fits ∧
      ∀ rest, level.phrase.run (facing (us ++ rest)) =
        .fail (.tooManyDigits (digitCount t.text.toList)) (facing (back ++ rest)) := by
  induction h with
  | @operand t n h =>
    have ht : ¬ t.Fits := fun hfits => hu (List.forall_mem_singleton.2 hfits)
    have hprimary : Phrase.primary.IsOperand := trivial
    exact ⟨[], t, [], rfl, by simp, ht, fun rest =>
      hprimary.fail_of_digits ((hl t (by simp)).operand_of_not_fits ht) rest⟩
  | @enclosed l r ts n hlt _ hr ih =>
    obtain ⟨hll, hl⟩ := List.forall_mem_cons.1 hl
    obtain ⟨hlts, hlr⟩ := List.forall_mem_append.1 hl
    have hfl : l.Fits := hll.fits_of_text (by simp [hlt])
    have hfr : r.Fits := (List.forall_mem_singleton.1 hlr).fits_of_text (by simp [hr])
    have hts : ¬ ∀ t ∈ ts, t.Fits := fun hts => hu (List.forall_mem_cons.2
      ⟨hfl, List.forall_mem_append.2 ⟨hts, List.forall_mem_singleton.2 hfr⟩⟩)
    obtain ⟨front, t, back, rfl, hfront, ht, hrun⟩ := ih hlts hts
    refine ⟨l :: front, t, back ++ [r], by simp, List.forall_mem_cons.2 ⟨hfl, hfront⟩, ht,
      fun rest => ?_⟩
    have hread := hrun (r :: rest)
    simp only [Level.phrase, List.cons_append, List.append_assoc, List.nil_append,
      Phrase.run_primary, current_facing, advance_facing, Outcome.andThen_ok, if_pos hlt] at hread ⊢
    rw [hread, Outcome.andThen_fail]
  | @single level ts n _ ih =>
    obtain ⟨front, t, back, hts, hfront, ht, hrun⟩ := ih hl hu
    refine ⟨front, t, back, hts, hfront, ht, fun rest => ?_⟩
    by_cases hp : level = .primary
    · subst hp
      exact hrun rest
    · rw [Level.phrase_eq_chain hp, Phrase.run_chain, hrun rest, Outcome.andThen_fail]
  | @operation level ts us o left right hleft ho _ ihl ihr =>
    obtain ⟨hlts, hlus⟩ := List.forall_mem_append.1 hl
    obtain ⟨hlo, hlus⟩ := List.forall_mem_cons.1 hlus
    by_cases hfits : ∀ t ∈ ts, t.Fits
    · -- the left operand is read, and the chain goes on behind the operator
      have hfo : o.Fits := hlo.fits_of_text (by simp [Level.mem_reach_equality ho])
      have hus : ¬ ∀ t ∈ us, t.Fits := fun hus => hu (List.forall_mem_append.2
        ⟨hfits, List.forall_mem_cons.2 ⟨hfo, hus⟩⟩)
      obtain ⟨front, t, back, rfl, hfront, ht, hrun⟩ := ihr hlus hus
      refine ⟨ts ++ o :: front, t, back, by simp,
        List.forall_mem_append.2 ⟨hfits, List.forall_mem_cons.2 ⟨hfo, hfront⟩⟩, ht,
        fun rest => ?_⟩
      have hp := Level.ne_primary_of_mem ho
      have hreadable := hleft.toReadable fun t ht => ⟨hlts t ht, hfits t ht⟩
      have hread := (complete_level hreadable hlts).2 hp
        (o :: (front ++ t :: back) ++ rest) (Level.not_mem_reach_tighter ho)
      rw [List.append_assoc, hread, Phrase.run_chained]
      simp only [List.cons_append, current_facing, advance_facing, Outcome.andThen_ok, if_pos ho]
      rw [hrun rest, Outcome.andThen_fail]
    · obtain ⟨front, t, back, rfl, hfront, ht, hrun⟩ := ihl hlts hfits
      refine ⟨front, t, back ++ o :: us, by simp, hfront, ht, fun rest => ?_⟩
      simpa only [List.append_assoc] using hrun (o :: us ++ rest)

/-- A name, an equals sign and a number with too many digits are not parsed, whatever stands behind
them but what makes them a call. -/
theorem parse_item_of_digits {x a t : Token} {digits : Nat} (hx : x.Lexical)
    (hk : x.kind = .identifier) (hint : x.text ≠ "int") (ha : a.kind = .assign)
    (h : t.operand = .error digits) {ts : List Token} (hts : (facing ts).reads "(" = false) :
    parse (.ofTokens ((x :: a :: t :: ts).map some)) = .error (.tooManyDigits digits) := by
  have hcall : (facing (t :: ts)).nextReads "(" = false := by rw [nextReads_facing_cons, hts]
  rw [parse_item_assignment hx hk hint ha, hcall, if_neg Bool.false_ne_true,
    Phrase.isOperand_expression.fail_of_digits h]
  rfl

/-! ## Source texts -/

/-- The text in which decimal digits are assigned, with layout behind them. -/
def assignmentText (digits gap : List Char) : String :=
  String.ofList ("x = ".toList ++ digits ++ gap)

theorem toList_assignmentText (digits gap : List Char) :
    (assignmentText digits gap).toList = "x = ".toList ++ digits ++ gap :=
  String.toList_ofList

section

variable {digits gap : List Char} (hall : digits.all Char.isDigit = true)
  (hgap : ∀ c ∈ gap, isLayout c = true)

include hall hgap

theorem words_assignmentText (hne : digits ≠ []) :
    (tokenize (assignmentText digits gap)).fault = none ∧
      (tokenize (assignmentText digits gap)).words =
        [(.identifier, "x"), (.assign, "="), (.integer, String.ofList digits)] := by
  have hdecimal : isDecimal digits = true := by
    obtain ⟨d, ds, rfl⟩ := List.exists_cons_of_ne_nil hne
    rw [List.all_cons, Bool.and_eq_true] at hall
    exact isDecimal_of_digits hall.1 hall.2
  let pieces : List Piece := [⟨['x'], [' ']⟩, ⟨['='], [' ']⟩, ⟨digits, gap⟩]
  have hv : ∀ word ∈ [(Kind.identifier, "x"), (.assign, "="), (.integer, String.ofList digits)],
      word.1.admits word.2.toList = true := by
    simp only [List.forall_mem_cons]
    refine ⟨by decide, by decide, ?_, by simp⟩
    rw [String.toList_ofList]
    exact hdecimal
  have hw : List.Forall₂ (fun word p => Written word.1 word.2.toList p.lexeme)
      [(Kind.identifier, "x"), (.assign, "="), (.integer, String.ofList digits)] pieces := by
    refine .cons (.plain (by decide)) (.cons (.plain (by decide)) (.cons ?_ .nil))
    rw [String.toList_ofList]
    exact .plain (by simp)
  have hgaps : ∀ p ∈ pieces, ∀ c ∈ p.gap, isLayout c = true := by
    have hblank : ∀ c ∈ [' '], isLayout c = true := List.forall_mem_singleton.2 rfl
    refine List.forall_mem_cons.2 ⟨hblank, List.forall_mem_cons.2 ⟨hblank, ?_⟩⟩
    exact List.forall_mem_singleton.2 hgap
  have htext : pieces.flatMap Piece.text = (assignmentText digits gap).toList := by
    rw [toList_assignmentText]
    simp [pieces, Piece.text]
  have hwords := words_of_written hv hw hgaps (by simp [pieces]) .start
  rwa [htext] at hwords

/-- An assignment of more decimal digits than a number may have is lexed, and it is not parsed. -/
theorem parse_assignment_of_digits (hl : digitLimit < digits.length) :
    (tokenize (assignmentText digits gap)).fault = none ∧
      parse (.ofSource (assignmentText digits gap)) = .error (.tooManyDigits digits.length) := by
  have hne : digits ≠ [] := List.length_pos_iff.1 (Nat.zero_lt_of_lt hl)
  obtain ⟨hf, hwords⟩ := words_assignmentText hall hgap hne
  refine ⟨hf, ?_⟩
  have hlexical : ∀ t ∈ (tokenize (assignmentText digits gap)).tokens, t.Lexical :=
    fun t ht => lexical_of_mem_tokenize ht
  rw [Tokenized.words] at hwords
  -- the three tokens of the text, wherever they stand
  obtain ⟨x, rest, htokens, hx, hrest⟩ := List.map_eq_cons_iff.1 hwords
  obtain ⟨a, rest, rfl, ha, hrest⟩ := List.map_eq_cons_iff.1 hrest
  obtain ⟨t, rest, rfl, ht, hrest⟩ := List.map_eq_cons_iff.1 hrest
  obtain rfl := List.map_eq_nil_iff.1 hrest
  rw [Prod.mk.injEq] at hx ha ht
  rw [ofSource_of_fault_eq_none hf]
  rw [htokens] at hlexical ⊢
  have hcount : digitCount t.text.toList = digits.length := by
    rw [ht.2, String.toList_ofList, digitCount_of_all hall]
  have hdecimal := (hlexical t (by simp)).isDecimal_iff.2 ht.1
  have hoperand : t.operand = .error digits.length := by
    rw [← hcount]
    exact Token.operand_of_digits hdecimal (hcount ▸ hl)
  exact parse_item_of_digits (hlexical x (by simp)) hx.1 (by rw [hx.2]; decide) ha.1 hoperand
    (reads_facing_nil "(")

end

end MiniLang
