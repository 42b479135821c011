import Mathlib.Algebra.Group.Nat.Defs
import MiniLang.Proofs.Lexical
/-!
# Numbers and their texts

Which texts write a number and which number they write (`integer?_eq`), which of them have too many
digits to be taken for one (`number?_eq`), and that a number which is taken from a text can be
written again, and the other way round (`writable_of_number?`, `number?_toString`).  The operand of
a token of a source text is told from that (`Token.Lexical.operand_of_integer`).
-/

set_option autoImplicit false

namespace MiniLang

open Text

/-- The value of decimal digits, after a minus sign or none. -/
def decimalValue : List Char → Int
  | '-' :: digits => -(Nat.ofDigitChars 10 digits 0 : Int)
  | digits => Nat.ofDigitChars 10 digits 0

section

variable {d : Char} {ds : List Char}

theorem ne_sign_of_isDigit (h : d.isDigit = true) : d ≠ '-' := by
  rintro rfl
  exact absurd h (by decide)

theorem isDecimal_of_digits (hd : d.isDigit = true) (hds : ds.all Char.isDigit = true) :
    isDecimal (d :: ds) = true := by
  rw [isDecimal, if_neg (ne_sign_of_isDigit hd), hd, hds]
  rfl

theorem isDecimal_of_sign (hd : d.isDigit = true) (hds : ds.all Char.isDigit = true) :
    isDecimal ('-' :: d :: ds) = true := by
  rw [isDecimal, if_pos rfl, List.all_cons, hd, hds]
  rfl

theorem decimalValue_of_digits (hd : d.isDigit = true) :
    decimalValue (d :: ds) = Nat.ofDigitChars 10 (d :: ds) 0 := by
  rw [decimalValue]
  rintro digits ⟨⟩
  exact absurd rfl (ne_sign_of_isDigit hd)

end

/-- A text that writes a number is one or more digits, after a minus sign or none. -/
theorem exists_of_isDecimal {text : List Char} (h : isDecimal text = true) :
    ∃ d ds, d.isDigit = true ∧ ds.all Char.isDigit = true ∧
      (text = d :: ds ∨ text = '-' :: d :: ds) := by
  cases text with
  | nil => cases h
  | cons c cs =>
    rw [isDecimal] at h
    split at h
    · rename_i hc
      cases cs with
      | nil => cases h
      | cons d ds =>
        simp only [List.all_cons, Bool.and_eq_true] at h
        exact ⟨d, ds, h.2.1, h.2.2, .inr (by rw [hc])⟩
    · rw [Bool.and_eq_true] at h
      exact ⟨c, cs, h.1, h.2, .inl rfl⟩

/-! ## Numbers from texts -/

theorem integer?_eq (text : List Char) :
    integer? text = if isDecimal text then some (decimalValue text) else none := by
  by_cases h : isDecimal text = true
  · rw [if_pos h, integer?, splitInteger_of_isDecimal h]
    obtain ⟨d, ds, hd, -, rfl | rfl⟩ := exists_of_isDecimal h
    · rw [decimalValue_of_digits hd]
      split
      · rename_i hs
        cases hs
        exact absurd rfl (ne_sign_of_isDigit hd)
      · rename_i hs
        cases hs
        rfl
      · rename_i hs
        exact absurd rfl (hs _)
    · rfl
  · rw [if_neg h]
    cases hv : integer? text with
    | none => rfl
    | some value => exact absurd (isDecimal_of_integer? hv) h

/-- A text that writes a number is taken for it if it does not have too many digits. -/
theorem number?_eq (text : List Char) :
    number? text =
      if isDecimal text then
        some (if digitLimit < digitCount text then .error (digitCount text)
          else .ok (decimalValue text))
      else none := by
  rw [number?, integer?_eq]
  cases isDecimal text <;> rfl

/-! ## Texts of numbers -/

/-- The decimal digits of a number. -/
theorem exists_digits (n : Nat) :
    ∃ d ds, n.repr.toList = d :: ds ∧ d.isDigit = true ∧ ds.all Char.isDigit = true ∧
      Nat.ofDigitChars 10 (d :: ds) 0 = n := by
  cases hd : Nat.toDigits 10 n with
  | nil => exact absurd hd Nat.toDigits_ne_nil
  | cons d ds =>
    have hall : ∀ c ∈ d :: ds, c.isDigit = true := by
      intro c hc
      rw [← hd] at hc
      exact Nat.isDigit_of_mem_toDigits (by decide) (by decide) hc
    obtain ⟨hfirst, hmore⟩ := List.forall_mem_cons.1 hall
    refine ⟨d, ds, Nat.toList_repr.trans hd, hfirst, List.all_eq_true.2 hmore, ?_⟩
    rw [← hd]
    exact Nat.ofDigitChars_ten_toDigits

/-- A number is written in decimal digits, and they have its value. -/
theorem decimalValue_toString (value : Int) :
    isDecimal (toString value).toList = true ∧ decimalValue (toString value).toList = value := by
  cases value with
  | ofNat n =>
    obtain ⟨d, ds, htext, hd, hds, hvalue⟩ := exists_digits n
    have hrepr : (toString (Int.ofNat n)).toList = d :: ds := htext
    rw [hrepr, decimalValue_of_digits hd, hvalue]
    exact ⟨isDecimal_of_digits hd hds, rfl⟩
  | negSucc n =>
    obtain ⟨d, ds, htext, hd, hds, hvalue⟩ := exists_digits (n + 1)
    have hrepr : (toString (Int.negSucc n)).toList = '-' :: d :: ds := by
      rw [← htext]
      exact String.toList_append
    rw [hrepr, decimalValue, hvalue]
    exact ⟨isDecimal_of_sign hd hds, rfl⟩

/-- A number is taken from the text that is written of it. -/
theorem number?_toString {value : Int} (h : Writable value) :
    number? (toString value).toList = some (.ok value) := by
  obtain ⟨hdecimal, hvalue⟩ := decimalValue_toString value
  rw [number?_eq, if_pos hdecimal, if_neg (Nat.not_lt.2 h), hvalue]

theorem digitCount_of_all {digits : List Char} (h : digits.all Char.isDigit = true) :
    digitCount digits = digits.length :=
  List.countP_eq_length.2 (List.all_eq_true.1 h)

theorem digitCount_cons_sign (text : List Char) : digitCount ('-' :: text) = digitCount text :=
  List.countP_cons_of_neg (by decide)

theorem digitCount_repr (n : Nat) : digitCount n.repr.toList = (Nat.toDigits 10 n).length := by
  rw [Nat.toList_repr]
  exact digitCount_of_all (List.all_eq_true.2 fun c hc =>
    Nat.isDigit_of_mem_toDigits (by decide) (by decide) hc)

/-- The digits of a number count alike with and without its sign. -/
theorem digitCount_toString (value : Int) :
    digitCount (toString value).toList = digitCount value.natAbs.repr.toList := by
  cases value with
  | ofNat n => rfl
  | negSucc n =>
    have hrepr : (toString (Int.negSucc n)).toList = '-' :: (n + 1).repr.toList :=
      String.toList_append
    rw [hrepr, digitCount_cons_sign]
    rfl

theorem ofDigitChars_lt {digits : List Char} (h : digits.all Char.isDigit = true) (value : Nat) :
    Nat.ofDigitChars 10 digits value < (value + 1) * 10 ^ digits.length := by
  induction digits generalizing value with
  | nil => simp
  | cons d ds ih =>
    rw [List.all_cons, Bool.and_eq_true] at h
    have hd : d.toNat - '0'.toNat < 10 := by
      have hle := (Char.isDigit_iff_toNat.1 h.1).2
      have hzero : '0'.toNat = 48 := rfl
      have hnine : '9'.toNat = 57 := rfl
      omega
    rw [Nat.ofDigitChars_cons]
    refine Nat.lt_of_lt_of_le (ih h.2 _) ?_
    rw [List.length_cons, Nat.pow_succ', ← Nat.mul_assoc]
    exact Nat.mul_le_mul_right _ (by omega)

/-- A number has no more digits than the text that it is taken from. -/
theorem digitCount_toString_decimalValue_le {text : List Char} (h : isDecimal text = true) :
    digitCount (toString (decimalValue text)).toList ≤ digitCount text := by
  have hnat : ∀ {digits : List Char}, digits.all Char.isDigit = true → digits ≠ [] →
      digitCount (Nat.ofDigitChars 10 digits 0).repr.toList ≤ digitCount digits := by
    intro digits hall hne
    rw [digitCount_repr, digitCount_of_all hall,
      Nat.length_toDigits_le_iff (by decide) (List.length_pos_iff.2 hne)]
    simpa using ofDigitChars_lt hall 0
  obtain ⟨d, ds, hd, hds, rfl | rfl⟩ := exists_of_isDecimal h
  all_goals
    have hall : (d :: ds).all Char.isDigit = true := by rw [List.all_cons, hd, hds]; rfl
    have hle := hnat hall (List.cons_ne_nil d ds)
  · rwa [digitCount_toString, decimalValue_of_digits hd, Int.natAbs_natCast]
  · rwa [digitCount_cons_sign, digitCount_toString, decimalValue, Int.natAbs_neg,
      Int.natAbs_natCast]

/-- What is taken from a text can be written again. -/
theorem writable_of_number? {text : List Char} {value : Int}
    (h : number? text = some (.ok value)) : Writable value := by
  rw [number?_eq] at h
  split at h
  · rename_i hdecimal
    split at h
    · cases h
    · rename_i hlimit
      cases h
      exact Nat.le_trans (digitCount_toString_decimalValue_le hdecimal) (Nat.not_lt.1 hlimit)
  · cases h

/-! ## Operands -/

namespace Token

/-- The operand that a token makes is a number, a name or a string. -/
theorem operand_cases {t : Token} {n : Node} (h : t.operand = .ok n) :
    (∃ value, number? t.text.toList = some (.ok value) ∧ n = .integer value) ∨
      number? t.text.toList = none ∧
        (t.kind = .identifier ∧ n = .identifier t.text ∨
          t.kind ≠ .identifier ∧ n = .string t.text) := by
  unfold operand at h
  split at h
  · cases h
    exact .inl ⟨_, ‹_›, rfl⟩
  · cases h
  · rename_i hnone
    cases h
    by_cases hk : t.kind = .identifier
    · exact .inr ⟨hnone, .inl ⟨hk, if_pos hk⟩⟩
    · exact .inr ⟨hnone, .inr ⟨hk, if_neg hk⟩⟩

/-- A token that is a number does not have too many digits. -/
def Fits (t : Token) : Prop := t.kind = .integer → digitCount t.text.toList ≤ digitLimit

instance (t : Token) : Decidable t.Fits :=
  inferInstanceAs (Decidable (_ → _))

namespace Lexical

variable {t : Token}

/-- Of the tokens of a source text, the numbers are those whose texts write one. -/
theorem isDecimal_iff (h : t.Lexical) : isDecimal t.text.toList = true ↔ t.kind = .integer :=
  ⟨fun hdecimal => h.isSome_integer?_iff.1 (isSome_integer?_of_isDecimal hdecimal), fun hk => by
    unfold Token.Lexical at h
    rwa [hk] at h⟩

theorem number?_eq_none_iff (h : t.Lexical) :
    number? t.text.toList = none ↔ t.kind ≠ .integer := by
  rw [number?_eq, ne_eq, ← h.isDecimal_iff]
  cases isDecimal t.text.toList <;> simp

/-- The number that a token makes is the one that its text writes. -/
theorem kind_of_number? (h : t.Lexical) {value : Int}
    (hv : number? t.text.toList = some (.ok value)) :
    t.kind = .integer ∧ value = decimalValue t.text.toList := by
  rw [number?_eq] at hv
  split at hv
  · rename_i hdecimal
    split at hv
    · cases hv
    · cases hv
      exact ⟨h.isDecimal_iff.1 hdecimal, rfl⟩
  · cases hv

/-- A token that is a number makes one, unless it has too many digits. -/
theorem operand_of_integer (h : t.Lexical) (hk : t.kind = .integer) :
    t.operand =
      if digitLimit < digitCount t.text.toList then .error (digitCount t.text.toList)
      else .ok (.integer (decimalValue t.text.toList)) := by
  rw [operand, number?_eq, if_pos (h.isDecimal_iff.2 hk)]
  by_cases hlimit : digitLimit < digitCount t.text.toList
  · rw [if_pos hlimit, if_pos hlimit]
  · rw [if_neg hlimit, if_neg hlimit]

/-- Any other token makes a name or a string. -/
theorem operand_of_ne (h : t.Lexical) (hk : t.kind ≠ .integer) :
    t.operand = .ok (if t.kind = .identifier then .identifier t.text else .string t.text) := by
  rw [operand, h.number?_eq_none_iff.2 hk]

end Lexical

end Token

end MiniLang
