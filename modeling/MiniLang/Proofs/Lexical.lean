import Mathlib.Data.List.TakeWhile
import MiniLang.Program
/-!
# The texts of lexical tokens

A token of a source text has a text of its kind: `Kind.admits` says which texts a kind has, and
`lexical_of_mem_tokenize` that the lexer makes no others.  No two kinds have a text in common
(`Kind.admits_unique`), so a token may be told by its text alone.
-/

set_option autoImplicit false

namespace MiniLang

/-! ## The texts of a kind -/

/-- Whether a text is one of the words that are no names. -/
def isKeyword (text : List Char) : Bool := keywords.any fun word => word.toList = text

/-- Whether a text is one or more digits, after a minus sign or none. -/
def isDecimal (text : List Char) : Bool :=
  match text with
  | [] => false
  | c :: digits =>
    if c = '-' then !digits.isEmpty && digits.all Char.isDigit
    else c.isDigit && digits.all Char.isDigit

/-- Whether the tokens of a kind may have a text.  The text of a string has its escapes resolved, so
anything may stand between its quotes. -/
def Kind.admits (kind : Kind) (text : List Char) : Bool :=
  match kind, text with
  | .keyword, text => isKeyword text
  | .identifier, c :: cs => isNameStart c && cs.all isNamePart && !isKeyword (c :: cs)
  | .operation, [c] => isOperation c
  | .comparison, [c, d] => isComparisonStart c && d = '='
  | .assign, [c] => c = '='
  | .special, [c] => isSpecial c
  | .string, c :: cs => c = '"' && cs.getLast? = some '"'
  | .integer, text => isDecimal text
  | _, _ => false

/-- A token whose text is one of its kind. -/
def Token.Lexical (token : Token) : Prop := token.kind.admits token.text.toList = true

instance (token : Token) : Decidable token.Lexical :=
  inferInstanceAs (Decidable (_ = true))

/-! ## Character classes -/

theorem isDigit_eq_false_of_isNameStart {c : Char} (h : isNameStart c = true) :
    c.isDigit = false := by
  have hletter : c.isAlpha =
      (decide (c.val ≥ 'A'.val ∧ c.val ≤ 'Z'.val) || (c.val ≥ 'a'.val && c.val ≤ 'z'.val)) := rfl
  rw [isNameStart, hletter] at h
  simp only [Bool.or_eq_true, Bool.and_eq_true, decide_eq_true_eq, UInt32.le_iff_toNat_le,
    ge_iff_le] at h
  simp only [Char.isDigit, Bool.and_eq_false_iff, decide_eq_false_iff_not,
    UInt32.le_iff_toNat_le, ge_iff_le]
  rcases h with (((a | a) | rfl) | rfl)
  · exact .inr (by simp at a ⊢; omega)
  · exact .inr (by simp at a ⊢; omega)
  · decide
  · decide

theorem isNameStart_eq_false_of_isDigit {c : Char} (h : c.isDigit = true) :
    isNameStart c = false := by
  cases hn : isNameStart c with
  | false => rfl
  | true => rw [isDigit_eq_false_of_isNameStart hn] at h; exact Bool.noConfusion h

/-- A character that a one-character token or an operator begins with. -/
theorem class_of_mark {c : Char}
    (h : isOperation c = true ∨ isComparisonStart c = true ∨ isSpecial c = true ∨ c = '"') :
    isNameStart c = false ∧ c.isDigit = false := by
  simp only [isOperation, isComparisonStart, isSpecial, List.contains_eq_mem, List.mem_cons,
    List.not_mem_nil, or_false, decide_eq_true_eq] at h
  rcases h with (rfl | rfl | rfl | rfl | rfl | rfl | rfl) | (rfl | rfl | rfl | rfl) |
    (rfl | rfl | rfl | rfl | rfl | rfl) | rfl <;> decide

/-! ## The text decides the kind -/

/-- The only kind that a text may belong to. -/
def Kind.ofText (text : List Char) : Kind :=
  match text with
  | [] => .other ""
  | c :: cs =>
    if isNameStart c then if isKeyword (c :: cs) then .keyword else .identifier
    else if c.isDigit then .integer
    else if c = '"' then .string
    else
      match cs with
      | [] => if c = '=' then .assign else if isOperation c then .operation else .special
      | d :: _ => if d = '=' then .comparison else .integer

theorem exists_isNameStart_of_isKeyword {text : List Char} (h : isKeyword text = true) :
    ∃ c cs, text = c :: cs ∧ isNameStart c = true := by
  simp only [isKeyword, keywords, List.any_cons, List.any_nil, Bool.or_false, Bool.or_eq_true,
    decide_eq_true_eq] at h
  rcases h with rfl | rfl | rfl | rfl | rfl <;> exact ⟨_, _, rfl, by decide⟩

theorem Kind.ofText_of_admits {kind : Kind} {text : List Char} (h : kind.admits text = true) :
    Kind.ofText text = kind := by
  unfold Kind.admits at h
  split at h
  case h_1 =>
    obtain ⟨c, cs, rfl, hc⟩ := exists_isNameStart_of_isKeyword h
    simp [Kind.ofText, hc, h]
  case h_2 c cs =>
    simp only [Bool.and_eq_true, Bool.not_eq_true'] at h
    simp [Kind.ofText, h.1.1, h.2]
  case h_3 c =>
    obtain ⟨hn, hd⟩ := class_of_mark (.inl h)
    have hq : c ≠ '"' ∧ c ≠ '=' := by
      constructor <;> rintro rfl <;> exact absurd h (by decide)
    simp [Kind.ofText, hn, hd, hq, h]
  case h_4 c d =>
    simp only [Bool.and_eq_true, decide_eq_true_eq] at h
    obtain ⟨hn, hd⟩ := class_of_mark (.inr (.inl h.1))
    have hq : c ≠ '"' := by rintro rfl; exact absurd h.1 (by decide)
    simp [Kind.ofText, hn, hd, hq, h.2]
  case h_5 c =>
    rw [decide_eq_true_eq] at h
    subst h
    decide
  case h_6 c =>
    obtain ⟨hn, hd⟩ := class_of_mark (.inr (.inr (.inl h)))
    have hq : c ≠ '"' ∧ c ≠ '=' ∧ isOperation c = false := by
      refine ⟨?_, ?_, ?_⟩
      · rintro rfl; exact absurd h (by decide)
      · rintro rfl; exact absurd h (by decide)
      · simp only [isSpecial, List.contains_eq_mem, List.mem_cons, List.not_mem_nil, or_false,
          decide_eq_true_eq] at h
        rcases h with rfl | rfl | rfl | rfl | rfl | rfl <;> decide
    simp [Kind.ofText, hn, hd, hq]
  case h_7 c cs =>
    simp only [Bool.and_eq_true, decide_eq_true_eq] at h
    obtain ⟨rfl, _⟩ := h
    rfl
  case h_8 =>
    unfold isDecimal at h
    split at h
    · exact Bool.noConfusion h
    · rename_i c digits
      split at h
      · rename_i hc
        subst hc
        simp only [Bool.and_eq_true, Bool.not_eq_true', List.isEmpty_eq_false_iff] at h
        cases digits with
        | nil => exact absurd rfl h.1
        | cons d ds =>
          have hd : d ≠ '=' := by
            rintro rfl
            simp at h
          simp only [Kind.ofText, hd, if_false]
          rfl
      · simp only [Bool.and_eq_true] at h
        simp [Kind.ofText, isNameStart_eq_false_of_isDigit h.1, h.1]
  case h_9 => exact Bool.noConfusion h

/-- No two kinds have a text in common. -/
theorem Kind.admits_unique {k₁ k₂ : Kind} {text : List Char} (h₁ : k₁.admits text = true)
    (h₂ : k₂.admits text = true) : k₁ = k₂ :=
  (Kind.ofText_of_admits h₁).symm.trans (Kind.ofText_of_admits h₂)

namespace Token.Lexical

variable {token : Token}

/-- A token of a given text has the kind of that text. -/
theorem kind_of_text (h : token.Lexical) {text : String} (ht : token.text = text) :
    token.kind = Kind.ofText text.toList := by
  subst ht
  exact (Kind.ofText_of_admits h).symm

theorem mem_keywords (h : token.Lexical) (hk : token.kind = .keyword) : token.text ∈ keywords := by
  unfold Token.Lexical at h
  rw [hk] at h
  obtain ⟨word, hw, ht⟩ := List.any_eq_true.1 h
  rwa [← String.toList_inj.1 (of_decide_eq_true ht)]

theorem text_of_assign (h : token.Lexical) (hk : token.kind = .assign) : token.text = "=" := by
  unfold Token.Lexical at h
  rw [hk] at h
  match ht : token.text.toList, h with
  | [c], h =>
    rw [of_decide_eq_true h] at ht
    exact String.toList_inj.1 ht

theorem text_of_operation (h : token.Lexical) (hk : token.kind = .operation) :
    token.text ∈ ["-", "+", "*", "/", "%", "<", ">"] := by
  unfold Token.Lexical at h
  rw [hk] at h
  match ht : token.text.toList, h with
  | [c], h =>
    simp only [Kind.admits, isOperation, List.contains_eq_mem, List.mem_cons, List.not_mem_nil,
      or_false, decide_eq_true_eq] at h
    rw [show token.text = String.ofList [c] by rw [← ht, String.ofList_toList]]
    rcases h with rfl | rfl | rfl | rfl | rfl | rfl | rfl <;> decide

end Token.Lexical

/-! ## The pieces that the rules take -/

theorem splitWord_append (word rest : List Char) :
    splitWord word (word ++ rest) = some (word, rest) := by
  induction word with
  | nil => rfl
  | cons w word ih => simp [splitWord, ih]

/-- Nothing that a run goes on with follows it. -/
theorem head?_of_splitRun {first more : Char → Bool} {cs piece rest : List Char}
    (h : splitRun first more cs = some (piece, rest)) : ∀ c ∈ rest.head?, more c = false := by
  cases cs with
  | nil => cases h
  | cons c cs =>
    rw [splitRun] at h
    split at h
    · cases h
      have hnot := List.head?_dropWhile_not more cs
      intro d hd
      rw [Option.mem_def.1 hd] at hnot
      exact hnot
    · cases h

/-- A run of name characters that is a keyword is a whole word, so the rule for keywords applies. -/
theorem isSome_keyword_of_splitRun {cs piece rest : List Char}
    (h : splitRun isNameStart isNamePart cs = some (piece, rest)) (hk : isKeyword piece = true) :
    (Rule.keyword.split? cs).isSome := by
  obtain ⟨word, hw, hp⟩ := List.any_eq_true.1 hk
  obtain ⟨hcs, _⟩ := append_of_splitRun h
  have hword : splitWord word.toList cs = some (word.toList, rest) := by
    rw [← hcs, ← of_decide_eq_true hp]
    exact splitWord_append _ _
  have hwhole : (splitWholeWord word.toList cs).isSome := by
    unfold splitWholeWord
    rw [hword]
    cases rest with
    | nil => rfl
    | cons c more => simp [head?_of_splitRun h c rfl]
  simp only [Rule.split?, List.isSome_findSome?, List.any_eq_true]
  exact ⟨word, hw, hwhole⟩

theorem all_of_splitRun {first more : Char → Bool} {cs piece rest : List Char}
    (h : splitRun first more cs = some (piece, rest)) :
    ∃ c ds, piece = c :: ds ∧ first c = true ∧ ds.all more = true := by
  cases cs with
  | nil => simp [splitRun] at h
  | cons c cs =>
    simp only [splitRun] at h
    split at h
    · rename_i hc
      cases h
      exact ⟨c, _, rfl, hc, List.all_takeWhile⟩
    · simp at h

theorem exists_of_splitOne {p : Char → Bool} {cs piece rest : List Char}
    (h : splitOne p cs = some (piece, rest)) : ∃ c, piece = [c] ∧ p c = true := by
  cases cs with
  | nil => simp [splitOne] at h
  | cons c cs =>
    simp only [splitOne] at h
    split at h
    · rename_i hc
      cases h
      exact ⟨c, rfl, hc⟩
    · simp at h

theorem isDecimal_of_splitInteger {cs piece rest : List Char}
    (h : splitInteger cs = some (piece, rest)) : isDecimal piece = true := by
  cases cs with
  | nil => simp [splitInteger] at h
  | cons c cs =>
    simp only [splitInteger] at h
    split at h
    · rename_i hc
      split at h
      · rename_i digits rest' hs
        obtain ⟨d, ds, rfl, hd, hds⟩ := all_of_splitRun hs
        cases h
        simp [isDecimal, hc, hd, hds]
      · simp at h
    · rename_i hc
      obtain ⟨d, ds, rfl, hd, hds⟩ := all_of_splitRun h
      have hne : d ≠ '-' := by rintro rfl; exact absurd hd (by decide)
      simp [isDecimal, hne, hd, hds]

/-- The text of a string literal stands between two quotes. -/
theorem admits_string_of_decodeLiteral {position : Position} {raw text : List Char}
    (h : Escape.decodeLiteral position raw = .ok text) : Kind.string.admits text = true := by
  unfold Escape.decodeLiteral at h
  split at h
  · simp at h
  · cases h
    simp [Kind.admits]

/-- The text that a rule makes of its piece is one of the kind of the rule.  The piece must have
been taken by the first rule that applies: a keyword is also a run of name characters. -/
theorem admits_of_first? {cs piece rest text : List Char} {rule : Rule} {kind : Kind}
    {position : Position} (h : Rule.first? cs = some (rule, (piece, rest)))
    (hk : rule.kind? = some kind) (ht : rule.textOf position piece = .ok text) :
    kind.admits text = true := by
  have hs := Rule.split?_of_first? h
  cases rule with
  | keyword =>
    cases hk
    cases ht
    obtain ⟨word, hw, hsplit⟩ := List.exists_of_findSome?_eq_some hs
    obtain ⟨_, rfl⟩ := append_of_splitWholeWord hsplit
    exact List.any_eq_true.2 ⟨word, hw, by simp⟩
  | identifier =>
    cases hk
    cases ht
    obtain ⟨c, ds, rfl, hc, hds⟩ := all_of_splitRun hs
    have hnot : isKeyword (c :: ds) = false := by
      cases hkey : isKeyword (c :: ds) with
      | false => rfl
      | true =>
        obtain ⟨split, hkw⟩ := Option.isSome_iff_exists.1 (isSome_keyword_of_splitRun hs hkey)
        simp [Rule.first?, Rule.order, hkw] at h
    simp [Kind.admits, hc, hds, hnot]
  | integer =>
    cases hk
    cases ht
    exact isDecimal_of_splitInteger hs
  | newlines => cases hk
  | string =>
    cases hk
    exact admits_string_of_decodeLiteral ht
  | comparison =>
    cases hk
    cases ht
    simp only [Rule.split?, splitComparison] at hs
    split at hs
    · split at hs
      · rename_i hc
        cases hs
        simp [Kind.admits, hc.1, hc.2]
      · simp at hs
    · simp at hs
  | operation =>
    cases hk
    cases ht
    obtain ⟨c, rfl, hc⟩ := exists_of_splitOne hs
    simpa [Kind.admits] using hc
  | special =>
    cases hk
    cases ht
    obtain ⟨c, rfl, hc⟩ := exists_of_splitOne hs
    simpa [Kind.admits] using hc
  | assign =>
    cases hk
    cases ht
    obtain ⟨c, rfl, hc⟩ := exists_of_splitOne hs
    simpa [Kind.admits] using hc

/-! ## Numbers -/

theorem isDecimal_of_integer? {text : List Char} {value : Int} (h : integer? text = some value) :
    isDecimal text = true := by
  unfold integer? at h
  have hpiece : ∀ {piece : List Char}, splitInteger text = some (piece, []) →
      isDecimal text = true := by
    intro piece hs
    have happend := (append_of_splitInteger hs).1
    rw [List.append_nil] at happend
    exact happend ▸ isDecimal_of_splitInteger hs
  split at h
  · rename_i hs
    exact hpiece hs
  · rename_i hs
    exact hpiece hs
  · simp at h

theorem splitRun_digits {d : Char} {ds : List Char} (hd : d.isDigit = true)
    (hds : ds.all Char.isDigit = true) :
    splitRun Char.isDigit Char.isDigit (d :: ds) = some (d :: ds, []) := by
  have hall : ∀ c ∈ ds, c.isDigit = true := List.all_eq_true.1 hds
  have htake : ds.takeWhile Char.isDigit = ds := List.takeWhile_eq_self_iff.2 hall
  have hdrop : ds.dropWhile Char.isDigit = [] := List.dropWhile_eq_nil_iff.2 hall
  simp [splitRun, hd, htake, hdrop]

/-- Where a text writes a number, the rule for numbers takes all of it. -/
theorem splitInteger_of_isDecimal {text : List Char} (h : isDecimal text = true) :
    splitInteger text = some (text, []) := by
  unfold isDecimal at h
  split at h
  · exact Bool.noConfusion h
  · rename_i c digits
    split at h
    · rename_i hc
      simp only [Bool.and_eq_true, Bool.not_eq_true', List.isEmpty_eq_false_iff] at h
      cases digits with
      | nil => exact absurd rfl h.1
      | cons d ds =>
        have hds := h.2
        rw [List.all_cons, Bool.and_eq_true] at hds
        simp [splitInteger, hc, splitRun_digits hds.1 hds.2]
    · rename_i hc
      simp only [Bool.and_eq_true] at h
      simp [splitInteger, hc, splitRun_digits h.1 h.2]

theorem isSome_integer?_of_isDecimal {text : List Char} (h : isDecimal text = true) :
    (integer? text).isSome := by
  unfold integer?
  rw [splitInteger_of_isDecimal h]
  split
  · rfl
  · rfl
  · rename_i hnot
    exact absurd rfl (hnot text)

/-- Of the tokens of a source text, the numbers are those that write one. -/
theorem Token.Lexical.isSome_integer?_iff {token : Token} (h : token.Lexical) :
    (integer? token.text.toList).isSome ↔ token.kind = .integer := by
  constructor
  · intro hs
    obtain ⟨value, hv⟩ := Option.isSome_iff_exists.1 hs
    have hadmits : Kind.integer.admits token.text.toList = true := isDecimal_of_integer? hv
    exact Kind.admits_unique h hadmits
  · intro hk
    unfold Token.Lexical at h
    rw [hk] at h
    exact isSome_integer?_of_isDecimal h

/-! ## The tokens of a source text -/

theorem lexical_of_mem_tokenizeFrom {position : Position} {cs : List Char} {token : Token}
    (h : token ∈ (tokenizeFrom position cs).tokens) : token.Lexical := by
  fun_induction tokenizeFrom position cs with
  | case1 => simp at h
  | case2 _ _ _ _ ih => exact ih h
  | case3 => simp at h
  | case4 _ _ _ _ _ _ _ _ _ ih => exact ih h
  | case5 => simp at h
  | case6 position c cs hb rule piece rest hf kind hk text ht ih =>
    rcases List.mem_cons.1 h with rfl | h
    · simpa [Token.Lexical] using admits_of_first? hf hk ht
    · exact ih h

/-- The lexer makes no tokens but those with a text of their kind. -/
theorem lexical_of_mem_tokenize {source : String} {token : Token}
    (h : token ∈ (tokenize source).tokens) : token.Lexical :=
  lexical_of_mem_tokenizeFrom h

end MiniLang
