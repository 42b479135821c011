import MiniLang.Proofs.FaultPlace
/-!
# Texts line by line

A line break between two texts keeps them apart: the tokens of both together are those of the first,
and behind them those of the second, which stand as many lines further down as the first text with
the line break has lines (`tokenize_append_line`).

Two facts make this up.  What is made of a text does not depend on the line where it begins, so its
places move with it (`tokenizeFrom_below`).  And the lexeme before a line break is the one that was
there without it, and so is the number of lines, whatever stands in the literals on the way
(`tokenizeFrom_append_line`).
-/

set_option autoImplicit false

namespace MiniLang

/-! ## Further down -/

/-- The same column, a number of lines further down. -/
def Position.below (p : Position) (k : Nat) : Position := ⟨p.line + k, p.column⟩

/-- The same token, a number of lines further down. -/
def Token.below (t : Token) (k : Nat) : Token := { t with position := t.position.below k }

/-- The same fault, a number of lines further down. -/
def LexicalFault.below (fault : LexicalFault) (k : Nat) : LexicalFault :=
  { fault with position := fault.position.below k }

/-- The same tokens and the same fault, a number of lines further down. -/
def Tokenized.below (tokenized : Tokenized) (k : Nat) : Tokenized :=
  ⟨tokenized.tokens.map (·.below k), tokenized.fault.map (·.below k)⟩

theorem Position.right_below (p : Position) (k n : Nat) :
    (p.below k).right n = (p.right n).below k := rfl

theorem Position.down_below (p : Position) (k n : Nat) :
    (p.below k).down n = (p.down n).below k := by
  simp only [below, down, Position.mk.injEq, and_true]
  omega

theorem Position.down_down (p : Position) (m n : Nat) : (p.down m).down n = p.down (m + n) := by
  simp only [down, Position.mk.injEq, and_true]
  omega

theorem Position.down_eq_below (p : Position) (hp : p.column = 1) (k : Nat) :
    p.down k = p.below k := by
  rw [down, below, hp]

namespace Escape

theorem decode_below (position : Position) (k : Nat) (cs : List Char) :
    decode (position.below k) cs = (decode position cs).mapError (·.below k) := by
  fun_induction decode position cs with
  | case1 => rfl
  | case2 => rfl
  | case3 position d rest hd =>
    rw [decode, if_pos rfl, hd]
    rfl
  | case4 position d rest e hd fault hf ih =>
    rw [decode, if_pos rfl, hd]
    simp only [Position.right_below, ih, hf]
    rfl
  | case5 position d rest e hd inner hi ih =>
    rw [decode, if_pos rfl, hd]
    simp only [Position.right_below, ih, hi]
    rfl
  | case6 position c d rest hc fault hf ih =>
    rw [decode, if_neg hc]
    simp only [Position.right_below, ih, hf]
    rfl
  | case7 position c d rest hc inner hi ih =>
    rw [decode, if_neg hc]
    simp only [Position.right_below, ih, hi]
    rfl

theorem unclosed_below (opening position : Position) (k : Nat) (cs : List Char) :
    unclosed (opening.below k) (position.below k) cs = (unclosed opening position cs).below k := by
  fun_induction unclosed opening position cs with
  | case1 => rfl
  | case2 => rfl
  | case3 position d rest hd =>
    rw [unclosed, if_pos rfl, hd]
    rfl
  | case4 position d rest e hd ih =>
    rw [unclosed, if_pos rfl, hd]
    exact ih
  | case5 position c d rest hc ih =>
    rw [unclosed, if_neg hc]
    exact ih

end Escape

theorem Rule.textOf_below (rule : Rule) (position : Position) (k : Nat) (piece : List Char) :
    rule.textOf (position.below k) piece = (rule.textOf position piece).mapError (·.below k) := by
  cases rule with
  | string =>
    simp only [textOf, Escape.decodeLiteral, Position.right_below, Escape.decode_below]
    cases Escape.decode (position.right 1) piece.tail <;> rfl
  | _ => rfl

theorem unreadable_below (position : Position) (k : Nat) (c : Char) (cs : List Char) :
    unreadable (position.below k) c cs = (unreadable position c cs).below k := by
  unfold unreadable
  split
  · rfl
  · split
    · exact Escape.unclosed_below position (position.right 1) k cs
    · rfl

/-- What is made of a text moves with the line where it begins. -/
theorem tokenizeFrom_below (position : Position) (k : Nat) (cs : List Char) :
    tokenizeFrom (position.below k) cs = (tokenizeFrom position cs).below k := by
  fun_induction tokenizeFrom position cs with
  | case1 =>
    rw [tokenizeFrom]
    rfl
  | case2 position c cs hb ih =>
    rw [tokenizeFrom, if_pos hb]
    exact ih
  | case3 position c cs hb hf =>
    rw [tokenizeFrom_of_first?_eq_none (Bool.eq_false_iff.2 hb) hf, unreadable_below]
    rfl
  | case4 position c cs hb rule piece rest hf hk ih =>
    rw [tokenizeFrom_of_first? (Bool.eq_false_iff.2 hb) hf, hk]
    simp only [Position.down_below, ih]
  | case5 position c cs hb rule piece rest hf kind hk fault ht =>
    rw [tokenizeFrom_of_first? (Bool.eq_false_iff.2 hb) hf, hk, Rule.textOf_below, ht]
    rfl
  | case6 position c cs hb rule piece rest hf kind hk text ht ih =>
    rw [tokenizeFrom_of_first? (Bool.eq_false_iff.2 hb) hf, hk, Rule.textOf_below, ht]
    simp only [Except.mapError, Position.right_below, ih]
    rfl

/-! ## Line breaks outside of literals -/

/-- How many line breaks of a text stand outside of its string literals.  A quote opens a literal,
which goes on to the quote that closes it. -/
def looseBreaks (cs : List Char) : Nat :=
  match cs with
  | [] => 0
  | c :: cs =>
    if c = '"' then
      match _h : splitQuoted cs with
      | some (_, rest) => looseBreaks rest
      | none => 0
    else (if c = '\n' then 1 else 0) + looseBreaks cs
termination_by cs.length
decreasing_by
  · have hlen := congrArg List.length (append_of_splitQuoted _h)
    rw [List.length_append] at hlen
    simp only [List.length_cons]
    omega
  · simp

theorem looseBreaks_nil : looseBreaks [] = 0 := by
  rw [looseBreaks]

theorem looseBreaks_literal {cs piece rest : List Char}
    (h : splitQuoted cs = some (piece, rest)) : looseBreaks ('"' :: cs) = looseBreaks rest := by
  rw [looseBreaks, if_pos rfl]
  split
  · rename_i hs
    rw [hs] at h
    cases h
    rfl
  · rename_i hs
    rw [hs] at h
    cases h

theorem looseBreaks_newline (cs : List Char) : looseBreaks ('\n' :: cs) = 1 + looseBreaks cs := by
  rw [looseBreaks, if_neg (by decide), if_pos rfl]

theorem looseBreaks_plain {c : Char} (cs : List Char) (hq : c ≠ '"') (hn : c ≠ '\n') :
    looseBreaks (c :: cs) = looseBreaks cs := by
  rw [looseBreaks, if_neg hq, if_neg hn, Nat.zero_add]

theorem looseBreaks_newlines {piece : List Char} (h : ∀ c ∈ piece, c = '\n') (rest : List Char) :
    looseBreaks (piece ++ rest) = piece.length + looseBreaks rest := by
  induction piece with
  | nil => rw [List.nil_append, List.length_nil, Nat.zero_add]
  | cons c piece ih =>
    obtain ⟨rfl, hpiece⟩ := List.forall_mem_cons.1 h
    rw [List.cons_append, looseBreaks_newline, ih hpiece, List.length_cons]
    omega

theorem looseBreaks_lexeme {piece : List Char} (h : ∀ c ∈ piece, c ≠ '"' ∧ c ≠ '\n')
    (rest : List Char) : looseBreaks (piece ++ rest) = looseBreaks rest := by
  induction piece with
  | nil => rfl
  | cons c piece ih =>
    obtain ⟨hc, hpiece⟩ := List.forall_mem_cons.1 h
    rw [List.cons_append, looseBreaks_plain _ hc.1 hc.2, ih hpiece]

theorem all_of_isDecimal {text : List Char} (h : isDecimal text = true) :
    text.all (fun c => c = '-' || c.isDigit) = true := by
  have hdigits : ∀ {cs : List Char}, cs.all Char.isDigit = true →
      cs.all (fun c => c = '-' || c.isDigit) = true := by
    intro cs hcs
    rw [List.all_eq_true] at hcs ⊢
    intro c hc
    rw [hcs c hc, Bool.or_true]
  unfold isDecimal at h
  split at h
  · cases h
  · split at h
    · rename_i hc
      rw [Bool.and_eq_true] at h
      rw [List.all_cons, hdigits h.2, hc]
      rfl
    · rw [Bool.and_eq_true] at h
      rw [List.all_cons, hdigits h.2, h.1, Bool.or_true, Bool.true_and]

/-- A lexeme that is no literal has neither quotes nor line breaks in it. -/
theorem ne_of_accepts {rule : Rule} {text : List Char} (h : rule.accepts text = true)
    (hs : rule ≠ .string) (hn : rule ≠ .newlines) : ∀ c ∈ text, c ≠ '"' ∧ c ≠ '\n' := by
  have hclass : ∀ p : Char → Bool, p '"' = false → p '\n' = false → text.all p = true →
      ∀ c ∈ text, c ≠ '"' ∧ c ≠ '\n' := by
    intro p hq hb hall c hc
    have hp := List.all_eq_true.1 hall c hc
    constructor
    · rintro rfl
      rw [hq] at hp
      cases hp
    · rintro rfl
      rw [hb] at hp
      cases hp
  cases rule with
  | keyword =>
    obtain ⟨word, hw, hword⟩ := List.any_eq_true.1 h
    exact hclass isNamePart (by decide) (by decide)
      (of_decide_eq_true hword ▸ all_isNamePart_of_mem hw)
  | identifier =>
    obtain ⟨c, cs, rfl, hc, hcs⟩ := exists_cons_of_accepts_identifier h
    exact hclass isNamePart (by decide) (by decide) (by simp [isNamePart, hc, hcs])
  | integer =>
    exact hclass (fun c => c = '-' || c.isDigit) (by decide) (by decide) (all_of_isDecimal h)
  | newlines => exact absurd rfl hn
  | string => exact absurd rfl hs
  | comparison =>
    obtain ⟨c, rfl, hc⟩ := exists_pair_of_accepts_comparison h
    exact hclass isComparisonStart (by decide) (by decide) (by simp [hc]; decide)
  | operation =>
    obtain ⟨c, rfl⟩ := exists_singleton_of_accepts h (by simp)
    exact hclass isOperation (by decide) (by decide) (by simpa [Rule.accepts] using h)
  | special =>
    obtain ⟨c, rfl⟩ := exists_singleton_of_accepts h (by simp)
    exact hclass isSpecial (by decide) (by decide) (by simpa [Rule.accepts] using h)
  | assign =>
    obtain ⟨c, rfl⟩ := exists_singleton_of_accepts h (by simp)
    exact hclass (fun c => c = '=') (by decide) (by decide) (by simpa [Rule.accepts] using h)

/-! ## The seam -/

/-- No two rules make tokens of one kind. -/
theorem Rule.kind?_inj {r r' : Rule} {kind : Kind} (h : r.kind? = some kind)
    (h' : r'.kind? = some kind) : r = r' := by
  cases r <;> cases h <;> cases r' <;> cases h' <;> rfl

/-- A lexeme that makes a token is not changed by a line break at the end of the text. -/
theorem first?_append_line {rule : Rule} {kind : Kind} {position : Position}
    {piece rest text : List Char} (h : Rule.first? (piece ++ rest) = some (rule, (piece, rest)))
    (hk : rule.kind? = some kind) (ht : rule.textOf position piece = .ok text) (more : List Char) :
    Rule.first? (piece ++ (rest ++ '\n' :: more)) = some (rule, (piece, rest ++ '\n' :: more)) := by
  cases rest with
  | cons c rest => exact first?_of_head?_eq h rfl
  | nil =>
    by_cases hs : rule = .string
    · -- a literal ends at its quote, whatever follows
      subst hs
      have haccepts := accepts_of_split? (Rule.split?_of_first? h)
      match piece, haccepts with
      | c :: cs, haccepts =>
        rw [Rule.accepts, Bool.and_eq_true, decide_eq_true_eq] at haccepts
        obtain ⟨rfl, hquoted⟩ := haccepts
        exact first?_of_quote (splitQuoted_append hquoted _)
    · have hadmits := admits_of_first? h hk ht
      obtain rfl : piece = text := by
        cases rule with
        | string => exact absurd rfl hs
        | _ => cases ht; rfl
      have hkind : kind ≠ .string := by
        rintro rfl
        exact hs (Rule.kind?_inj hk rfl)
      have hapart : Apart ('\n' :: more) := by simp [Apart, isLayout]
      obtain ⟨rule', hfirst, hk', _⟩ := lexesTo_of_written hadmits (.plain hkind) hapart
      rwa [Rule.kind?_inj hk' hk] at hfirst

/-- A run of line breaks begins as many lines. -/
theorem tokenizeFrom_newlines {piece : List Char} (h : ∀ c ∈ piece, c = '\n') (hne : piece ≠ [])
    (position : Position) (rest : List Char) :
    tokenizeFrom position (piece ++ rest) = tokenizeFrom (position.down piece.length) rest := by
  induction piece generalizing position with
  | nil => exact absurd rfl hne
  | cons c piece ih =>
    obtain ⟨rfl, hpiece⟩ := List.forall_mem_cons.1 h
    rw [List.cons_append, tokenizeFrom_newline]
    by_cases hp : piece = []
    · subst hp
      rfl
    · rw [ih hpiece hp, Position.down_down, List.length_cons, Nat.add_comm]

/-- A lexeme that makes a token takes no line break along that stands outside of a literal. -/
theorem looseBreaks_of_first? {rule : Rule} {kind : Kind} {cs piece rest : List Char}
    (h : Rule.first? cs = some (rule, (piece, rest))) (hk : rule.kind? = some kind) :
    looseBreaks cs = looseBreaks rest := by
  have hs := Rule.split?_of_first? h
  have happend := (Rule.append_of_split? hs).1
  by_cases hstring : rule = .string
  · subst hstring
    have haccepts := accepts_of_split? hs
    match piece, haccepts with
    | c :: body, haccepts =>
      rw [Rule.accepts, Bool.and_eq_true, decide_eq_true_eq] at haccepts
      obtain ⟨rfl, hquoted⟩ := haccepts
      rw [← happend, List.cons_append]
      exact looseBreaks_literal (splitQuoted_append hquoted rest)
  · have hnewlines : rule ≠ .newlines := by
      rintro rfl
      cases hk
    rw [← happend]
    exact looseBreaks_lexeme (ne_of_accepts (accepts_of_split? hs) hstring hnewlines) rest

/-- A line break behind a text without a fault begins another text. -/
theorem tokenizeFrom_append_line {position : Position} {cs : List Char}
    (h : (tokenizeFrom position cs).fault = none) (more : List Char) :
    let behind := tokenizeFrom (position.down (looseBreaks cs + 1)) more
    tokenizeFrom position (cs ++ '\n' :: more) =
      ⟨(tokenizeFrom position cs).tokens ++ behind.tokens, behind.fault⟩ := by
  fun_induction tokenizeFrom position cs with
  | case1 position =>
    rw [List.nil_append, tokenizeFrom_newline, looseBreaks_nil]
    rfl
  | case2 position c cs hb ih =>
    have hc : c ≠ '"' ∧ c ≠ '\n' := by
      constructor <;> rintro rfl <;> exact absurd hb (by decide)
    rw [List.cons_append, tokenizeFrom, if_pos hb, looseBreaks_plain _ hc.1 hc.2]
    exact ih h
  | case3 => cases h
  | case4 position c cs hb rule piece rest hf hk ih =>
    have hs := Rule.split?_of_first? hf
    have hnewlines := eq_newline_of_split? hs hk
    obtain ⟨happend, hne⟩ := Rule.append_of_split? hs
    have hread := tokenizeFrom_newlines hnewlines hne position (rest ++ '\n' :: more)
    rw [← List.append_assoc, happend] at hread
    rw [hread, ih h, ← happend, looseBreaks_newlines hnewlines, Position.down_down, Nat.add_assoc]
  | case5 => cases h
  | case6 position c cs hb rule piece rest hf kind hk text ht ih =>
    have hs := Rule.split?_of_first? hf
    obtain ⟨happend, hne⟩ := Rule.append_of_split? hs
    have hfirst := first?_append_line (happend ▸ hf) hk ht more
    rw [← List.append_assoc, happend, List.cons_append] at hfirst
    rw [List.cons_append, tokenizeFrom_of_first? (Bool.eq_false_iff.2 hb) hfirst, hk]
    simp only [ht, ih h, looseBreaks_of_first? hf hk]
    rfl

theorem tokenize_append (s₁ s₂ : String) (h : (tokenize s₁).fault = none) :
    let behind := tokenizeFrom (Position.start.down (looseBreaks s₁.toList + 1)) s₂.toList
    tokenize (s₁ ++ "\n" ++ s₂) = ⟨(tokenize s₁).tokens ++ behind.tokens, behind.fault⟩ := by
  have hlist : (s₁ ++ "\n" ++ s₂).toList = s₁.toList ++ '\n' :: s₂.toList := by
    simp
  rw [tokenize, hlist]
  exact tokenizeFrom_append_line h s₂.toList

theorem tokenizeFrom_down (s : String) (k : Nat) :
    tokenizeFrom (Position.start.down k) s.toList = (tokenize s).below k := by
  rw [Position.down_eq_below _ rfl, tokenizeFrom_below]
  rfl

/-- The tokens of two texts with a line break between them are those of the first text, and behind
them those of the second, as many lines further down as there are line breaks outside of the
literals of the first text, and one.  What cannot be read of the second text is the same fault, as
many lines further down. -/
theorem tokenize_append_line {s₁ s₂ : String} (h : (tokenize s₁).fault = none) :
    let behind := (tokenize s₂).below (looseBreaks s₁.toList + 1)
    tokenize (s₁ ++ "\n" ++ s₂) = ⟨(tokenize s₁).tokens ++ behind.tokens, behind.fault⟩ := by
  simp only [← tokenizeFrom_down]
  exact tokenize_append s₁ s₂ h

/-- The line break in the literal starts no line, and the three between `"a\nb"` and `y` start
three. -/
theorem tokenize_append_line_of_literal :
    (tokenize "x\n\"a\nb\"\n").fault = none ∧ looseBreaks "x\n\"a\nb\"\n".toList = 2 ∧
      tokenize ("x\n\"a\nb\"\n" ++ "\n" ++ "\ny !") =
        ⟨[⟨.identifier, "x", ⟨1, 1⟩⟩, ⟨.string, "\"a\nb\"", ⟨2, 1⟩⟩, ⟨.identifier, "y", ⟨5, 1⟩⟩],
          some ⟨.unknownCharacter "!", ⟨5, 3⟩⟩⟩ := by
  have h : (tokenize "x\n\"a\nb\"\n").fault = none := by decide +kernel
  exact ⟨h, by decide +kernel, (tokenize_append_line h).trans (by decide +kernel)⟩

end MiniLang
