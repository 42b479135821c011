import MiniLang.Proofs.Layout
/-!
# Longest lexemes

What the lexemes of a rule are is a matter of their own text: `Rule.accepts`.  A keyword is one of
five words there, whatever follows it.  The first rule that applies at the front of a text takes the
longest of all lexemes that the text begins with, and no earlier rule has this lexeme
(`first?_eq_longest?`).  So the lexer does what one does that always looks for the longest lexeme
and lets the order of the rules decide between equals (`tokenize_eq_longest`).
-/

set_option autoImplicit false

namespace MiniLang

/-! ## Lexemes -/

/-- Whether a text can stand behind the quote that opens a string literal: pairs of a backslash and
any character, other characters but quotes and backslashes, and a quote at the end. -/
def isQuotedRest : List Char → Bool
  | [] => false
  | [c] => c = '"'
  | c :: d :: cs => if c = '\\' then isQuotedRest cs else c ≠ '"' && isQuotedRest (d :: cs)

/-- Whether a text is a lexeme of a rule. -/
def Rule.accepts (rule : Rule) (text : List Char) : Bool :=
  match rule, text with
  | .keyword, text => isKeyword text
  | .identifier, c :: cs => isNameStart c && cs.all isNamePart
  | .integer, text => isDecimal text
  | .newlines, c :: cs => c = '\n' && cs.all (· = '\n')
  | .string, c :: cs => c = '"' && isQuotedRest cs
  | .comparison, [c, d] => isComparisonStart c && d = '='
  | .operation, [c] => isOperation c
  | .special, [c] => isSpecial c
  | .assign, [c] => c = '='
  | _, _ => false

theorem exists_cons_of_accepts_identifier {text : List Char}
    (h : Rule.identifier.accepts text = true) :
    ∃ c cs, text = c :: cs ∧ isNameStart c = true ∧ cs.all isNamePart = true := by
  cases text with
  | nil => cases h
  | cons c cs => exact ⟨c, cs, rfl, (Bool.and_eq_true _ _).mp h⟩

theorem exists_pair_of_accepts_comparison {text : List Char}
    (h : Rule.comparison.accepts text = true) :
    ∃ c, text = [c, '='] ∧ isComparisonStart c = true := by
  rcases text with _ | ⟨c, _ | ⟨d, _ | ⟨e, es⟩⟩⟩
  · cases h
  · cases h
  · rw [Rule.accepts, Bool.and_eq_true, decide_eq_true_eq] at h
    obtain ⟨hc, rfl⟩ := h
    exact ⟨c, rfl, hc⟩
  · cases h

/-- The rules for single characters have no longer lexemes. -/
theorem exists_singleton_of_accepts {rule : Rule} {text : List Char}
    (h : rule.accepts text = true) (hrule : rule ∈ [Rule.operation, .special, .assign]) :
    ∃ c, text = [c] := by
  simp only [List.mem_cons, List.not_mem_nil, or_false] at hrule
  rcases text with _ | ⟨c, _ | ⟨d, ds⟩⟩
  · rcases hrule with rfl | rfl | rfl <;> cases h
  · exact ⟨c, rfl⟩
  · rcases hrule with rfl | rfl | rfl <;> cases h

/-- The longest lexeme among the first `n` characters of a text, of the first rule that has it. -/
def longestWithin (cs : List Char) : Nat → Option (Rule × Split)
  | 0 => none
  | n + 1 =>
    match Rule.order.find? fun rule => rule.accepts (cs.take (n + 1)) with
    | some rule => some (rule, (cs.take (n + 1), cs.drop (n + 1)))
    | none => longestWithin cs n

/-- The longest lexeme at the front of a text, with the first rule that has it and the text that is
left. -/
def longest? (cs : List Char) : Option (Rule × Split) := longestWithin cs cs.length

theorem length_of_longestWithin {cs piece rest : List Char} {n : Nat} {rule : Rule}
    (hne : cs ≠ []) (h : longestWithin cs n = some (rule, (piece, rest))) :
    rest.length < cs.length := by
  have hpos : 0 < cs.length := List.length_pos_iff.2 hne
  induction n with
  | zero => cases h
  | succ n ih =>
    rw [longestWithin] at h
    split at h
    · cases h
      rw [List.length_drop]
      omega
    · exact ih h

/-- The tokens of the text that begins at `position`, if the longest lexeme is taken everywhere. -/
def tokenizeLongestFrom (position : Position) : List Char → Tokenized
  | [] => ⟨[], none⟩
  | c :: cs =>
    if isBlank c then tokenizeLongestFrom (position.right 1) cs
    else
      match _h : longest? (c :: cs) with
      | none => ⟨[], some (unreadable position c cs)⟩
      | some (rule, (piece, rest)) =>
        match rule.kind? with
        | none => tokenizeLongestFrom (position.down piece.length) rest
        | some kind =>
          match rule.textOf position piece with
          | .error fault => ⟨[], some fault⟩
          | .ok text =>
            .cons ⟨kind, String.ofList text, position⟩
              (tokenizeLongestFrom (position.right piece.length) rest)
termination_by cs => cs.length
decreasing_by
  · simp
  · exact length_of_longestWithin (List.cons_ne_nil c cs) _h
  · exact length_of_longestWithin (List.cons_ne_nil c cs) _h

/-- The tokens of a source text, if the longest lexeme is taken everywhere. -/
def tokenizeLongest (source : String) : Tokenized := tokenizeLongestFrom .start source.toList

/-! ## A rule takes a lexeme of its own -/

theorem isQuotedRest_of_splitQuoted {cs piece rest : List Char}
    (h : splitQuoted cs = some (piece, rest)) : isQuotedRest piece = true := by
  fun_induction splitQuoted cs generalizing piece rest with
  | case1 => cases h
  | case2 => cases h; rfl
  | case3 => cases h
  | case4 => cases h; rfl
  | case5 d more piece₁ left hs _ ih =>
    cases h
    rw [isQuotedRest, if_pos rfl]
    exact ih hs
  | case6 => cases h
  | case7 c d more hq hb piece₁ left hs ih =>
    cases h
    cases piece₁ with
    | nil => exact absurd hs splitQuoted_ne_nil
    | cons e es => simp [isQuotedRest, hb, hq, ih hs]
  | case8 => cases h

/-- What a rule takes off a text is a lexeme of the rule. -/
theorem accepts_of_split? {rule : Rule} {cs piece rest : List Char}
    (h : rule.split? cs = some (piece, rest)) : rule.accepts piece = true := by
  cases rule with
  | keyword =>
    obtain ⟨word, hw, hs⟩ := List.exists_of_findSome?_eq_some h
    obtain ⟨_, rfl⟩ := append_of_splitWholeWord hs
    exact List.any_eq_true.2 ⟨word, hw, by simp⟩
  | identifier =>
    obtain ⟨c, ds, rfl, hc, hds⟩ := all_of_splitRun h
    simp [Rule.accepts, hc, hds]
  | integer => exact isDecimal_of_splitInteger h
  | newlines =>
    obtain ⟨c, ds, rfl, hc, hds⟩ := all_of_splitRun h
    rw [Rule.accepts, hc, hds]
    rfl
  | string =>
    cases cs with
    | nil => cases h
    | cons c cs =>
      simp only [Rule.split?, splitString] at h
      split at h
      · rename_i hc
        split at h
        · rename_i hs
          cases h
          simp [Rule.accepts, hc, isQuotedRest_of_splitQuoted hs]
        · cases h
      · cases h
  | comparison =>
    simp only [Rule.split?, splitComparison] at h
    split at h
    · split at h
      · rename_i hc
        cases h
        simp [Rule.accepts, hc.1, hc.2]
      · cases h
    · cases h
  | operation =>
    obtain ⟨c, rfl, hc⟩ := exists_of_splitOne h
    exact hc
  | special =>
    obtain ⟨c, rfl, hc⟩ := exists_of_splitOne h
    exact hc
  | assign =>
    obtain ⟨c, rfl, hc⟩ := exists_of_splitOne h
    exact hc

/-! ## A rule applies where one of its lexemes stands -/

/-- A run goes on as far as it can. -/
theorem exists_splitRun_append {first more : Char → Bool} {c : Char} {cs : List Char}
    (hc : first c = true) (hcs : cs.all more = true) (rest : List Char) :
    ∃ further left, splitRun first more (c :: cs ++ rest) = some (c :: cs ++ further, left) := by
  refine ⟨rest.takeWhile more, (cs ++ rest).dropWhile more, ?_⟩
  rw [List.cons_append, splitRun, if_pos hc,
    List.takeWhile_append_of_pos (List.all_eq_true.1 hcs), List.cons_append]

theorem splitQuoted_append {cs : List Char} (h : isQuotedRest cs = true) (rest : List Char) :
    splitQuoted (cs ++ rest) = some (cs, rest) := by
  fun_induction isQuotedRest cs with
  | case1 => cases h
  | case2 c =>
    rw [decide_eq_true_eq] at h
    subst h
    cases rest <;> rfl
  | case3 d cs ih =>
    rw [List.cons_append, List.cons_append, splitQuoted, if_neg (by decide), if_pos rfl, ih h]
  | case4 c d cs hb ih =>
    rw [Bool.and_eq_true, decide_eq_true_eq] at h
    rw [List.cons_append, List.cons_append, splitQuoted, if_neg h.1, if_neg hb,
      ← List.cons_append, ih h.2]

/-- A rule other than that for keywords takes at least as much as any of its lexemes at the front of
a text. -/
theorem exists_split?_of_ne {rule : Rule} {text : List Char} (hne : rule ≠ .keyword)
    (h : rule.accepts text = true) (rest : List Char) :
    ∃ further left, rule.split? (text ++ rest) = some (text ++ further, left) := by
  -- a lexeme of fixed extent
  have hexact : rule.split? (text ++ rest) = some (text, rest) →
      ∃ further left, rule.split? (text ++ rest) = some (text ++ further, left) :=
    fun hs => ⟨[], rest, by rw [hs, List.append_nil]⟩
  unfold Rule.accepts at h
  split at h
  · exact absurd rfl hne
  · rw [Bool.and_eq_true] at h
    exact exists_splitRun_append h.1 h.2 rest
  · unfold isDecimal at h
    split at h
    · cases h
    · rename_i c digits
      split at h
      · rename_i hc
        cases digits with
        | nil => cases h
        | cons d ds =>
          simp only [List.isEmpty_cons, Bool.not_false, Bool.true_and, List.all_cons,
            Bool.and_eq_true] at h
          obtain ⟨further, left, hs⟩ := exists_splitRun_append h.1 h.2 rest
          refine ⟨further, left, ?_⟩
          rw [Rule.split?, List.cons_append, splitInteger, if_pos hc, hs]
          rfl
      · rename_i hc
        rw [Bool.and_eq_true] at h
        obtain ⟨further, left, hs⟩ := exists_splitRun_append h.1 h.2 rest
        refine ⟨further, left, ?_⟩
        rw [Rule.split?, List.cons_append, splitInteger, if_neg hc, ← List.cons_append, hs]
  · rw [Bool.and_eq_true] at h
    exact @exists_splitRun_append (· = '\n') (· = '\n') _ _ h.1 h.2 rest
  · rw [Bool.and_eq_true, decide_eq_true_eq] at h
    refine hexact ?_
    rw [List.cons_append, Rule.split?, splitString, if_pos h.1, splitQuoted_append h.2]
  · rw [Bool.and_eq_true, decide_eq_true_eq] at h
    exact hexact (if_pos h)
  · exact hexact (if_pos h)
  · exact hexact (if_pos h)
  · exact hexact (if_pos h)
  · cases h

/-- Where a text begins with a keyword, the rule for keywords takes it, or it is the beginning of a
longer name. -/
theorem exists_split?_of_isKeyword {text : List Char} (h : isKeyword text = true)
    (rest : List Char) :
    Rule.keyword.split? (text ++ rest) = some (text, rest) ∨
      ∃ d further left, Rule.identifier.split? (text ++ rest) =
        some (text ++ d :: further, left) := by
  by_cases hr : ∀ c ∈ rest.head?, isNamePart c = false
  · exact .inl (split?_keyword_append h hr)
  · right
    obtain ⟨word, hw, hword⟩ := List.any_eq_true.1 h
    have hparts : text.all isNamePart = true :=
      of_decide_eq_true hword ▸ all_isNamePart_of_mem hw
    obtain ⟨c, cs, rfl, hc⟩ := exists_isNameStart_of_isKeyword h
    rw [List.all_cons, Bool.and_eq_true] at hparts
    cases rest with
    | nil => exact absurd (by simp) hr
    | cons d rest =>
      have hd : isNamePart d = true := by simpa using hr
      have hall : (cs ++ [d]).all isNamePart = true := by simp [hparts.2, hd]
      obtain ⟨further, left, hs⟩ := exists_splitRun_append hc hall rest
      exact ⟨d, further, left, by simpa [Rule.split?] using hs⟩

/-- Where a lexeme stands at the front of a text, its rule applies, or another one that takes more.
What is taken begins with the lexeme. -/
theorem exists_split?_of_accepts {rule : Rule} {text : List Char} (h : rule.accepts text = true)
    (rest : List Char) :
    ∃ r further left, r.split? (text ++ rest) = some (text ++ further, left) ∧
      (r = rule ∨ further ≠ []) := by
  by_cases hkeyword : rule = .keyword
  · subst hkeyword
    rcases exists_split?_of_isKeyword h rest with hs | ⟨d, further, left, hs⟩
    · exact ⟨.keyword, [], rest, by rw [hs, List.append_nil], .inl rfl⟩
    · exact ⟨.identifier, d :: further, left, hs, .inr (List.cons_ne_nil d further)⟩
  · obtain ⟨further, left, hs⟩ := exists_split?_of_ne hkeyword h rest
    exact ⟨rule, further, left, hs, .inl rfl⟩

/-! ## The first rule takes the longest lexeme -/

/-- The rule whose lexemes of more than one character may begin with a character, the rule for names
where that for keywords is another. -/
def Rule.ofFirst (c : Char) : Rule :=
  if isNameStart c then .identifier
  else if c.isDigit || c = '-' then .integer
  else if c = '\n' then .newlines
  else if c = '"' then .string
  else .comparison

theorem ofFirst_of_accepts {rule : Rule} {c : Char} {cs : List Char}
    (h : rule.accepts (c :: cs) = true)
    (hrule : rule ∈ [Rule.identifier, .integer, .newlines, .string, .comparison]) :
    Rule.ofFirst c = rule := by
  simp only [List.mem_cons, List.not_mem_nil, or_false] at hrule
  rcases hrule with rfl | rfl | rfl | rfl | rfl
  · rw [Rule.accepts, Bool.and_eq_true] at h
    rw [Rule.ofFirst, if_pos h.1]
  · simp only [Rule.accepts, isDecimal] at h
    split at h
    · rename_i hc
      subst hc
      rfl
    · rw [Bool.and_eq_true] at h
      rw [Rule.ofFirst, isNameStart_eq_false_of_isDigit h.1, h.1]
      rfl
  · simp only [Rule.accepts, Bool.and_eq_true, decide_eq_true_eq] at h
    obtain ⟨rfl, _⟩ := h
    rfl
  · simp only [Rule.accepts, Bool.and_eq_true, decide_eq_true_eq] at h
    obtain ⟨rfl, _⟩ := h
    rfl
  · obtain ⟨c', htext, hc⟩ := exists_pair_of_accepts_comparison h
    obtain ⟨rfl, _⟩ := List.cons.inj htext
    simp only [isComparisonStart, List.contains_eq_mem, List.mem_cons, List.not_mem_nil,
      or_false, decide_eq_true_eq] at hc
    rcases hc with rfl | rfl | rfl | rfl <;> rfl

theorem ofFirst_of_split? {rule : Rule} {c : Char} {cs : List Char} {split : Split}
    (h : rule.split? (c :: cs) = some split)
    (hrule : rule ∈ [Rule.identifier, .integer, .newlines, .string, .comparison]) :
    Rule.ofFirst c = rule := by
  obtain ⟨piece, rest⟩ := split
  obtain ⟨happend, hne⟩ := Rule.append_of_split? h
  have haccepts := accepts_of_split? h
  cases piece with
  | nil => exact absurd rfl hne
  | cons d ds =>
    obtain ⟨rfl, _⟩ := List.cons.inj happend
    exact ofFirst_of_accepts haccepts hrule

/-- Where a rule for lexemes of several characters applies, it is the first to apply, but for the
rule for names. -/
theorem first?_of_split? {rule : Rule} {c : Char} {cs : List Char} {split : Split}
    (hrule : rule ∈ [Rule.integer, .newlines, .string, .comparison])
    (h : rule.split? (c :: cs) = some split) :
    Rule.first? (c :: cs) = some (rule, split) := by
  have hfirst := ofFirst_of_split? h (List.mem_cons_of_mem _ hrule)
  have hother : ∀ r ∈ [Rule.identifier, .integer, .newlines, .string, .comparison], r ≠ rule →
      r.split? (c :: cs) = none := by
    intro r hr hne
    cases hs : r.split? (c :: cs) with
    | none => rfl
    | some s => exact absurd ((ofFirst_of_split? hs hr).symm.trans hfirst) hne
  have hname : isNameStart c = false := by
    cases hn : isNameStart c with
    | false => rfl
    | true =>
      rw [Rule.ofFirst, if_pos hn] at hfirst
      subst hfirst
      simp at hrule
  have hkeyword := (split?_word_eq_none cs hname).1
  simp only [List.mem_cons, List.not_mem_nil, or_false] at hrule
  rcases hrule with rfl | rfl | rfl | rfl <;>
    simp [Rule.first?, Rule.order, hkeyword, hother, h]

/-- Where a name begins, the first rule that applies takes all of it, be it a keyword or not. -/
theorem first?_of_name {cs piece rest : List Char}
    (h : Rule.identifier.split? cs = some (piece, rest)) :
    ∃ rule, Rule.first? cs = some (rule, (piece, rest)) := by
  cases hkeyword : Rule.keyword.split? cs with
  | none =>
    exact ⟨.identifier, Rule.first?_eq_some [.keyword] rfl (List.forall_mem_singleton.2 hkeyword) h⟩
  | some split =>
    obtain ⟨word, hw, hs⟩ := List.exists_of_findSome?_eq_some hkeyword
    have hpiece : piece.all isNamePart = true := by
      obtain ⟨c, ds, rfl, hc, hds⟩ := all_of_splitRun h
      simp [isNamePart, hc, hds]
    have hends := head?_of_splitRun h
    rw [← (append_of_splitRun h).1] at hs hkeyword ⊢
    have hword := eq_of_splitWholeWord (all_isNamePart_of_mem hw) hpiece hends hs
    rw [hword, splitWholeWord_append piece hends] at hs
    cases hs
    exact ⟨.keyword, Rule.first?_eq_some [] rfl (by simp) hkeyword⟩

/-- No rule takes more than the first one that applies. -/
theorem length_le_of_split? {rule r : Rule} {cs piece rest p left : List Char}
    (h : Rule.first? cs = some (rule, (piece, rest))) (hr : r.split? cs = some (p, left)) :
    p.length ≤ piece.length := by
  -- where the rule is the first to apply, the two pieces are the same
  have hsame : ∀ {r' : Rule}, Rule.first? cs = some (r', (p, left)) → p.length ≤ piece.length := by
    intro r' hr'
    rw [h] at hr'
    cases hr'
    exact Nat.le_refl _
  -- a mark takes no more than any other piece
  have hmark : ∀ q : Char → Bool, splitOne q cs = some (p, left) → p.length ≤ piece.length := by
    intro q hq
    obtain ⟨c, rfl, _⟩ := exists_of_splitOne hq
    exact List.length_pos_iff.2 (Rule.append_of_split? (Rule.split?_of_first? h)).2
  cases cs with
  | nil => cases r <;> cases hr
  | cons c cs =>
    cases r with
    | keyword => exact hsame (Rule.first?_eq_some [] rfl (by simp) hr)
    | identifier =>
      obtain ⟨r', hr'⟩ := first?_of_name hr
      exact hsame hr'
    | integer => exact hsame (first?_of_split? (by simp) hr)
    | newlines => exact hsame (first?_of_split? (by simp) hr)
    | string => exact hsame (first?_of_split? (by simp) hr)
    | comparison => exact hsame (first?_of_split? (by simp) hr)
    | operation => exact hmark isOperation hr
    | special => exact hmark isSpecial hr
    | assign => exact hmark (· = '=') hr

/-- No lexeme at the front of a text is longer than what the first rule that applies takes. -/
theorem length_le_of_accepts {rule r : Rule} {cs piece rest p : List Char}
    (h : Rule.first? cs = some (rule, (piece, rest))) (hp : p <+: cs) (hr : r.accepts p = true) :
    p.length ≤ piece.length := by
  obtain ⟨more, rfl⟩ := hp
  obtain ⟨r', further, left, hs, _⟩ := exists_split?_of_accepts hr more
  have hle := length_le_of_split? h hs
  rw [List.length_append] at hle
  omega

/-- Of the rules that have the lexeme that is taken, the one that takes it is the first. -/
theorem find?_accepts_of_first? {rule : Rule} {cs piece rest : List Char}
    (h : Rule.first? cs = some (rule, (piece, rest))) :
    (Rule.order.find? fun r => r.accepts piece) = some rule := by
  have hs := Rule.split?_of_first? h
  obtain ⟨earlier, r, later, horder, hr, hnone⟩ := List.findSome?_eq_some_iff.1 h
  obtain rfl : r = rule := by
    obtain ⟨split, _, heq⟩ := Option.map_eq_some_iff.1 hr
    cases heq
    rfl
  refine List.find?_eq_some_iff_append.2 ⟨accepts_of_split? hs, earlier, later, horder, ?_⟩
  intro q hq
  rw [Bool.not_eq_true', Bool.eq_false_iff]
  intro haccepts
  obtain ⟨r', further, left, hs', hor⟩ := exists_split?_of_accepts haccepts rest
  rw [(Rule.append_of_split? hs).1] at hs'
  rcases hor with rfl | hne
  · -- the earlier rule would apply
    rw [Option.map_eq_none_iff.1 (hnone r' hq)] at hs'
    cases hs'
  · -- more would be taken
    have hle := length_le_of_split? h hs'
    have hpos : 0 < further.length := List.length_pos_iff.2 hne
    rw [List.length_append] at hle
    omega

theorem mem_order (rule : Rule) : rule ∈ Rule.order := by
  cases rule <;> decide

/-- Where no rule applies, no lexeme begins. -/
theorem accepts_eq_false_of_first? {cs : List Char} (h : Rule.first? cs = none) {r : Rule}
    {p : List Char} (hp : p <+: cs) : r.accepts p = false := by
  obtain ⟨more, rfl⟩ := hp
  rw [Bool.eq_false_iff]
  intro haccepts
  obtain ⟨r', further, left, hs, _⟩ := exists_split?_of_accepts haccepts more
  have hnone := List.findSome?_eq_none_iff.1 h r' (mem_order r')
  rw [hs] at hnone
  cases hnone

/-! ## The longest lexeme -/

/-- The longest lexeme is found if it is among the characters that are looked at. -/
theorem longestWithin_eq_some {cs piece rest : List Char} {rule : Rule} {n : Nat}
    (happend : piece ++ rest = cs) (hne : piece ≠ []) (hn : piece.length ≤ n) (hle : n ≤ cs.length)
    (hfirst : (Rule.order.find? fun r => r.accepts piece) = some rule)
    (hlongest : ∀ (r : Rule) (p : List Char), p <+: cs → r.accepts p = true →
      p.length ≤ piece.length) :
    longestWithin cs n = some (rule, (piece, rest)) := by
  have hpos : 0 < piece.length := List.length_pos_iff.2 hne
  induction n with
  | zero => omega
  | succ n ih =>
    rw [longestWithin]
    by_cases heq : n + 1 = piece.length
    · rw [heq, ← happend, List.take_left, List.drop_left, hfirst]
    · have hnone : (Rule.order.find? fun r => r.accepts (cs.take (n + 1))) = none := by
        refine List.find?_eq_none.2 fun r _ hr => ?_
        have := hlongest r _ (List.take_prefix (n + 1) cs) hr
        rw [List.length_take] at this
        omega
      rw [hnone]
      exact ih (by omega) (by omega)

theorem longestWithin_eq_none {cs : List Char}
    (h : ∀ (r : Rule) (p : List Char), p <+: cs → r.accepts p = false) (n : Nat) :
    longestWithin cs n = none := by
  induction n with
  | zero => rfl
  | succ n ih =>
    have hnone : (Rule.order.find? fun r => r.accepts (cs.take (n + 1))) = none := by
      refine List.find?_eq_none.2 fun r _ hr => ?_
      rw [h r _ (List.take_prefix (n + 1) cs)] at hr
      cases hr
    rw [longestWithin, hnone]
    exact ih

/-- The first rule that applies takes the longest lexeme. -/
theorem first?_eq_longest? (cs : List Char) : Rule.first? cs = longest? cs := by
  rw [longest?]
  cases h : Rule.first? cs with
  | none => exact (longestWithin_eq_none (fun r p hp => accepts_eq_false_of_first? h hp) _).symm
  | some found =>
    obtain ⟨rule, piece, rest⟩ := found
    obtain ⟨happend, hne⟩ := Rule.append_of_split? (Rule.split?_of_first? h)
    refine (longestWithin_eq_some happend hne ?_ (Nat.le_refl _) (find?_accepts_of_first? h)
      fun r p hp hr => length_le_of_accepts h hp hr).symm
    rw [← happend, List.length_append]
    exact Nat.le_add_right _ _

/-- Taking the first rule that applies and taking the longest lexeme make the same tokens. -/
theorem tokenizeFrom_eq_longest (position : Position) (cs : List Char) :
    tokenizeFrom position cs = tokenizeLongestFrom position cs := by
  fun_induction tokenizeLongestFrom position cs with
  | case1 => rw [tokenizeFrom]
  | case2 position c cs hb ih => rw [tokenizeFrom, if_pos hb, ih]
  | case3 position c cs hb h =>
    exact tokenizeFrom_of_first?_eq_none (by simpa using hb) ((first?_eq_longest? _).trans h)
  | case4 position c cs hb rule piece rest h hk ih =>
    rw [tokenizeFrom_of_first? (by simpa using hb) ((first?_eq_longest? _).trans h), hk]
    exact ih
  | case5 position c cs hb rule piece rest h kind hk fault ht =>
    rw [tokenizeFrom_of_first? (by simpa using hb) ((first?_eq_longest? _).trans h), hk]
    simp only [ht]
  | case6 position c cs hb rule piece rest h kind hk text ht ih =>
    rw [tokenizeFrom_of_first? (by simpa using hb) ((first?_eq_longest? _).trans h), hk]
    simp only [ht, ih]

/-- Every rule takes lexemes of its own.  The first rule that applies takes the longest lexeme at
the front of the text, and it is the first rule that has this lexeme; where none applies, no lexeme
begins.  So a source text has the tokens, the places and the fault that it has if the longest lexeme
is taken everywhere, whatever follows it. -/
theorem tokenize_eq_longest :
    (∀ (rule : Rule) (cs piece rest : List Char), rule.split? cs = some (piece, rest) →
      rule.accepts piece = true) ∧
    (∀ (rule : Rule) (cs piece rest : List Char), Rule.first? cs = some (rule, (piece, rest)) →
      piece ++ rest = cs ∧ (Rule.order.find? fun r => r.accepts piece) = some rule ∧
        ∀ (r : Rule) (p : List Char), p <+: cs → r.accepts p = true →
          p.length ≤ piece.length) ∧
    (∀ cs : List Char, Rule.first? cs = none →
      ∀ (r : Rule) (p : List Char), p <+: cs → r.accepts p = false) ∧
    ∀ source : String, tokenize source = tokenizeLongest source := by
  refine ⟨fun rule cs piece rest => accepts_of_split?, fun rule cs piece rest h => ?_,
    fun cs h r p hp => accepts_eq_false_of_first? h hp,
    fun source => tokenizeFrom_eq_longest .start source.toList⟩
  exact ⟨(Rule.append_of_split? (Rule.split?_of_first? h)).1, find?_accepts_of_first? h,
    fun r p hp hr => length_le_of_accepts h hp hr⟩

/-- A keyword that a name goes on from, and an operator of two characters before another one. -/
theorem tokenize_eq_longest_of_operators :
    Rule.first? "iffy".toList = some (.identifier, ("iffy".toList, [])) ∧
      Rule.keyword.accepts "if".toList = true ∧
      (∀ (r : Rule) (p : List Char), p <+: "<==".toList → r.accepts p = true → p.length ≤ 2) ∧
      (tokenizeLongest "iffy<==-5").tokens.map Token.text = ["iffy", "<=", "=", "-5"] := by
  have hname : Rule.first? "iffy".toList = some (.identifier, ("iffy".toList, [])) := by decide
  have hoperator : Rule.first? "<==".toList = some (.comparison, ("<=".toList, ['='])) := by decide
  refine ⟨hname, ?_, (tokenize_eq_longest.2.1 _ _ _ _ hoperator).2.2, ?_⟩
  · decide
  · rw [← tokenize_eq_longest.2.2.2]
    decide +kernel

end MiniLang
