import MiniLang.Proofs.LongestMatch
import MiniLang.Proofs.Partition
/-!
# The places of lexical faults

A lexical fault stands at the character that it names, and the text up to this character decides it:
all texts that go on differently from there have the same tokens and the same fault
(`tokenize_of_take_eq`).  A literal that is never closed is the exception, since its fault depends
on all that follows; so is the exclamation mark, since an equals sign may follow it.

A lexeme is settled as soon as the character behind it is known (`first?_of_head?_eq`).  Where the
first escape of a string literal goes wrong (`BadEscape`) is a matter of the text up to its symbol,
whether the literal is closed or not.
-/

set_option autoImplicit false

namespace MiniLang

/-! ## Places in a text -/

/-- The characters of a text, each with whether it stands in a gap between lexemes.  From where no
rule applies, none does. -/
def marked (cs : List Char) : List (Char × Bool) :=
  match cs with
  | [] => []
  | c :: cs =>
    if isBlank c then (c, true) :: marked cs
    else
      match _h : Rule.first? (c :: cs) with
      | none => (c :: cs).map (·, false)
      | some (rule, (piece, rest)) => piece.map (·, rule.kind?.isNone) ++ marked rest
termination_by cs.length
decreasing_by
  · simp
  · exact Rule.length_of_first? _h

/-- The place of the character at an offset of a source text. -/
def positionAt (source : String) (offset : Nat) : Position :=
  placeAfter ((marked source.toList).take offset)

theorem marked_of_isBlank {c : Char} (cs : List Char) (hb : isBlank c = true) :
    marked (c :: cs) = (c, true) :: marked cs := by
  rw [marked, if_pos hb]

theorem marked_of_first? {c : Char} {cs piece rest : List Char} {rule : Rule}
    (hb : isBlank c = false) (h : Rule.first? (c :: cs) = some (rule, (piece, rest))) :
    marked (c :: cs) = piece.map (·, rule.kind?.isNone) ++ marked rest := by
  rw [marked, if_neg (by simp [hb])]
  split
  · rename_i hf
    rw [hf] at h
    cases h
  · rename_i hf
    rw [hf] at h
    cases h
    rfl

theorem marked_of_first?_eq_none {c : Char} {cs : List Char}
    (hb : isBlank c = false) (h : Rule.first? (c :: cs) = none) :
    marked (c :: cs) = (c :: cs).map (·, false) := by
  rw [marked, if_neg (by simp [hb])]
  split
  · rfl
  · rename_i hf
    rw [hf] at h
    cases h

/-- Marking a text changes none of its characters. -/
theorem map_fst_marked (cs : List Char) : (marked cs).map Prod.fst = cs := by
  have hmap : ∀ (cs : List Char) (b : Bool), (cs.map (·, b)).map Prod.fst = cs := by
    intro cs b
    rw [List.map_map]
    exact List.map_id cs
  fun_induction marked cs with
  | case1 => rfl
  | case2 c cs _ ih => rw [List.map_cons, ih]
  | case3 => exact hmap _ _
  | case4 c cs _ rule piece rest h ih =>
    rw [List.map_append, hmap, ih]
    exact (Rule.append_of_split? (Rule.split?_of_first? h)).1

theorem length_marked (cs : List Char) : (marked cs).length = cs.length := by
  rw [← List.length_map, map_fst_marked]

theorem Position.not_precedes_self (p : Position) : ¬ p.Precedes p := by
  unfold Position.Precedes
  omega

/-- Of the places in a text, those of earlier characters come first. -/
theorem precedes_placeAfter_take {text : List (Char × Bool)} {p q : Nat} (h : p < q)
    (hp : p < text.length) :
    (placeAfter (text.take p)).Precedes (placeAfter (text.take q)) := by
  obtain ⟨n, rfl⟩ := Nat.exists_eq_add_of_lt h
  rw [Nat.add_assoc, List.take_add]
  apply precedes_placeAfter
  rw [ne_eq, List.take_eq_nil_iff, List.drop_eq_nil_iff]
  omega

/-- No other character of a text stands at the place of a given one. -/
theorem placeAfter_take_inj {text : List (Char × Bool)} {p : Nat} (hp : p < text.length) (q : Nat) :
    placeAfter (text.take p) = placeAfter (text.take q) ↔ q = p := by
  refine ⟨fun h => ?_, fun h => by rw [h]⟩
  rcases Nat.lt_trichotomy q p with hlt | heq | hlt
  · have := precedes_placeAfter_take hlt (hlt.trans hp)
    rw [h] at this
    exact absurd this (Position.not_precedes_self _)
  · exact heq
  · have := precedes_placeAfter_take hlt hp
    rw [h] at this
    exact absurd this (Position.not_precedes_self _)

/-! ## A lexeme is settled by the character behind it -/

theorem isQuotedRest_append_eq_false {cs more : List Char} (h : isQuotedRest cs = true)
    (hne : more ≠ []) : isQuotedRest (cs ++ more) = false := by
  rw [Bool.eq_false_iff]
  intro hlonger
  have hcs := splitQuoted_append h (more ++ [])
  have hall := splitQuoted_append hlonger []
  rw [List.append_assoc, hcs] at hall
  simp only [List.append_nil, Option.some.injEq, Prod.mk.injEq] at hall
  exact hne hall.2

/-- A lexeme goes on from one of a single character, but for string literals and `!=`. -/
theorem accepts_cons {r : Rule} {c : Char} {cs : List Char} (h : r.accepts (c :: cs) = true) :
    (∃ r' : Rule, r'.accepts [c] = true) ∨ c = '"' ∧ isQuotedRest cs = true ∨
      c = '!' ∧ cs = ['='] := by
  cases r with
  | keyword =>
    obtain ⟨c', cs', hcons, hc⟩ := exists_isNameStart_of_isKeyword h
    obtain ⟨rfl, _⟩ := List.cons.inj hcons
    exact .inl ⟨.identifier, by simp [Rule.accepts, hc]⟩
  | identifier =>
    rw [Rule.accepts, Bool.and_eq_true] at h
    exact .inl ⟨.identifier, by simp [Rule.accepts, h.1]⟩
  | integer =>
    simp only [Rule.accepts, isDecimal] at h
    split at h
    · rename_i hc
      exact .inl ⟨.operation, by rw [hc]; rfl⟩
    · rename_i hc
      rw [Bool.and_eq_true] at h
      exact .inl ⟨.integer, by simp [Rule.accepts, isDecimal, hc, h.1]⟩
  | newlines =>
    rw [Rule.accepts, Bool.and_eq_true] at h
    exact .inl ⟨.newlines, by rw [Rule.accepts, h.1]; rfl⟩
  | string =>
    rw [Rule.accepts, Bool.and_eq_true, decide_eq_true_eq] at h
    exact .inr (.inl h)
  | comparison =>
    obtain ⟨c', htext, hc⟩ := exists_pair_of_accepts_comparison h
    obtain ⟨rfl, rfl⟩ := List.cons.inj htext
    simp only [isComparisonStart, List.contains_eq_mem, List.mem_cons, List.not_mem_nil,
      or_false, decide_eq_true_eq] at hc
    rcases hc with rfl | rfl | rfl | rfl
    · exact .inl ⟨.assign, rfl⟩
    · exact .inr (.inr ⟨rfl, rfl⟩)
    · exact .inl ⟨.operation, rfl⟩
    · exact .inl ⟨.operation, rfl⟩
  | operation =>
    obtain ⟨c', htext⟩ := exists_singleton_of_accepts h (by simp)
    obtain ⟨rfl, rfl⟩ := List.cons.inj htext
    exact .inl ⟨.operation, h⟩
  | special =>
    obtain ⟨c', htext⟩ := exists_singleton_of_accepts h (by simp)
    obtain ⟨rfl, rfl⟩ := List.cons.inj htext
    exact .inl ⟨.special, h⟩
  | assign =>
    obtain ⟨c', htext⟩ := exists_singleton_of_accepts h (by simp)
    obtain ⟨rfl, rfl⟩ := List.cons.inj htext
    exact .inl ⟨.assign, h⟩

/-- A quote alone is no lexeme, nor is an exclamation mark. -/
theorem accepts_singleton_eq_false {c : Char} (hc : c = '"' ∨ c = '!') (r : Rule) :
    r.accepts [c] = false := by
  rcases hc with rfl | rfl <;> cases r <;> decide

/-- If a lexeme goes on from another one, it may as well end one character behind that one. -/
theorem exists_accepts_append_singleton {r r' : Rule} {piece more : List Char} {d : Char}
    (hr : r.accepts piece = true) (hne : piece ≠ [])
    (hr' : r'.accepts (piece ++ d :: more) = true) :
    ∃ r'' : Rule, r''.accepts (piece ++ [d]) = true := by
  obtain ⟨c, cs, rfl⟩ := List.exists_cons_of_ne_nil hne
  -- any name may end one character further on
  have hname : isNameStart c = true → (cs ++ d :: more).all isNamePart = true →
      ∃ r'' : Rule, r''.accepts (c :: cs ++ [d]) = true := by
    intro hc hcs
    rw [List.all_append, List.all_cons, Bool.and_eq_true, Bool.and_eq_true] at hcs
    exact ⟨.identifier, by simp [Rule.accepts, hc, hcs.1, hcs.2.1]⟩
  cases r' with
  | keyword =>
    obtain ⟨word, hw, hword⟩ := List.any_eq_true.1 hr'
    have hparts : (c :: cs ++ d :: more).all isNamePart = true :=
      of_decide_eq_true hword ▸ all_isNamePart_of_mem hw
    obtain ⟨c', cs', hcons, hc⟩ := exists_isNameStart_of_isKeyword hr'
    rw [List.cons_append] at hcons hparts
    obtain ⟨rfl, _⟩ := List.cons.inj hcons
    rw [List.all_cons, Bool.and_eq_true] at hparts
    exact hname hc hparts.2
  | identifier =>
    rw [List.cons_append, Rule.accepts, Bool.and_eq_true] at hr'
    exact hname hr'.1 hr'.2
  | integer =>
    refine ⟨.integer, ?_⟩
    simp only [List.cons_append, Rule.accepts, isDecimal] at hr' ⊢
    split
    · rename_i hc
      rw [if_pos hc] at hr'
      simp only [List.all_append, List.all_cons, Bool.and_eq_true] at hr'
      simp [hr'.2.1, hr'.2.2.1]
    · rename_i hc
      rw [if_neg hc] at hr'
      simp only [List.all_append, List.all_cons, Bool.and_eq_true] at hr'
      simp [hr'.1, hr'.2.1, hr'.2.2.1]
  | newlines =>
    refine ⟨.newlines, ?_⟩
    simp only [List.cons_append, Rule.accepts, List.all_append, List.all_cons,
      Bool.and_eq_true] at hr' ⊢
    exact ⟨hr'.1, hr'.2.1, hr'.2.2.1, rfl⟩
  | string =>
    -- no string literal goes on from another
    rw [List.cons_append, Rule.accepts, Bool.and_eq_true, decide_eq_true_eq] at hr'
    obtain ⟨rfl, hquoted⟩ := hr'
    rcases accepts_cons hr with ⟨r'', hr''⟩ | ⟨_, hcs⟩ | ⟨hc, _⟩
    · rw [accepts_singleton_eq_false (.inl rfl)] at hr''
      cases hr''
    · rw [isQuotedRest_append_eq_false hcs (List.cons_ne_nil d more)] at hquoted
      cases hquoted
    · exact absurd hc (by decide)
  | comparison =>
    refine ⟨.comparison, ?_⟩
    cases cs with
    | nil =>
      cases more with
      | nil => exact hr'
      | cons _ _ => cases hr'
    | cons e es =>
      cases es <;> cases hr'
  | operation => cases cs <;> cases hr'
  | special => cases cs <;> cases hr'
  | assign => cases cs <;> cases hr'

/-- What the first rule that applies takes depends on one character behind it. -/
theorem first?_of_head?_eq {rule : Rule} {piece rest rest' : List Char}
    (h : Rule.first? (piece ++ rest) = some (rule, (piece, rest)))
    (hhead : rest'.head? = rest.head?) :
    Rule.first? (piece ++ rest') = some (rule, (piece, rest')) := by
  have hs := Rule.split?_of_first? h
  have hne := (Rule.append_of_split? hs).2
  rw [first?_eq_longest?]
  refine longestWithin_eq_some rfl hne ?_ (Nat.le_refl _) (find?_accepts_of_first? h) ?_
  · rw [List.length_append]
    exact Nat.le_add_right _ _
  · intro r p hp hr
    by_contra hlong
    rw [not_le] at hlong
    -- a longer lexeme goes on with the character behind the piece
    obtain ⟨more, rfl⟩ : piece <+: p :=
      List.prefix_of_prefix_length_le (List.prefix_append piece rest') hp hlong.le
    rw [List.prefix_append_right_inj] at hp
    cases more with
    | nil => simp at hlong
    | cons d more =>
      obtain ⟨r'', hr''⟩ := exists_accepts_append_singleton (accepts_of_split? hs) hne hr
      obtain ⟨tail, rfl⟩ := hp
      cases rest with
      | nil => simp at hhead
      | cons e rest =>
        simp only [List.cons_append, List.head?_cons, Option.some.injEq] at hhead
        subst hhead
        have hle := length_le_of_accepts h
          ((List.prefix_append_right_inj piece).2 (List.prefix_append [d] rest)) hr''
        rw [List.length_append, List.length_singleton] at hle
        omega

/-- No rule applies where no lexeme begins. -/
theorem first?_eq_none_of_accepts {c : Char} {cs : List Char}
    (h : ∀ (r : Rule) (p : List Char), p <+: cs → r.accepts (c :: p) = false) :
    Rule.first? (c :: cs) = none := by
  rw [first?_eq_longest?]
  refine longestWithin_eq_none (fun r p hp => ?_) _
  cases p with
  | nil => cases r <;> rfl
  | cons d p =>
    obtain ⟨rfl, htail⟩ := List.cons_prefix_cons.1 hp
    exact h r p htail

/-- Where no rule applies, none does whatever follows the first character, but a quote may open a
literal and an equals sign may follow an exclamation mark. -/
theorem first?_eq_none_of_cons {c : Char} {cs cs' : List Char} (h : Rule.first? (c :: cs) = none)
    (hquote : c ≠ '"') (hmark : c = '!' → cs'.head? ≠ some '=') :
    Rule.first? (c :: cs') = none := by
  refine first?_eq_none_of_accepts fun r p hp => ?_
  rw [Bool.eq_false_iff]
  intro hr
  rcases accepts_cons hr with ⟨r', hr'⟩ | ⟨hc, _⟩ | ⟨hc, rfl⟩
  · rw [accepts_eq_false_of_first? h (List.prefix_append [c] cs)] at hr'
    cases hr'
  · exact hquote hc
  · obtain ⟨tail, rfl⟩ := hp
    exact hmark hc rfl

/-! ## The first escape that goes wrong -/

/-- Of a text behind an opening quote: the first escape that cannot be resolved comes before any
quote that closes the literal, and its symbol `d` stands at offset `k`. -/
inductive BadEscape : List Char → Nat → Char → Prop where
  | here {d : Char} {rest : List Char} (h : ∀ e, (d, e) ∉ escapes) :
      BadEscape ('\\' :: d :: rest) 1 d
  | pair {c e d : Char} {rest : List Char} {k : Nat} (he : (c, e) ∈ escapes)
      (h : BadEscape rest k d) : BadEscape ('\\' :: c :: rest) (k + 2) d
  | plain {c d : Char} {rest : List Char} {k : Nat} (hq : c ≠ '"') (hb : c ≠ '\\')
      (h : BadEscape rest k d) : BadEscape (c :: rest) (k + 1) d

namespace BadEscape

variable {cs : List Char} {k : Nat} {d : Char}

theorem getElem? (h : BadEscape cs k d) : cs[k]? = some d := by
  induction h with
  | here => rfl
  | pair _ _ ih => exact ih
  | plain _ _ _ ih => exact ih

/-- What stands behind the symbol does not matter. -/
theorem of_take_eq (h : BadEscape cs k d) {cs' : List Char}
    (ht : cs'.take (k + 1) = cs.take (k + 1)) : BadEscape cs' k d := by
  induction h generalizing cs' with
  | here h =>
    match cs', ht with
    | [], ht => cases ht
    | [_], ht => cases ht
    | _ :: _ :: _, hsame =>
      cases hsame
      exact .here h
  | pair he _ ih =>
    match cs', ht with
    | [], ht => cases ht
    | [_], ht => cases ht
    | _ :: _ :: _, hsame =>
      simp only [List.take_succ_cons, List.cons.injEq] at hsame
      obtain ⟨rfl, rfl, hrest⟩ := hsame
      exact .pair he (ih hrest)
  | plain hq hb _ ih =>
    match cs', ht with
    | [], ht => cases ht
    | _ :: _, hsame =>
      rw [List.take_succ_cons, List.take_succ_cons, List.cons.injEq] at hsame
      obtain ⟨rfl, hrest⟩ := hsame
      exact .plain hq hb (ih hrest)

/-- Decoding a literal that is closed finds the escape within the literal. -/
theorem decode_eq (h : BadEscape cs k d) {piece left : List Char}
    (hs : splitQuoted cs = some (piece, left)) :
    k < piece.length ∧ ∀ position : Position,
      Escape.decode position piece = .error (Escape.invalid (position.right k) d) := by
  induction h generalizing piece left with
  | here h =>
    rw [splitQuoted, if_neg (by decide), if_pos rfl] at hs
    split at hs
    · cases hs
      refine ⟨Nat.succ_lt_succ (Nat.succ_pos _), fun position => ?_⟩
      rw [Escape.decode, if_pos rfl]
      simp only [Escape.meaning?_eq_none_iff.2 h]
    · cases hs
  | pair he _ ih =>
    rw [splitQuoted, if_neg (by decide), if_pos rfl] at hs
    split at hs
    · rename_i hpiece
      cases hs
      obtain ⟨hlt, hdecode⟩ := ih hpiece
      refine ⟨Nat.succ_lt_succ (Nat.succ_lt_succ hlt), fun position => ?_⟩
      rw [Escape.decode, if_pos rfl, Escape.meaning?_eq_some_iff.2 he]
      simp only [hdecode, Position.right_right, Nat.add_comm]
    · cases hs
  | @plain c d rest k hq hb h ih =>
    cases rest with
    | nil => cases h
    | cons e rest =>
      rw [splitQuoted, if_neg hq, if_neg hb] at hs
      split at hs
      · rename_i piece' _ hpiece
        cases hs
        obtain ⟨hlt, hdecode⟩ := ih hpiece
        refine ⟨Nat.succ_lt_succ hlt, fun position => ?_⟩
        obtain ⟨e', es, rfl⟩ : ∃ e' es, piece' = e' :: es :=
          List.exists_cons_of_length_pos (Nat.zero_lt_of_lt hlt)
        rw [Escape.decode, if_neg hb, hdecode, Position.right_right, Nat.add_comm]
      · cases hs

/-- So does the search in a literal that is never closed. -/
theorem unclosed_eq (h : BadEscape cs k d) (opening position : Position) :
    Escape.unclosed opening position cs = Escape.invalid (position.right k) d := by
  induction h generalizing position with
  | here h =>
    rw [Escape.unclosed, if_pos rfl]
    simp only [Escape.meaning?_eq_none_iff.2 h]
  | pair he _ ih =>
    rw [Escape.unclosed, if_pos rfl, Escape.meaning?_eq_some_iff.2 he]
    simp only [ih, Position.right_right, Nat.add_comm]
  | @plain c d rest k hq hb h ih =>
    cases rest with
    | nil => cases h
    | cons e rest => rw [Escape.unclosed, if_neg hb, ih, Position.right_right, Nat.add_comm]

end BadEscape

/-- A literal that is closed and cannot be decoded has such an escape. -/
theorem exists_badEscape_of_decode {cs piece rest : List Char} {position : Position}
    {fault : LexicalFault} (hs : splitQuoted cs = some (piece, rest))
    (h : Escape.decode position piece = .error fault) : ∃ k d, BadEscape cs k d := by
  fun_induction splitQuoted cs generalizing piece rest position fault with
  | case1 => cases hs
  | case2 => cases hs; cases h
  | case3 => cases hs
  | case4 => cases hs; cases h
  | case5 d more piece₁ left hs' _ ih =>
    cases hs
    rw [Escape.decode, if_pos rfl] at h
    split at h
    · rename_i hd
      exact ⟨1, d, .here (Escape.meaning?_eq_none_iff.1 hd)⟩
    · rename_i hd
      split at h
      · rename_i hpiece
        obtain ⟨k, s, hbad⟩ := ih hs' hpiece
        exact ⟨k + 2, s, .pair (Escape.meaning?_eq_some_iff.1 hd) hbad⟩
      · cases h
  | case6 => cases hs
  | case7 c d more hq hb piece₁ left hs' ih =>
    cases hs
    cases piece₁ with
    | nil => exact absurd hs' splitQuoted_ne_nil
    | cons d' more' =>
      rw [Escape.decode, if_neg hb] at h
      split at h
      · rename_i hpiece
        obtain ⟨k, s, hbad⟩ := ih hs' hpiece
        exact ⟨k + 1, s, .plain hq hb hbad⟩
      · cases h
  | case8 => cases hs

/-- A literal that is never closed has such an escape or is just that. -/
theorem exists_badEscape_of_unclosed {cs : List Char} {opening position : Position}
    (hs : splitQuoted cs = none)
    (h : (Escape.unclosed opening position cs).cause ≠ .unterminatedString) :
    ∃ k d, BadEscape cs k d := by
  fun_induction Escape.unclosed opening position cs with
  | case1 => exact absurd rfl h
  | case2 => exact absurd rfl h
  | case3 position d rest hd => exact ⟨1, d, .here (Escape.meaning?_eq_none_iff.1 hd)⟩
  | case4 position d rest e hd ih =>
    rw [splitQuoted, if_neg (by decide), if_pos rfl] at hs
    split at hs
    · cases hs
    · rename_i hrest
      obtain ⟨k, s, hbad⟩ := ih hrest h
      exact ⟨k + 2, s, .pair (Escape.meaning?_eq_some_iff.1 hd) hbad⟩
  | case5 position c d rest hb ih =>
    by_cases hq : c = '"'
    · rw [splitQuoted, if_pos hq] at hs
      cases hs
    · rw [splitQuoted, if_neg hq, if_neg hb] at hs
      split at hs
      · cases hs
      · rename_i hrest
        obtain ⟨k, s, hbad⟩ := ih hrest h
        exact ⟨k + 1, s, .plain hq hb hbad⟩

/-! ## Literals with such an escape -/

/-- No rule applies at a quote that opens a literal which is never closed. -/
theorem first?_eq_none_of_quote {cs : List Char} (h : splitQuoted cs = none) :
    Rule.first? ('"' :: cs) = none := by
  refine first?_eq_none_of_accepts fun r p hp => ?_
  rw [Bool.eq_false_iff]
  intro hr
  rcases accepts_cons hr with ⟨r', hr'⟩ | ⟨_, hquoted⟩ | ⟨hc, _⟩
  · rw [accepts_singleton_eq_false (.inl rfl)] at hr'
    cases hr'
  · obtain ⟨tail, rfl⟩ := hp
    rw [splitQuoted_append hquoted] at h
    cases h
  · exact absurd hc (by decide)

theorem first?_of_quote {cs piece rest : List Char} (h : splitQuoted cs = some (piece, rest)) :
    Rule.first? ('"' :: cs) = some (.string, ('"' :: piece, rest)) :=
  first?_of_split? (by simp) (by rw [Rule.split?, splitString, if_pos rfl, h])

/-- A literal with an escape that cannot be resolved makes no token but a fault, whether it is
closed or not. -/
theorem tokenizeFrom_of_badEscape {cs : List Char} {k : Nat} {d : Char} (h : BadEscape cs k d)
    (position : Position) :
    tokenizeFrom position ('"' :: cs) =
      ⟨[], some (Escape.invalid (position.right (k + 1)) d)⟩ := by
  have hright : (position.right 1).right k = position.right (k + 1) := by
    rw [Position.right_right, Nat.add_comm]
  cases hs : splitQuoted cs with
  | none =>
    rw [tokenizeFrom_of_first?_eq_none (by decide) (first?_eq_none_of_quote hs), unreadable,
      if_neg (by decide), if_pos rfl, h.unclosed_eq, hright]
  | some split =>
    obtain ⟨piece, rest⟩ := split
    rw [tokenizeFrom_of_first? (by decide) (first?_of_quote hs)]
    simp only [Rule.kind?, Rule.textOf, Escape.decodeLiteral, List.tail_cons, (h.decode_eq hs).2,
      hright]

/-- Up to the symbol no character of the literal stands in a gap. -/
theorem take_marked_of_badEscape {cs : List Char} {k : Nat} {d : Char} (h : BadEscape cs k d) :
    (marked ('"' :: cs)).take (k + 1) = (('"' :: cs).take (k + 1)).map (·, false) := by
  cases hs : splitQuoted cs with
  | none =>
    rw [marked_of_first?_eq_none (by decide) (first?_eq_none_of_quote hs), List.map_take]
  | some split =>
    obtain ⟨piece, rest⟩ := split
    have hk : k + 1 ≤ ('"' :: piece).length :=
      Nat.succ_le_succ (h.decode_eq hs).1.le
    rw [marked_of_first? (by decide) (first?_of_quote hs), ← append_of_splitQuoted hs,
      ← List.cons_append, List.take_append_of_le_length (by simpa using hk),
      List.take_append_of_le_length hk, List.map_take]
    rfl

/-- A rule that cannot make a text of its piece has taken a literal with such an escape. -/
theorem exists_badEscape_of_textOf {rule : Rule} {c : Char} {cs piece rest : List Char}
    {position : Position} {fault : LexicalFault}
    (hs : rule.split? (c :: cs) = some (piece, rest))
    (h : rule.textOf position piece = .error fault) : c = '"' ∧ ∃ k d, BadEscape cs k d := by
  cases rule with
  | string =>
    rw [Rule.split?, splitString] at hs
    split at hs
    · rename_i hc
      split at hs
      · rename_i hquoted
        cases hs
        rw [Rule.textOf, Escape.decodeLiteral, List.tail_cons] at h
        split at h
        · rename_i hdecode
          exact ⟨hc, exists_badEscape_of_decode hquoted hdecode⟩
        · cases h
      · cases hs
    · cases hs
  | _ => cases h

/-! ## The place of a fault -/

/-- The causes that name a character. -/
def LexicalCause.Names (cause : LexicalCause) (c : Char) : Prop :=
  cause = .invalidEscape (String.singleton c) ∨ cause = .unknownCharacter (String.singleton c) ∨
    cause = .invalidToken (String.singleton c)

/-- The fault of the text `cs`, which stands behind `text`, is at the offset `p` of `cs`: it names
the character that stands there, and what follows this character does not matter, except that an
equals sign would make an operator of an exclamation mark. -/
structure FaultAt (text : List (Char × Bool)) (cs : List Char) (fault : LexicalFault) (p : Nat) :
    Prop where
  names : ∃ c, cs[p]? = some c ∧ fault.cause.Names c
  place : fault.position = placeAfter (text ++ (marked cs).take p)
  settled : ∀ cs' : List Char, cs'.take (p + 1) = cs.take (p + 1) →
    (∀ s, fault.cause = .unknownCharacter s → cs'[p + 1]? ≠ some '=') →
      tokenizeFrom (placeAfter text) cs' = tokenizeFrom (placeAfter text) cs

namespace FaultAt

variable {text marks : List (Char × Bool)} {piece rest : List Char} {fault : LexicalFault} {p : Nat}

/-- A piece of which the tokenizer makes the same whatever follows its next character may stand in
front. -/
theorem append (h : FaultAt (text ++ marks) rest fault p) (hlen : marks.length = piece.length)
    (hmarked : marked (piece ++ rest) = marks ++ marked rest) (go : Tokenized → Tokenized)
    (hgo : ∀ rest' : List Char, rest'.head? = rest.head? →
      tokenizeFrom (placeAfter text) (piece ++ rest') =
        go (tokenizeFrom (placeAfter (text ++ marks)) rest')) :
    FaultAt text (piece ++ rest) fault (piece.length + p) := by
  obtain ⟨c, hp, hc⟩ := h.names
  refine ⟨⟨c, ?_, hc⟩, ?_, fun cs' ht hmark => ?_⟩
  · rw [List.getElem?_append_right (Nat.le_add_right _ _), Nat.add_sub_cancel_left, hp]
  · rw [hmarked, ← hlen, List.take_length_add_append, ← List.append_assoc, h.place]
  · rw [Nat.add_assoc, List.take_length_add_append] at ht
    -- the other text begins with the piece as well
    have hpiece : piece <+: cs'.take (piece.length + (p + 1)) := ht ▸ List.prefix_append piece _
    obtain ⟨rest', rfl⟩ := hpiece.trans (List.take_prefix _ _)
    rw [List.take_length_add_append, List.append_cancel_left_eq] at ht
    have hhead : rest'.head? = rest.head? := by
      have := congrArg List.head? ht
      simpa only [List.head?_take, Nat.add_one_ne_zero, if_false] using this
    have hrest := h.settled rest' ht fun s hs => by
      have := hmark s hs
      rwa [Nat.add_assoc, List.getElem?_append_right (Nat.le_add_right _ _),
        Nat.add_sub_cancel_left] at this
    rw [hgo rest' hhead, hgo rest rfl, hrest]

/-- The first escape of a literal that cannot be resolved is the place of a fault. -/
theorem of_badEscape {cs : List Char} {k : Nat} {d : Char} (h : BadEscape cs k d)
    (text : List (Char × Bool)) :
    FaultAt text ('"' :: cs) (Escape.invalid ((placeAfter text).right (k + 1)) d) (k + 1) := by
  refine ⟨⟨d, h.getElem?, .inl rfl⟩, ?_, fun cs' ht _ => ?_⟩
  · have hk : k < cs.length := (List.getElem?_eq_some_iff.1 h.getElem?).1
    rw [take_marked_of_badEscape h, ← placeAfter_lexeme, List.length_take, List.length_cons,
      Nat.min_eq_left (Nat.succ_le_succ hk.le)]
    rfl
  · cases cs' with
    | nil => cases ht
    | cons c cs' =>
      rw [List.take_succ_cons, List.take_succ_cons, List.cons.injEq] at ht
      obtain ⟨rfl, ht⟩ := ht
      rw [tokenizeFrom_of_badEscape h, tokenizeFrom_of_badEscape (h.of_take_eq ht)]

/-- So is a character that no rule applies at, unless it is a quote. -/
theorem of_first?_eq_none {c : Char} {cs : List Char} (hb : isBlank c = false)
    (h : Rule.first? (c :: cs) = none) (hquote : c ≠ '"') (text : List (Char × Bool)) :
    FaultAt text (c :: cs) (unreadable (placeAfter text) c cs) 0 := by
  refine ⟨⟨c, rfl, ?_⟩, ?_, fun cs' ht hmark => ?_⟩
  · simp only [unreadable, if_neg hquote]
    split
    · exact .inr (.inl rfl)
    · exact .inr (.inr rfl)
  · simp only [unreadable, if_neg hquote, List.take_zero, List.append_nil]
    split <;> rfl
  · cases cs' with
    | nil => cases ht
    | cons c' cs' =>
      cases ht
      have hunread : ∀ cs, unreadable (placeAfter text) c cs =
          unreadable (placeAfter text) c [] := by
        intro cs
        rw [unreadable, unreadable, if_neg hquote, if_neg hquote]
      have hnone : Rule.first? (c :: cs') = none := by
        refine first?_eq_none_of_cons h hquote fun hc => ?_
        have := hmark (String.singleton c) (by rw [unreadable, if_pos hc])
        rwa [List.head?_eq_getElem?]
      rw [tokenizeFrom_of_first?_eq_none hb h, tokenizeFrom_of_first?_eq_none hb hnone, hunread cs,
        hunread cs']

end FaultAt

/-- What is made of a lexeme depends on one character behind it. -/
theorem tokenizeFrom_of_head?_eq {c : Char} {cs piece rest rest' : List Char} {rule : Rule}
    (hb : isBlank c = false) (h : Rule.first? (c :: cs) = some (rule, (piece, rest)))
    (hhead : rest'.head? = rest.head?) (position : Position) :
    tokenizeFrom position (piece ++ rest') =
      match rule.kind? with
      | none => tokenizeFrom (position.down piece.length) rest'
      | some kind =>
        match rule.textOf position piece with
        | .error fault => ⟨[], some fault⟩
        | .ok text =>
          .cons ⟨kind, String.ofList text, position⟩
            (tokenizeFrom (position.right piece.length) rest') := by
  obtain ⟨happend, hne⟩ := Rule.append_of_split? (Rule.split?_of_first? h)
  rw [← happend] at h
  have hfirst := first?_of_head?_eq h hhead
  obtain ⟨d, ds, rfl⟩ := List.exists_cons_of_ne_nil hne
  obtain ⟨rfl, _⟩ := List.cons.inj happend
  exact tokenizeFrom_of_first? hb hfirst

/-- Every fault has such a place, but for that of a literal which is never closed. -/
theorem exists_faultAt {text : List (Char × Bool)} {position : Position} {cs : List Char}
    {fault : LexicalFault} (hp : position = placeAfter text)
    (hf : (tokenizeFrom position cs).fault = some fault)
    (hcause : fault.cause ≠ .unterminatedString) : ∃ p, FaultAt text cs fault p := by
  fun_induction tokenizeFrom position cs generalizing text with
  | case1 => cases hf
  | case2 position c cs hb ih =>
    obtain ⟨p, hat⟩ := ih (hp ▸ placeAfter_blank hb text) hf
    change ∃ p, FaultAt text ([c] ++ cs) fault p
    refine ⟨1 + p, hat.append rfl (marked_of_isBlank cs hb) id fun rest' _ => ?_⟩
    rw [List.cons_append, tokenizeFrom, if_pos hb, placeAfter_blank hb]
    rfl
  | case3 position c cs hb h =>
    rw [Bool.not_eq_true] at hb
    cases hf
    subst hp
    by_cases hquote : c = '"'
    · subst hquote
      have hs : splitQuoted cs = none := by
        cases hs : splitQuoted cs with
        | none => rfl
        | some split =>
          rw [first?_of_quote hs] at h
          cases h
      rw [unreadable, if_neg (by decide), if_pos rfl] at hcause ⊢
      obtain ⟨k, d, hbad⟩ := exists_badEscape_of_unclosed hs hcause
      rw [hbad.unclosed_eq, Position.right_right, Nat.add_comm]
      exact ⟨k + 1, .of_badEscape hbad text⟩
    · exact ⟨0, .of_first?_eq_none hb h hquote text⟩
  | case4 position c cs hb rule piece rest h hk ih =>
    rw [Bool.not_eq_true] at hb
    have hs := Rule.split?_of_first? h
    have happend := (Rule.append_of_split? hs).1
    obtain ⟨p, hat⟩ := ih (hp ▸ placeAfter_newlines hs hk text) hf
    have hmarked : marked (piece ++ rest) = piece.map (·, true) ++ marked rest := by
      rw [happend, marked_of_first? hb h, hk]
      rfl
    rw [← happend]
    refine ⟨piece.length + p, hat.append (by rw [List.length_map]) hmarked id fun rest' hhead => ?_⟩
    rw [tokenizeFrom_of_head?_eq hb h hhead, hk, ← placeAfter_newlines hs hk]
    rfl
  | case5 position c cs hb rule piece rest h kind hk fault' ht =>
    cases hf
    subst hp
    obtain ⟨rfl, k, d, hbad⟩ := exists_badEscape_of_textOf (Rule.split?_of_first? h) ht
    have hread := tokenizeFrom_of_badEscape hbad (placeAfter text)
    rw [tokenizeFrom_of_first? (by decide) h, hk] at hread
    simp only [ht, Tokenized.mk.injEq, Option.some.injEq, true_and] at hread
    rw [hread]
    exact ⟨k + 1, .of_badEscape hbad text⟩
  | case6 position c cs hb rule piece rest h kind hk written ht ih =>
    rw [Bool.not_eq_true] at hb
    have hs := Rule.split?_of_first? h
    have happend := (Rule.append_of_split? hs).1
    obtain ⟨p, hat⟩ := ih (hp ▸ placeAfter_lexeme piece text) hf
    have hmarked : marked (piece ++ rest) = piece.map (·, false) ++ marked rest := by
      rw [happend, marked_of_first? hb h, hk]
      rfl
    rw [← happend]
    refine ⟨piece.length + p, hat.append (by rw [List.length_map]) hmarked
      (.cons ⟨kind, String.ofList written, position⟩) fun rest' hhead => ?_⟩
    rw [tokenizeFrom_of_head?_eq hb h hhead, hk, ← placeAfter_lexeme, ← hp]
    simp only [ht]

/-- A lexical fault is decided by the text up to the character that it names.  If a source text has
a fault other than a missing quote, then exactly one offset has the place of the fault, and the
character there is the one that the fault names.  Any source text that agrees with this one up to
and with that character has the same tokens and the same fault, if no equals sign makes an operator
of an unknown character.  In particular it does not matter to a bad escape whether its literal is
closed: the search in a literal that is never closed comes to the fault that decoding gives, and the
other way round. -/
theorem tokenize_of_take_eq :
    (∀ (source : String) (fault : LexicalFault), (tokenize source).fault = some fault →
      fault.cause ≠ .unterminatedString →
        ∃ (p : Nat) (c : Char), source.toList[p]? = some c ∧ fault.cause.Names c ∧
          (∀ q, fault.position = positionAt source q ↔ q = p) ∧
          ∀ other : String, other.toList.take (p + 1) = source.toList.take (p + 1) →
            (∀ s, fault.cause = .unknownCharacter s → other.toList[p + 1]? ≠ some '=') →
              tokenize other = tokenize source) ∧
    (∀ (cs piece rest : List Char) (opening position : Position) (fault : LexicalFault),
      splitQuoted cs = some (piece, rest) → Escape.decode position piece = .error fault →
        Escape.unclosed opening position cs = fault) ∧
    ∀ (cs more piece rest : List Char) (opening position : Position),
      splitQuoted cs = none → splitQuoted (cs ++ more) = some (piece, rest) →
        (Escape.unclosed opening position cs).cause ≠ .unterminatedString →
          Escape.decode position piece = .error (Escape.unclosed opening position cs) := by
  refine ⟨fun source fault hf hcause => ?_, fun cs piece rest opening position fault hs hd => ?_,
    fun cs more piece rest opening position hs hs' hcause => ?_⟩
  · obtain ⟨p, hat⟩ := exists_faultAt placeAfter_nil.symm hf hcause
    obtain ⟨c, hp, hc⟩ := hat.names
    have hlt : p < (marked source.toList).length := by
      rw [length_marked]
      exact (List.getElem?_eq_some_iff.1 hp).1
    refine ⟨p, c, hp, hc, fun q => ?_, fun other ht hmark => ?_⟩
    · rw [hat.place, List.nil_append]
      exact placeAfter_take_inj hlt q
    · exact hat.settled other.toList ht hmark
  · obtain ⟨k, d, hbad⟩ := exists_badEscape_of_decode hs hd
    rw [(hbad.decode_eq hs).2] at hd
    cases hd
    exact hbad.unclosed_eq opening position
  · obtain ⟨k, d, hbad⟩ := exists_badEscape_of_unclosed hs hcause
    have hk : k + 1 ≤ cs.length := (List.getElem?_eq_some_iff.1 hbad.getElem?).1
    have hmore : BadEscape (cs ++ more) k d :=
      hbad.of_take_eq (List.take_append_of_le_length hk)
    rw [hbad.unclosed_eq, (hmore.decode_eq hs').2]

/-- A literal with a bad escape on the second line, closed or not. -/
theorem tokenize_of_take_eq_of_escape :
    (tokenize "x\n\"a\\q").fault = some ⟨.invalidEscape "q", ⟨2, 4⟩⟩ ∧
      tokenize "x\n\"a\\q\" + 1" = tokenize "x\n\"a\\q" ∧
      Escape.unclosed .start .start "a\\q\" + 1".toList = Escape.invalid ⟨1, 3⟩ 'q' ∧
      Escape.decode .start "a\\q\"".toList =
        .error (Escape.unclosed .start .start "a\\q".toList) := by
  have hfault : (tokenize "x\n\"a\\q").fault = some ⟨.invalidEscape "q", ⟨2, 4⟩⟩ := by
    decide +kernel
  refine ⟨hfault, ?_, ?_, ?_⟩
  · obtain ⟨p, c, _, _, hplace, hsettled⟩ := tokenize_of_take_eq.1 _ _ hfault (by decide)
    have hp : 5 = p := (hplace 5).1 (by decide +kernel)
    subst hp
    exact hsettled _ (by decide) (by simp)
  · exact tokenize_of_take_eq.2.1 _ "a\\q\"".toList " + 1".toList _ .start _ (by decide) (by decide)
  · exact tokenize_of_take_eq.2.2 _ "\"".toList _ [] _ _ (by decide) (by decide) (by decide)

end MiniLang
