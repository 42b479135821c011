import MiniLang.Proofs.Lexical
/-!
# Source texts cut into lexemes

The tokens of a source text cut it up: gaps of blanks and line breaks, and between them the lexemes,
one for each token (`tokenize_partition`).  The place of a token is computed from the text before it
alone, by `placeAfter`, if it is known which of its characters stand in gaps: a line break within a
lexeme starts no line.
-/

set_option autoImplicit false

namespace MiniLang

/-! ## Lexemes and their texts -/

/-- Whether a character may stand in a gap between two lexemes. -/
def isLayout (c : Char) : Bool := isBlank c || c = '\n'

/-- The escapes: what may stand behind a backslash, and the character that the two stand for. -/
def escapes : List (Char × Char) :=
  [('\\', '\\'), ('"', '"'), ('n', '\n'), ('r', '\r'), ('t', '\t'), ('b', '\x08'), ('$', '$')]

/-- Each pair of a backslash and a character stands for one character, from left to right, and every
other character for itself. -/
inductive Resolves : List Char → List Char → Prop where
  | nil : Resolves [] []
  | pair {d e : Char} {cs ds : List Char} (h : (d, e) ∈ escapes) (hr : Resolves cs ds) :
      Resolves ('\\' :: d :: cs) (e :: ds)
  | plain {c : Char} {cs ds : List Char} (h : c ≠ '\\') (hr : Resolves cs ds) :
      Resolves (c :: cs) (c :: ds)

/-- How the text of a token is written. -/
def Spells (lexeme : List Char) (t : Token) : Prop :=
  if t.kind = .string then Resolves lexeme t.text.toList else t.text.toList = lexeme

/-- A lexeme, and the gap behind it. -/
structure Piece where
  lexeme : List Char
  gap : List Char

namespace Piece

/-- The text of a piece. -/
def text (p : Piece) : List Char := p.lexeme ++ p.gap

/-- The text of a piece, each character with whether it stands in a gap. -/
def marked (p : Piece) : List (Char × Bool) := p.lexeme.map (·, false) ++ p.gap.map (·, true)

end Piece

/-- The text before a piece, each character with whether it stands in a gap. -/
def before (first : List Char) (pieces : List Piece) (i : Nat) : List (Char × Bool) :=
  first.map (·, true) ++ (pieces.take i).flatMap Piece.marked

/-! ## Places -/

/-- A line break that stands in a gap. -/
def lineBreak : Char × Bool := ('\n', true)

/-- The place behind a text: one line further for each line break in a gap, and one column further
for each character behind the last of them. -/
def placeAfter (text : List (Char × Bool)) : Position :=
  ⟨1 + text.count lineBreak, 1 + (text.reverse.takeWhile (· ≠ lineBreak)).length⟩

theorem placeAfter_nil : placeAfter [] = .start := rfl

/-- Characters that start no line stand side by side. -/
theorem placeAfter_append {text more : List (Char × Bool)} (h : lineBreak ∉ more) :
    placeAfter (text ++ more) = (placeAfter text).right more.length := by
  have hall : ∀ c ∈ more.reverse, decide (c ≠ lineBreak) = true := by
    intro c hc
    apply decide_eq_true
    intro he
    apply h
    rwa [he, List.mem_reverse] at hc
  have hcount : more.count lineBreak = 0 := List.count_eq_zero.2 h
  unfold placeAfter Position.right
  rw [List.count_append, hcount, List.reverse_append, List.takeWhile_append_of_pos hall,
    List.length_append, List.length_reverse]
  simp only [Position.mk.injEq]
  omega

/-- A run of line breaks in a gap starts as many lines. -/
theorem placeAfter_lineBreaks {text more : List (Char × Bool)} (h : ∀ c ∈ more, c = lineBreak)
    (hne : more ≠ []) : placeAfter (text ++ more) = (placeAfter text).down more.length := by
  have hcount : more.count lineBreak = more.length :=
    List.count_eq_length.2 fun c hc => (h c hc).symm
  obtain ⟨c, cs, hcs⟩ := List.exists_cons_of_ne_nil (List.reverse_ne_nil_iff.2 hne)
  have hc : c = lineBreak := h c (by rw [← List.mem_reverse, hcs]; simp)
  unfold placeAfter Position.down
  rw [List.count_append, hcount, List.reverse_append, hcs, List.cons_append,
    List.takeWhile_cons_of_neg (by simp [hc])]
  simp only [Position.mk.injEq, List.length_nil]
  omega

/-- Whether a place comes before another: on a line further up, or further left on the same. -/
def Position.Precedes (p q : Position) : Prop :=
  p.line < q.line ∨ p.line = q.line ∧ p.column < q.column

/-- Behind more text is a place further on. -/
theorem precedes_placeAfter {text more : List (Char × Bool)} (hne : more ≠ []) :
    (placeAfter text).Precedes (placeAfter (text ++ more)) := by
  by_cases h : lineBreak ∈ more
  · have hpos : 0 < more.count lineBreak := List.count_pos_iff.2 h
    left
    simp only [placeAfter, List.count_append]
    omega
  · have hpos : 0 < more.length := List.length_pos_iff.2 hne
    right
    rw [placeAfter_append h]
    refine ⟨rfl, ?_⟩
    simp only [Position.right]
    omega

/-! ## String literals -/

theorem splitQuoted_ne_nil {cs rest : List Char} : splitQuoted cs ≠ some ([], rest) := by
  intro h
  fun_cases splitQuoted cs <;> simp_all [splitQuoted]

theorem Escape.meaning?_eq_some_iff {d e : Char} :
    Escape.meaning? d = some e ↔ (d, e) ∈ escapes := by
  simp only [escapes, List.mem_cons, List.not_mem_nil, or_false, Prod.mk.injEq]
  constructor
  · intro h
    unfold Escape.meaning? at h
    split at h <;> cases h <;> simp
  · rintro (⟨rfl, rfl⟩ | ⟨rfl, rfl⟩ | ⟨rfl, rfl⟩ | ⟨rfl, rfl⟩ | ⟨rfl, rfl⟩ | ⟨rfl, rfl⟩ |
      ⟨rfl, rfl⟩)
    all_goals rfl

theorem Escape.meaning?_eq_none_iff {d : Char} :
    Escape.meaning? d = none ↔ ∀ e, (d, e) ∉ escapes := by
  simp only [← Escape.meaning?_eq_some_iff, Option.eq_none_iff_forall_ne_some]

/-- The escapes of a closed literal are resolved as its text is made. -/
theorem resolves_of_decode {cs piece rest inner : List Char} {position : Position}
    (hs : splitQuoted cs = some (piece, rest)) (hd : Escape.decode position piece = .ok inner) :
    Resolves piece (inner ++ ['"']) := by
  have hquote : Resolves ['"'] ['"'] := .plain (by decide) .nil
  fun_induction splitQuoted cs generalizing piece rest inner position with
  | case1 => simp at hs
  | case2 =>
    cases hs
    cases hd
    exact hquote
  | case3 => simp at hs
  | case4 =>
    cases hs
    cases hd
    exact hquote
  | case5 d more piece₁ left hs' _ ih =>
    cases hs
    rw [Escape.decode, if_pos rfl] at hd
    split at hd
    · cases hd
    · rename_i e he
      split at hd
      · cases hd
      · rename_i hd'
        cases hd
        exact .pair (Escape.meaning?_eq_some_iff.1 he) (ih hs' hd')
  | case6 => simp at hs
  | case7 c d more _ hc piece₁ left hs' ih =>
    cases hs
    cases piece₁ with
    | nil => exact absurd hs' splitQuoted_ne_nil
    | cons d' more' =>
      rw [Escape.decode, if_neg hc] at hd
      split at hd
      · cases hd
      · rename_i hd'
        cases hd
        exact .plain hc (ih hs' hd')
  | case8 => simp at hs

/-- The text of a token spells the piece that its rule has taken. -/
theorem spells_of_split? {rule : Rule} {kind : Kind} {cs piece rest text : List Char}
    {position : Position} (hs : rule.split? cs = some (piece, rest)) (hk : rule.kind? = some kind)
    (ht : rule.textOf position piece = .ok text) :
    Spells piece ⟨kind, String.ofList text, position⟩ := by
  unfold Spells
  rw [String.toList_ofList]
  cases rule with
  | string =>
    cases hk
    rw [if_pos rfl]
    cases cs with
    | nil => simp [Rule.split?, splitString] at hs
    | cons c cs =>
      simp only [Rule.split?, splitString] at hs
      split at hs
      · rename_i hc
        split at hs
        · rename_i hq
          cases hs
          simp only [Rule.textOf, Escape.decodeLiteral, List.tail_cons] at ht
          split at ht
          · cases ht
          · rename_i hd
            cases ht
            rw [hc, List.cons_append]
            exact .plain (by decide) (resolves_of_decode hq hd)
        · cases hs
      · cases hs
  | newlines => cases hk
  | _ =>
    cases hk
    cases ht
    rw [if_neg (by simp)]

/-! ## Cutting a text -/

/-- Pieces that are the lexemes of some tokens with the gaps behind them, where `text` stands in
front of them. -/
inductive Fits : List (Char × Bool) → List Piece → List Token → Prop where
  | nil {text : List (Char × Bool)} : Fits text [] []
  | cons {text : List (Char × Bool)} {p : Piece} {ps : List Piece} {t : Token} {ts : List Token}
      (hne : p.lexeme ≠ []) (hgap : ∀ c ∈ p.gap, isLayout c = true) (hs : Spells p.lexeme t)
      (hp : t.position = placeAfter text) (h : Fits (text ++ p.marked) ps ts) :
      Fits text (p :: ps) (t :: ts)

theorem lineBreak_not_mem_lexeme (piece : List Char) : lineBreak ∉ piece.map (·, false) := by
  simp [lineBreak]

/-- A rule that makes no token takes line breaks. -/
theorem eq_newline_of_split? {rule : Rule} {cs piece rest : List Char}
    (h : rule.split? cs = some (piece, rest)) (hk : rule.kind? = none) : ∀ c ∈ piece, c = '\n' := by
  cases rule with
  | newlines =>
    have hrun : splitRun (· = '\n') (· = '\n') cs = some (piece, rest) := h
    obtain ⟨d, ds, rfl, hd, hds⟩ := all_of_splitRun hrun
    refine List.forall_mem_cons.2 ⟨of_decide_eq_true hd, fun c hc => ?_⟩
    exact of_decide_eq_true (List.all_eq_true.1 hds c hc)
  | _ => cases hk

/-- The place behind a blank. -/
theorem placeAfter_blank {c : Char} (hb : isBlank c = true) (text : List (Char × Bool)) :
    (placeAfter text).right 1 = placeAfter (text ++ [(c, true)]) := by
  have hc : lineBreak ∉ [(c, true)] := by
    intro hc
    simp only [lineBreak, List.mem_singleton, Prod.mk.injEq, and_true] at hc
    rw [← hc] at hb
    exact absurd hb (by decide)
  exact (placeAfter_append hc).symm

/-- The place behind what makes no token. -/
theorem placeAfter_newlines {rule : Rule} {cs piece rest : List Char}
    (h : rule.split? cs = some (piece, rest)) (hk : rule.kind? = none)
    (text : List (Char × Bool)) :
    (placeAfter text).down piece.length = placeAfter (text ++ piece.map (·, true)) := by
  have hmarks : ∀ c ∈ piece.map (·, true), c = lineBreak := by
    intro c hc
    obtain ⟨d, hd, rfl⟩ := List.mem_map.1 hc
    rw [eq_newline_of_split? h hk d hd]
    rfl
  have hne : piece ≠ [] := (Rule.append_of_split? h).2
  rw [placeAfter_lineBreaks hmarks (by simpa using hne), List.length_map]

/-- The place behind a lexeme. -/
theorem placeAfter_lexeme (piece : List Char) (text : List (Char × Bool)) :
    (placeAfter text).right piece.length = placeAfter (text ++ piece.map (·, false)) := by
  rw [placeAfter_append (lineBreak_not_mem_lexeme piece), List.length_map]

/-- The text behind a given one is cut at its tokens. -/
theorem exists_fits {text : List (Char × Bool)} {cs : List Char} {position : Position}
    (hp : position = placeAfter text) (h : (tokenizeFrom position cs).fault = none) :
    ∃ first pieces, cs = first ++ pieces.flatMap Piece.text ∧
      (∀ c ∈ first, isLayout c = true) ∧
        Fits (text ++ first.map (·, true)) pieces (tokenizeFrom position cs).tokens := by
  fun_induction tokenizeFrom position cs generalizing text with
  | case1 => exact ⟨[], [], rfl, by simp, .nil⟩
  | case2 position c cs hb ih =>
    obtain ⟨first, pieces, rfl, hfirst, hfits⟩ := ih (hp ▸ placeAfter_blank hb text) h
    refine ⟨c :: first, pieces, rfl, List.forall_mem_cons.2 ⟨by simp [isLayout, hb], hfirst⟩, ?_⟩
    simpa using hfits
  | case3 => cases h
  | case4 position c cs hb rule piece rest hf hk ih =>
    have hs := Rule.split?_of_first? hf
    obtain ⟨first, pieces, rfl, hfirst, hfits⟩ := ih (hp ▸ placeAfter_newlines hs hk text) h
    refine ⟨piece ++ first, pieces, by rw [← (Rule.append_of_split? hs).1, List.append_assoc], ?_,
      by simpa using hfits⟩
    refine List.forall_mem_append.2 ⟨fun c hc => ?_, hfirst⟩
    rw [eq_newline_of_split? hs hk c hc]
    decide
  | case5 => cases h
  | case6 position c cs hb rule piece rest hf kind hk written ht ih =>
    have hs := Rule.split?_of_first? hf
    obtain ⟨happend, hne⟩ := Rule.append_of_split? hs
    obtain ⟨first, pieces, rfl, hfirst, hfits⟩ := ih (hp ▸ placeAfter_lexeme piece text) h
    refine ⟨[], ⟨piece, first⟩ :: pieces, ?_, by simp, ?_⟩
    · rw [← happend, List.nil_append, List.flatMap_cons, Piece.text, List.append_assoc]
    · refine .cons hne hfirst (spells_of_split? hs hk ht) (by simpa using hp) ?_
      simpa [Piece.marked] using hfits

/-! ## The pieces of the tokens -/

namespace Fits

variable {text : List (Char × Bool)} {pieces : List Piece} {tokens : List Token}

theorem length_eq (h : Fits text pieces tokens) : pieces.length = tokens.length := by
  induction h with
  | nil => rfl
  | cons _ _ _ _ _ ih => rw [List.length_cons, List.length_cons, ih]

theorem lexeme_ne_nil (h : Fits text pieces tokens) : ∀ p ∈ pieces, p.lexeme ≠ [] := by
  induction h with
  | nil => simp
  | cons hne _ _ _ _ ih => exact List.forall_mem_cons.2 ⟨hne, ih⟩

theorem isLayout_gap (h : Fits text pieces tokens) :
    ∀ p ∈ pieces, ∀ c ∈ p.gap, isLayout c = true := by
  induction h with
  | nil => simp
  | cons _ hgap _ _ _ ih => exact List.forall_mem_cons.2 ⟨hgap, ih⟩

/-- Each token spells the lexeme of its piece, at the place behind the pieces before it. -/
theorem getElem? (h : Fits text pieces tokens) {i : Nat} {p : Piece} {t : Token}
    (hi : pieces[i]? = some p) (ht : tokens[i]? = some t) :
    Spells p.lexeme t ∧
      t.position = placeAfter (text ++ (pieces.take i).flatMap Piece.marked) := by
  induction h generalizing i with
  | nil => simp at hi
  | cons _ _ hs hp _ ih =>
    cases i with
    | zero =>
      cases hi
      cases ht
      exact ⟨hs, by simpa using hp⟩
    | succ i =>
      have := ih (by simpa using hi) (by simpa using ht)
      simpa using this

/-- Every token stands behind all the text that is in front of it. -/
theorem exists_position (h : Fits text pieces tokens) {t : Token} (ht : t ∈ tokens) :
    ∃ more, t.position = placeAfter (text ++ more) := by
  induction h with
  | nil => simp at ht
  | @cons text p _ _ _ _ _ _ hp _ ih =>
    rcases List.mem_cons.1 ht with rfl | ht
    · exact ⟨[], by simpa using hp⟩
    · obtain ⟨more, hmore⟩ := ih ht
      exact ⟨p.marked ++ more, by rw [← List.append_assoc, hmore]⟩

/-- Each token comes before all later ones. -/
theorem pairwise_precedes (h : Fits text pieces tokens) :
    tokens.Pairwise fun t u => t.position.Precedes u.position := by
  induction h with
  | nil => exact .nil
  | @cons text p _ _ _ hne _ _ hp h ih =>
    refine .cons (fun u hu => ?_) ih
    obtain ⟨more, hmore⟩ := h.exists_position hu
    rw [hp, hmore, List.append_assoc]
    exact precedes_placeAfter (by simp [Piece.marked, hne])

end Fits

/-- A source text without a lexical fault is cut without loss into gaps and lexemes, one lexeme for
each token.  The token stands at the place behind all the text before its lexeme, so the places of
the tokens go up. -/
theorem tokenize_partition {source : String} (h : (tokenize source).fault = none) :
    ∃ (first : List Char) (pieces : List Piece),
      source.toList = first ++ pieces.flatMap Piece.text ∧
      pieces.length = (tokenize source).tokens.length ∧
      (∀ c ∈ first, isLayout c = true) ∧
      (∀ p ∈ pieces, p.lexeme ≠ [] ∧ ∀ c ∈ p.gap, isLayout c = true) ∧
      (∀ (i : Nat) (p : Piece) (t : Token), pieces[i]? = some p →
        (tokenize source).tokens[i]? = some t →
          Spells p.lexeme t ∧ t.position = placeAfter (before first pieces i)) ∧
      (tokenize source).tokens.Pairwise fun t u => t.position.Precedes u.position := by
  obtain ⟨first, pieces, hcut, hfirst, hfits⟩ := exists_fits placeAfter_nil.symm h
  refine ⟨first, pieces, hcut, hfits.length_eq, hfirst, fun p hp => ?_, fun i p t hi ht => ?_,
    hfits.pairwise_precedes⟩
  · exact ⟨hfits.lexeme_ne_nil p hp, hfits.isLayout_gap p hp⟩
  · simpa [before] using hfits.getElem? hi ht

theorem tokenize_partition_of_lines :
    (tokenize "x\n = \"\n\\n\"").fault = none ∧
      ∃ (first : List Char) (pieces : List Piece),
        "x\n = \"\n\\n\"".toList = first ++ pieces.flatMap Piece.text ∧ pieces.length = 3 := by
  have h : (tokenize "x\n = \"\n\\n\"").fault = none := by decide +kernel
  obtain ⟨first, pieces, hcut, hlen, _⟩ := tokenize_partition h
  exact ⟨h, first, pieces, hcut, hlen.trans (by decide +kernel)⟩

end MiniLang
