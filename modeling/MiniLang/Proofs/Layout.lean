import Mathlib.Data.List.Forall2
import MiniLang.Proofs.Partition
/-!
# Written tokens

The way from tokens back to a source text: each text is written as a lexeme, and layout stands
between the lexemes.  Layout ends every lexeme, so a text that is laid out like this is cut where it
was put together, and lexing it gives back the kinds and the texts that were written
(`tokenize_written`).
-/

set_option autoImplicit false

namespace MiniLang

/-! ## How texts are written -/

/-- How the inner text of a string is written.  A backslash and a quote are always escaped; any
other character stands for itself or is written as its escape, if it has one. -/
inductive Escaped : List Char → List Char → Prop where
  | nil : Escaped [] []
  | plain {c : Char} {cs ds : List Char} (hq : c ≠ '"') (hb : c ≠ '\\') (h : Escaped cs ds) :
      Escaped (c :: cs) (c :: ds)
  | pair {c d : Char} {cs ds : List Char} (hm : (d, c) ∈ escapes) (h : Escaped cs ds) :
      Escaped (c :: cs) ('\\' :: d :: ds)

/-- How a text of a kind is written.  Between the quotes of a string stands its inner text with
escapes; every other text is written as it is. -/
inductive Written : Kind → List Char → List Char → Prop where
  | string {inner body : List Char} (h : Escaped inner body) :
      Written .string ('"' :: (inner ++ ['"'])) ('"' :: (body ++ ['"']))
  | plain {kind : Kind} {text : List Char} (hk : kind ≠ .string) : Written kind text text

theorem exists_escaped (inner : List Char) : ∃ body, Escaped inner body := by
  induction inner with
  | nil => exact ⟨[], .nil⟩
  | cons c cs ih =>
    obtain ⟨body, h⟩ := ih
    by_cases hq : c = '"'
    · exact ⟨_, .pair (d := '"') (by rw [hq]; decide) h⟩
    · by_cases hb : c = '\\'
      · exact ⟨_, .pair (d := '\\') (by rw [hb]; decide) h⟩
      · exact ⟨_, .plain hq hb h⟩

/-- Every text of a kind can be written. -/
theorem exists_written {kind : Kind} {text : List Char} (h : kind.admits text = true) :
    ∃ lexeme, Written kind text lexeme := by
  by_cases hk : kind = .string
  · subst hk
    cases text with
    | nil => cases h
    | cons c cs =>
      simp only [Kind.admits, Bool.and_eq_true, decide_eq_true_eq] at h
      obtain ⟨rfl, hlast⟩ := h
      obtain ⟨inner, rfl⟩ := List.getLast?_eq_some_iff.1 hlast
      obtain ⟨body, hbody⟩ := exists_escaped inner
      exact ⟨_, .string hbody⟩
  · exact ⟨text, .plain hk⟩

/-- A text that no lexeme goes on into: it is empty or begins with layout. -/
def Apart (rest : List Char) : Prop := ∀ c ∈ rest.head?, isLayout c = true

/-! ## What a rule takes off a written text -/

/-- No layout is a part of a name or of a number, or the second half of an operator. -/
theorem class_of_isLayout {c : Char} (h : isLayout c = true) :
    isNamePart c = false ∧ c.isDigit = false ∧ c ≠ '=' := by
  simp only [isLayout, isBlank, Bool.or_eq_true, decide_eq_true_eq] at h
  rcases h with ((rfl | rfl) | rfl) | rfl <;> decide

/-- A run ends where layout begins. -/
theorem span_append {p : Char → Bool} {text rest : List Char} (ht : text.all p = true)
    (hr : ∀ c ∈ rest.head?, p c = false) :
    (text ++ rest).takeWhile p = text ∧ (text ++ rest).dropWhile p = rest := by
  rw [List.all_eq_true] at ht
  cases rest with
  | nil => simpa using ht
  | cons c rest =>
    have hc := hr c rfl
    constructor
    · rw [List.takeWhile_append_of_pos ht, List.takeWhile_cons_of_neg (by simp [hc]),
        List.append_nil]
    · rw [List.dropWhile_append_of_pos ht, List.dropWhile_cons_of_neg (by simp [hc])]

theorem splitRun_append {first more : Char → Bool} {c : Char} {cs rest : List Char}
    (hc : first c = true) (hcs : cs.all more = true) (hr : ∀ d ∈ rest.head?, more d = false) :
    splitRun first more (c :: cs ++ rest) = some (c :: cs, rest) := by
  obtain ⟨htake, hdrop⟩ := span_append hcs hr
  rw [List.cons_append, splitRun, if_pos hc, htake, hdrop]

/-- A word that no name character follows is a whole word. -/
theorem splitWholeWord_append (word : List Char) {rest : List Char}
    (hr : ∀ c ∈ rest.head?, isNamePart c = false) :
    splitWholeWord word (word ++ rest) = some (word, rest) := by
  unfold splitWholeWord
  rw [splitWord_append]
  cases rest with
  | nil => rfl
  | cons c rest => simp [hr c rfl]

/-- A whole word is all of the run of name characters that it begins. -/
theorem eq_of_splitWholeWord {word text rest piece left : List Char}
    (hw : word.all isNamePart = true) (ht : text.all isNamePart = true)
    (hr : ∀ c ∈ rest.head?, isNamePart c = false)
    (h : splitWholeWord word (text ++ rest) = some (piece, left)) : word = text := by
  have hsplit := append_of_splitWholeWord h
  have hleft : ∀ c ∈ left.head?, isNamePart c = false := by
    unfold splitWholeWord at h
    split at h
    · cases h
      simp
    · split at h
      · cases h
      · rename_i hc
        cases h
        simpa using hc
    · cases h
  have htake := (span_append ht hr).1
  rw [← hsplit.1, hsplit.2, (span_append hw hleft).1] at htake
  exact htake

theorem all_isNamePart_of_mem {word : String} (h : word ∈ keywords) :
    word.toList.all isNamePart = true := by
  have hall : ∀ word ∈ keywords, word.toList.all isNamePart = true := by decide
  exact hall word h

/-- A run of name characters that is no keyword does not begin with one. -/
theorem split?_keyword_eq_none {text rest : List Char} (ht : text.all isNamePart = true)
    (hk : isKeyword text = false) (hr : ∀ c ∈ rest.head?, isNamePart c = false) :
    Rule.keyword.split? (text ++ rest) = none := by
  rw [Rule.split?, List.findSome?_eq_none_iff]
  intro word hw
  cases hs : splitWholeWord word.toList (text ++ rest) with
  | none => rfl
  | some split =>
    have heq := eq_of_splitWholeWord (all_isNamePart_of_mem hw) ht hr hs
    rw [isKeyword, List.any_eq_false] at hk
    exact absurd (decide_eq_true heq) (hk word hw)

/-- A keyword that no name character follows is found among the keywords: any of them that begins
the text is all of it. -/
theorem split?_keyword_append {text rest : List Char} (h : isKeyword text = true)
    (hr : ∀ c ∈ rest.head?, isNamePart c = false) :
    Rule.keyword.split? (text ++ rest) = some (text, rest) := by
  obtain ⟨word, hw, hword⟩ := List.any_eq_true.1 h
  have hword : word.toList = text := of_decide_eq_true hword
  have htext : text.all isNamePart = true := hword ▸ all_isNamePart_of_mem hw
  have hsome : (Rule.keyword.split? (text ++ rest)).isSome := by
    rw [Rule.split?, List.isSome_findSome?, List.any_eq_true]
    exact ⟨word, hw, by rw [hword, splitWholeWord_append text hr]; rfl⟩
  obtain ⟨split, hs⟩ := Option.isSome_iff_exists.1 hsome
  obtain ⟨other, ho, hfound⟩ := List.exists_of_findSome?_eq_some hs
  have heq := eq_of_splitWholeWord (all_isNamePart_of_mem ho) htext hr hfound
  rw [heq, splitWholeWord_append text hr] at hfound
  rw [hs, hfound]

/-- What begins with no name character is no word. -/
theorem split?_word_eq_none {c : Char} (cs : List Char) (hc : isNameStart c = false) :
    Rule.keyword.split? (c :: cs) = none ∧ Rule.identifier.split? (c :: cs) = none := by
  have hstart : ∀ word ∈ keywords, ∃ d ds, word.toList = d :: ds ∧ isNameStart d = true := by
    intro word hw
    exact exists_isNameStart_of_isKeyword (List.any_eq_true.2 ⟨word, hw, by simp⟩)
  constructor
  · rw [Rule.split?, List.findSome?_eq_none_iff]
    intro word hw
    cases hs : splitWholeWord word.toList (c :: cs) with
    | none => rfl
    | some split =>
      obtain ⟨d, ds, hword, hd⟩ := hstart word hw
      obtain ⟨happend, hpiece⟩ := append_of_splitWholeWord hs
      rw [hpiece, hword, List.cons_append] at happend
      rw [(List.cons.inj happend).1, hc] at hd
      cases hd
  · simp [Rule.split?, splitRun, hc]

theorem splitInteger_eq_none {c : Char} {cs : List Char} (hc : c.isDigit = false)
    (hcs : ∀ d ∈ cs.head?, d.isDigit = false) : splitInteger (c :: cs) = none := by
  have hrun : splitRun Char.isDigit Char.isDigit cs = none := by
    cases cs with
    | nil => rfl
    | cons d ds => simp [splitRun, hcs d rfl]
  simp only [splitInteger, hrun]
  simp [splitRun, hc]

/-- The rule that is used is the first of those that apply. -/
theorem Rule.first?_eq_some (earlier : List Rule) {rule : Rule} {later : List Rule} {cs : List Char}
    {split : Split} (ho : Rule.order = earlier ++ rule :: later)
    (he : ∀ r ∈ earlier, r.split? cs = none) (hs : rule.split? cs = some split) :
    Rule.first? cs = some (rule, split) := by
  have hnone : (earlier.findSome? fun r => (r.split? cs).map fun split => (r, split)) = none := by
    rw [List.findSome?_eq_none_iff]
    intro r hr
    rw [he r hr, Option.map_none]
  rw [Rule.first?, ho, List.findSome?_append, hnone, Option.none_or, List.findSome?_cons, hs,
    Option.map_some]

/-- No rule for longer lexemes applies where a mark stands by itself. -/
theorem split?_mark_eq_none {c : Char} {cs : List Char}
    (hc : isOperation c = true ∨ isComparisonStart c = true ∨ isSpecial c = true)
    (hcs : ∀ d ∈ cs.head?, d.isDigit = false) :
    ∀ rule ∈ [Rule.keyword, .identifier, .integer, .newlines, .string],
      rule.split? (c :: cs) = none := by
  obtain ⟨hname, hdigit⟩ := class_of_mark (hc.imp_right (Or.imp_right .inl))
  have hne : c ≠ '\n' ∧ c ≠ '"' := by
    constructor <;> rintro rfl <;> revert hc <;> decide
  obtain ⟨hkeyword, hidentifier⟩ := split?_word_eq_none cs hname
  intro rule hr
  simp only [List.mem_cons, List.not_mem_nil, or_false] at hr
  rcases hr with rfl | rfl | rfl | rfl | rfl
  · exact hkeyword
  · exact hidentifier
  · exact splitInteger_eq_none hdigit hcs
  · simp [Rule.split?, splitRun, hne.1]
  · simp [Rule.split?, splitString, hne.2]

theorem split?_comparison_eq_none {c : Char} {cs : List Char} (hcs : '=' ∉ cs.head?) :
    Rule.comparison.split? (c :: cs) = none := by
  cases cs with
  | nil => rfl
  | cons d ds =>
    have hd : d ≠ '=' := by rintro rfl; exact hcs rfl
    simp [Rule.split?, splitComparison, hd]

/-! ## String literals -/

theorem splitQuoted_of_escaped {inner body : List Char} (h : Escaped inner body)
    (rest : List Char) :
    splitQuoted (body ++ '"' :: rest) = some (body ++ ['"'], rest) := by
  induction h with
  | nil => cases rest <;> rfl
  | @plain c cs ds hq hb _ ih =>
    -- at least the closing quote follows
    obtain ⟨d, ds', hd⟩ : ∃ d ds', ds ++ '"' :: rest = d :: ds' := by cases ds <;> exact ⟨_, _, rfl⟩
    rw [List.cons_append, hd, splitQuoted, if_neg hq, if_neg hb, ← hd, ih]
    rfl
  | pair _ _ ih =>
    rw [List.cons_append, List.cons_append, splitQuoted, if_neg (by decide), if_pos rfl, ih]
    rfl

theorem decode_of_escaped {inner body : List Char} (h : Escaped inner body) (position : Position) :
    Escape.decode position (body ++ ['"']) = .ok inner := by
  induction h generalizing position with
  | nil => rfl
  | @plain c cs ds _ hb _ ih =>
    obtain ⟨d, ds', hd⟩ : ∃ d ds', ds ++ ['"'] = d :: ds' := by cases ds <;> exact ⟨_, _, rfl⟩
    rw [List.cons_append, hd, Escape.decode, if_neg hb, ← hd, ih]
  | pair hm _ ih =>
    rw [List.cons_append, List.cons_append, Escape.decode, if_pos rfl,
      Escape.meaning?_eq_some_iff.2 hm]
    simp only [ih]

/-! ## Written texts are lexed -/

/-- What the lexer makes of a lexeme. -/
def LexesTo (lexeme : List Char) (kind : Kind) (text rest : List Char) : Prop :=
  ∃ rule, Rule.first? (lexeme ++ rest) = some (rule, (lexeme, rest)) ∧ rule.kind? = some kind ∧
    ∀ position, rule.textOf position lexeme = .ok text

/-- A lexeme that is no string is its own text. -/
theorem lexesTo_of_first? {lexeme rest : List Char} {kind : Kind} (rule : Rule)
    (h : Rule.first? (lexeme ++ rest) = some (rule, (lexeme, rest)))
    (hk : rule.kind? = some kind) (hs : kind ≠ .string) : LexesTo lexeme kind lexeme rest := by
  refine ⟨rule, h, hk, fun position => ?_⟩
  cases rule with
  | string => cases hk; exact absurd rfl hs
  | _ => rfl

/-- Layout ends a name. -/
theorem Apart.isNamePart_eq_false {rest : List Char} (h : Apart rest) :
    ∀ c ∈ rest.head?, isNamePart c = false :=
  fun c hc => (class_of_isLayout (h c hc)).1

theorem lexesTo_keyword {text rest : List Char} (h : isKeyword text = true) (hr : Apart rest) :
    LexesTo text .keyword text rest :=
  lexesTo_of_first? .keyword (Rule.first?_eq_some [] rfl (by simp)
    (split?_keyword_append h hr.isNamePart_eq_false)) rfl (by decide)

theorem lexesTo_identifier {c : Char} {cs rest : List Char} (hc : isNameStart c = true)
    (hcs : cs.all isNamePart = true) (hk : isKeyword (c :: cs) = false) (hr : Apart rest) :
    LexesTo (c :: cs) .identifier (c :: cs) rest := by
  have hpart := hr.isNamePart_eq_false
  refine lexesTo_of_first? .identifier (Rule.first?_eq_some [.keyword] rfl ?_
    (splitRun_append hc hcs hpart)) rfl (by decide)
  have hall : (c :: cs).all isNamePart = true := by simp [isNamePart, hc, hcs]
  exact List.forall_mem_singleton.2 (split?_keyword_eq_none hall hk hpart)

theorem lexesTo_integer {text rest : List Char} (h : isDecimal text = true) (hr : Apart rest) :
    LexesTo text .integer text rest := by
  have hdigits : ∀ {d : Char} {ds : List Char}, d.isDigit = true → ds.all Char.isDigit = true →
      splitRun Char.isDigit Char.isDigit (d :: ds ++ rest) = some (d :: ds, rest) := fun hd hds =>
    splitRun_append hd hds fun e he => (class_of_isLayout (hr e he)).2.1
  cases text with
  | nil => cases h
  | cons c digits =>
    have hsplit : isNameStart c = false ∧
        Rule.integer.split? (c :: digits ++ rest) = some (c :: digits, rest) := by
      rw [isDecimal] at h
      split at h
      · rename_i hc
        subst hc
        cases digits with
        | nil => cases h
        | cons d ds =>
          simp only [List.isEmpty_cons, Bool.not_false, Bool.true_and, List.all_cons,
            Bool.and_eq_true] at h
          refine ⟨by decide, ?_⟩
          rw [Rule.split?, List.cons_append, splitInteger, if_pos rfl, hdigits h.1 h.2]
      · rename_i hc
        rw [Bool.and_eq_true] at h
        refine ⟨isNameStart_eq_false_of_isDigit h.1, ?_⟩
        rw [Rule.split?, List.cons_append, splitInteger, if_neg hc, ← List.cons_append,
          hdigits h.1 h.2]
    obtain ⟨hkeyword, hidentifier⟩ := split?_word_eq_none (digits ++ rest) hsplit.1
    refine lexesTo_of_first? .integer
      (Rule.first?_eq_some [.keyword, .identifier] rfl ?_ hsplit.2) rfl (by decide)
    rw [List.forall_mem_cons, List.forall_mem_singleton]
    exact ⟨hkeyword, hidentifier⟩

theorem lexesTo_string {inner body : List Char} (h : Escaped inner body) (rest : List Char) :
    LexesTo ('"' :: (body ++ ['"'])) .string ('"' :: (inner ++ ['"'])) rest := by
  have hsplit : Rule.string.split? ('"' :: (body ++ ['"']) ++ rest) =
      some ('"' :: (body ++ ['"']), rest) := by
    rw [List.cons_append, List.append_assoc, List.singleton_append, Rule.split?, splitString,
      if_pos rfl, splitQuoted_of_escaped h]
  obtain ⟨hkeyword, hidentifier⟩ :=
    split?_word_eq_none (c := '"') (body ++ ['"'] ++ rest) (by decide)
  refine ⟨.string, Rule.first?_eq_some [.keyword, .identifier, .integer, .newlines]
    rfl ?_ hsplit, rfl, fun position => ?_⟩
  · intro rule hr
    simp only [List.mem_cons, List.not_mem_nil, or_false] at hr
    rcases hr with rfl | rfl | rfl | rfl
    · exact hkeyword
    · exact hidentifier
    · rfl
    · rfl
  · rw [Rule.textOf, Escape.decodeLiteral, List.tail_cons, decode_of_escaped h]
    rfl

theorem lexesTo_comparison {c : Char} (h : isComparisonStart c = true) (rest : List Char) :
    LexesTo [c, '='] .comparison [c, '='] rest := by
  refine lexesTo_of_first? .comparison
    (Rule.first?_eq_some [.keyword, .identifier, .integer, .newlines, .string] rfl
      (split?_mark_eq_none (.inr (.inl h)) (by simp)) ?_) rfl (by decide)
  simp [Rule.split?, splitComparison, h]

/-- A mark that stands by itself is taken by the first of the rules for marks that has it. -/
theorem lexesTo_mark {c : Char} {rest : List Char} (rule : Rule) (earlier : List Rule)
    {later : List Rule} {kind : Kind} {p : Char → Bool}
    (ho : Rule.order = .keyword :: .identifier :: .integer :: .newlines :: .string ::
      .comparison :: (earlier ++ rule :: later))
    (hs : ∀ cs, rule.split? cs = splitOne p cs) (hk : rule.kind? = some kind) (hne : kind ≠ .string)
    (hc : isOperation c = true ∨ isComparisonStart c = true ∨ isSpecial c = true)
    (hp : p c = true) (he : ∀ r ∈ earlier, ∀ cs, r.split? (c :: cs) = none) (hr : Apart rest) :
    LexesTo [c] kind [c] rest := by
  have hlonger := split?_mark_eq_none hc fun d hd => (class_of_isLayout (hr d hd)).2.1
  have hcomparison : Rule.comparison.split? (c :: rest) = none :=
    split?_comparison_eq_none fun hd => (class_of_isLayout (hr _ hd)).2.2 rfl
  refine lexesTo_of_first? rule (Rule.first?_eq_some
    ([.keyword, .identifier, .integer, .newlines, .string] ++ .comparison :: earlier)
    ho ?_ ?_) hk hne
  · rw [List.singleton_append]
    intro r hr
    rcases List.mem_append.1 hr with hr | hr
    · exact hlonger r hr
    · rcases List.mem_cons.1 hr with rfl | hr
      · exact hcomparison
      · exact he r hr rest
  · rw [hs, List.singleton_append, splitOne, if_pos hp]

theorem lexesTo_operation {c : Char} {rest : List Char} (h : isOperation c = true)
    (hr : Apart rest) : LexesTo [c] .operation [c] rest :=
  lexesTo_mark .operation [] rfl (fun _ => rfl) rfl (by decide) (.inl h) h (by simp) hr

theorem lexesTo_special {c : Char} {rest : List Char} (h : isSpecial c = true) (hr : Apart rest) :
    LexesTo [c] .special [c] rest := by
  have hoperation : isOperation c = false := by
    simp only [isSpecial, List.contains_eq_mem, List.mem_cons, List.not_mem_nil, or_false,
      decide_eq_true_eq] at h
    rcases h with rfl | rfl | rfl | rfl | rfl | rfl <;> decide
  refine lexesTo_mark .special [.operation] rfl (fun _ => rfl) rfl (by decide)
    (.inr (.inr h)) h (List.forall_mem_singleton.2 fun cs => ?_) hr
  simp [Rule.split?, splitOne, hoperation]

theorem lexesTo_assign {rest : List Char} (hr : Apart rest) :
    LexesTo ['='] .assign ['='] rest := by
  refine lexesTo_mark .assign [.operation, .special] rfl (fun _ => rfl) rfl (by decide)
    (.inr (.inl (by decide))) (by decide) ?_ hr
  rw [List.forall_mem_cons, List.forall_mem_singleton]
  exact ⟨fun _ => rfl, fun _ => rfl⟩

/-- A written text is lexed back wherever layout or the end follows. -/
theorem lexesTo_of_written {kind : Kind} {text lexeme rest : List Char}
    (ha : kind.admits text = true) (hw : Written kind text lexeme) (hr : Apart rest) :
    LexesTo lexeme kind text rest := by
  cases hw with
  | string h => exact lexesTo_string h rest
  | plain hk =>
    unfold Kind.admits at ha
    split at ha
    · exact lexesTo_keyword ha hr
    · simp only [Bool.and_eq_true, Bool.not_eq_true'] at ha
      exact lexesTo_identifier ha.1.1 ha.1.2 ha.2 hr
    · exact lexesTo_operation ha hr
    · rename_i c d
      simp only [Bool.and_eq_true, decide_eq_true_eq] at ha
      obtain ⟨hc, rfl⟩ := ha
      exact lexesTo_comparison hc rest
    · rw [decide_eq_true_eq] at ha
      subst ha
      exact lexesTo_assign hr
    · exact lexesTo_special ha hr
    · exact absurd rfl hk
    · exact lexesTo_integer ha hr
    · cases ha

/-! ## Layout -/

theorem first?_newline (cs : List Char) :
    Rule.first? ('\n' :: cs) =
      some (.newlines, ('\n' :: cs.takeWhile (· = '\n'), cs.dropWhile (· = '\n'))) := by
  obtain ⟨hkeyword, hidentifier⟩ := split?_word_eq_none (c := '\n') cs (by decide)
  refine Rule.first?_eq_some [.keyword, .identifier, .integer] rfl ?_ rfl
  intro rule hr
  simp only [List.mem_cons, List.not_mem_nil, or_false] at hr
  rcases hr with rfl | rfl | rfl
  · exact hkeyword
  · exact hidentifier
  · rfl

/-- What the first rule that applies makes of a text. -/
theorem tokenizeFrom_of_first? {position : Position} {c : Char} {cs piece rest : List Char}
    {rule : Rule} (hb : isBlank c = false)
    (h : Rule.first? (c :: cs) = some (rule, (piece, rest))) :
    tokenizeFrom position (c :: cs) =
      match rule.kind? with
      | none => tokenizeFrom (position.down piece.length) rest
      | some kind =>
        match rule.textOf position piece with
        | .error fault => ⟨[], some fault⟩
        | .ok text =>
          .cons ⟨kind, String.ofList text, position⟩
            (tokenizeFrom (position.right piece.length) rest) := by
  rw [tokenizeFrom, if_neg (by simp [hb])]
  split
  · rename_i hnone
    rw [h] at hnone
    cases hnone
  · rename_i hsome
    rw [h] at hsome
    cases hsome
    rfl

/-- Where no rule applies the text cannot be read. -/
theorem tokenizeFrom_of_first?_eq_none {position : Position} {c : Char} {cs : List Char}
    (hb : isBlank c = false) (h : Rule.first? (c :: cs) = none) :
    tokenizeFrom position (c :: cs) = ⟨[], some (unreadable position c cs)⟩ := by
  rw [tokenizeFrom, if_neg (by simp [hb])]
  split
  · rfl
  · rename_i hsome
    rw [h] at hsome
    cases hsome

/-- A line break begins a new line, whether it stands by itself or in a run of line breaks. -/
theorem tokenizeFrom_newline (position : Position) (cs : List Char) :
    tokenizeFrom position ('\n' :: cs) = tokenizeFrom (position.down 1) cs := by
  have hrun : ∀ (position : Position) (cs : List Char), tokenizeFrom position ('\n' :: cs) =
      tokenizeFrom (position.down ((cs.takeWhile (· = '\n')).length + 1))
        (cs.dropWhile (· = '\n')) := by
    intro position cs
    rw [tokenizeFrom_of_first? (by decide) (first?_newline cs)]
    rfl
  rw [hrun]
  cases cs with
  | nil => rfl
  | cons c cs =>
    by_cases hc : c = '\n'
    · subst hc
      rw [hrun, List.takeWhile_cons_of_pos (by simp), List.dropWhile_cons_of_pos (by simp),
        List.length_cons]
      congr 1
      simp only [Position.down, Position.mk.injEq, and_true]
      omega
    · rw [List.takeWhile_cons_of_neg (by simp [hc]), List.dropWhile_cons_of_neg (by simp [hc])]
      rfl

/-- Layout in front of a text makes no tokens. -/
theorem exists_tokenizeFrom_layout {gap : List Char} (hg : ∀ c ∈ gap, isLayout c = true)
    (position : Position) (cs : List Char) :
    ∃ position', tokenizeFrom position (gap ++ cs) = tokenizeFrom position' cs := by
  induction gap generalizing position with
  | nil => exact ⟨position, rfl⟩
  | cons c gap ih =>
    obtain ⟨hc, hg⟩ := List.forall_mem_cons.1 hg
    by_cases hb : isBlank c = true
    · rw [List.cons_append, tokenizeFrom, if_pos hb]
      exact ih hg (position.right 1)
    · have hn : c = '\n' := by simpa [isLayout, hb] using hc
      rw [List.cons_append, hn, tokenizeFrom_newline]
      exact ih hg (position.down 1)

/-- No rule takes a blank. -/
theorem isBlank_eq_false_of_split? {rule : Rule} {c : Char} {cs : List Char} {split : Split}
    (h : rule.split? (c :: cs) = some split) : isBlank c = false := by
  rw [Bool.eq_false_iff]
  intro hb
  simp only [isBlank, Bool.or_eq_true, decide_eq_true_eq] at hb
  have hname : isNameStart c = false := by rcases hb with (rfl | rfl) | rfl <;> decide
  obtain ⟨hkeyword, hidentifier⟩ := split?_word_eq_none cs hname
  cases rule with
  | keyword => rw [hkeyword] at h; cases h
  | identifier => rw [hidentifier] at h; cases h
  | comparison =>
    cases cs with
    | nil => cases h
    | cons d ds =>
      have hc : isComparisonStart c = false := by rcases hb with (rfl | rfl) | rfl <;> decide
      simp [Rule.split?, splitComparison, hc] at h
  | _ => rcases hb with (rfl | rfl) | rfl <;> cases h

/-- The token of a lexeme that is lexed to its kind and text. -/
theorem LexesTo.tokenizeFrom_eq {lexeme text rest : List Char} {kind : Kind}
    (h : LexesTo lexeme kind text rest) (position : Position) :
    tokenizeFrom position (lexeme ++ rest) =
      .cons ⟨kind, String.ofList text, position⟩
        (tokenizeFrom (position.right lexeme.length) rest) := by
  obtain ⟨rule, hfirst, hk, ht⟩ := h
  have hsplit := Rule.split?_of_first? hfirst
  obtain ⟨c, cs, hc⟩ := List.exists_cons_of_ne_nil (Rule.append_of_split? hsplit).2
  subst hc
  rw [List.cons_append] at hfirst hsplit ⊢
  rw [tokenizeFrom_of_first? (isBlank_eq_false_of_split? hsplit) hfirst, hk]
  simp only [ht]

/-! ## Written tokens are lexed back -/

/-- The kinds and texts of some tokens. -/
def Tokenized.words (tokenized : Tokenized) : List (Kind × String) :=
  tokenized.tokens.map fun t => (t.kind, t.text)

/-- Behind a piece that is not the last one, or whose gap is not empty, no lexeme goes on. -/
theorem apart_gap {p : Piece} {pieces : List Piece} (hg : ∀ c ∈ p.gap, isLayout c = true)
    (hne : p.gap ≠ [] ∨ pieces = []) : Apart (p.gap ++ pieces.flatMap Piece.text) := by
  intro c hc
  cases hgap : p.gap with
  | nil =>
    rw [hgap, hne.resolve_left (not_not_intro hgap)] at hc
    cases hc
  | cons d ds =>
    rw [hgap] at hc
    cases hc
    exact hg c (by simp [hgap])

theorem words_of_written {words : List (Kind × String)} {pieces : List Piece}
    (hv : ∀ word ∈ words, word.1.admits word.2.toList = true)
    (hw : List.Forall₂ (fun word p => Written word.1 word.2.toList p.lexeme) words pieces)
    (hg : ∀ p ∈ pieces, ∀ c ∈ p.gap, isLayout c = true)
    (ha : ∀ p ∈ pieces.dropLast, p.gap ≠ []) (position : Position) :
    (tokenizeFrom position (pieces.flatMap Piece.text)).fault = none ∧
      (tokenizeFrom position (pieces.flatMap Piece.text)).words = words := by
  induction hw generalizing position with
  | nil => rw [List.flatMap_nil, tokenizeFrom]; exact ⟨rfl, rfl⟩
  | @cons word p words pieces hword hw ih =>
    obtain ⟨hvw, hv⟩ := List.forall_mem_cons.1 hv
    obtain ⟨hgp, hg⟩ := List.forall_mem_cons.1 hg
    have hp : p.gap ≠ [] ∨ pieces = [] := by
      cases pieces with
      | nil => exact .inr rfl
      | cons q qs => exact .inl (ha p (by simp))
    have hlater : ∀ q ∈ pieces.dropLast, q.gap ≠ [] := by
      intro q hq
      cases pieces with
      | nil => cases hq
      | cons r rs => exact ha q (by rw [List.dropLast_cons_cons]; exact List.mem_cons_of_mem _ hq)
    have hlex := lexesTo_of_written hvw hword (apart_gap hgp hp)
    obtain ⟨position', hgap⟩ := exists_tokenizeFrom_layout hgp (position.right p.lexeme.length)
      (pieces.flatMap Piece.text)
    obtain ⟨hfault, hwords⟩ := ih hv hg hlater position'
    rw [List.flatMap_cons, Piece.text, List.append_assoc, hlex.tokenizeFrom_eq, hgap]
    refine ⟨hfault, ?_⟩
    rw [Tokenized.words, Tokenized.cons, List.map_cons, ← Tokenized.words, hwords,
      String.ofList_toList]

/-- Texts of their kinds that are written one behind the other, with layout between them, are lexed
to the same kinds and texts.  Layout may also stand in front of the first and behind the last. -/
theorem tokenize_written {words : List (Kind × String)} {first : List Char} {pieces : List Piece}
    (hv : ∀ word ∈ words, word.1.admits word.2.toList = true)
    (hw : List.Forall₂ (fun word p => Written word.1 word.2.toList p.lexeme) words pieces)
    (hf : ∀ c ∈ first, isLayout c = true)
    (hg : ∀ p ∈ pieces, ∀ c ∈ p.gap, isLayout c = true)
    (ha : ∀ p ∈ pieces.dropLast, p.gap ≠ []) :
    (tokenize (String.ofList (first ++ pieces.flatMap Piece.text))).fault = none ∧
      (tokenize (String.ofList (first ++ pieces.flatMap Piece.text))).words = words := by
  obtain ⟨position, hfirst⟩ := exists_tokenizeFrom_layout hf .start (pieces.flatMap Piece.text)
  rw [tokenize, String.toList_ofList, hfirst]
  exact words_of_written hv hw hg ha position

/-- A dollar sign written as its escape, a backslash, and a line break that stands for itself. -/
theorem tokenize_written_of_string :
    let words : List (Kind × String) :=
      [(.keyword, "if"), (.integer, "-7"), (.string, "\"$\\\n\"")]
    let pieces : List Piece := [⟨"if".toList, "\n ".toList⟩, ⟨"-7".toList, " ".toList⟩,
      ⟨"\"\\$\\\\\n\"".toList, []⟩]
    List.Forall₂ (fun word p => Written word.1 word.2.toList p.lexeme) words pieces ∧
      String.ofList ("\t".toList ++ pieces.flatMap Piece.text) = "\tif\n -7 \"\\$\\\\\n\"" ∧
      (tokenize "\tif\n -7 \"\\$\\\\\n\"").fault = none ∧
      (tokenize "\tif\n -7 \"\\$\\\\\n\"").words = words := by
  intro words pieces
  have hescaped : Escaped ['$', '\\', '\n'] ['\\', '$', '\\', '\\', '\n'] :=
    .pair (by decide) (.pair (by decide) (.plain (by decide) (by decide) .nil))
  have hw : List.Forall₂ (fun word p => Written word.1 word.2.toList p.lexeme) words pieces :=
    .cons (.plain (by decide)) (.cons (.plain (by decide)) (.cons (.string hescaped) .nil))
  have htext : String.ofList ("\t".toList ++ pieces.flatMap Piece.text) =
      "\tif\n -7 \"\\$\\\\\n\"" := by
    decide
  have hgaps : ∀ p ∈ pieces, p.gap.all isLayout = true := by decide
  refine ⟨hw, htext, ?_⟩
  rw [← htext]
  exact tokenize_written (by decide) hw (List.all_eq_true.1 (by decide))
    (fun p hp => List.all_eq_true.1 (hgaps p hp)) (by decide)

end MiniLang
