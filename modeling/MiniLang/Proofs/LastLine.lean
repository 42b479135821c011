import MiniLang.Proofs.LineEnds
import MiniLang.Proofs.Lines
import MiniLang.Proofs.Reports
/-!
# The line break behind the last line

A text that is read from a file ends with a line break, whether or not the file does.  Behind a text
that has been read to its end this break is nothing, and neither does it go on with any lexeme.  It
changes the fault of one sort of text: where a literal is never closed and the text ends in a
backslash that stands before nothing, the break becomes the symbol of an escape, which is a bad one
(`tokenize_of_read`).
-/

set_option autoImplicit false

namespace MiniLang

/-! ## Backslashes at the end -/

/-- How many backslashes a text ends with. -/
def endBackslashes (cs : List Char) : Nat := (cs.reverse.takeWhile (· = '\\')).length

/-- Only where a text is nothing but backslashes do those before it count as well. -/
theorem endBackslashes_append (cs ds : List Char) :
    endBackslashes (cs ++ ds) =
      if ds.all (· = '\\') then endBackslashes cs + ds.length else endBackslashes ds := by
  have hall : (ds.reverse.takeWhile (· = '\\')).length = ds.reverse.length ↔
      ds.all (· = '\\') = true := by
    rw [← List.all_reverse, List.all_eq_true, ← List.takeWhile_eq_self_iff]
    constructor
    · exact (List.takeWhile_prefix (fun c => decide (c = '\\'))).eq_of_length
    · exact congrArg List.length
  unfold endBackslashes
  rw [List.reverse_append, List.takeWhile_append]
  simp only [hall]
  split
  · rw [List.length_append, List.length_reverse, Nat.add_comm]
  · rfl

theorem endBackslashes_cons {c : Char} (hc : c ≠ '\\') (cs : List Char) :
    endBackslashes (c :: cs) = endBackslashes cs := by
  have hsingle : endBackslashes [c] = 0 := by simp [endBackslashes, hc]
  have happend := endBackslashes_append [c] cs
  rw [hsingle] at happend
  have hnil := endBackslashes_append [] cs
  exact happend.trans hnil.symm

theorem endBackslashes_of_newline {cs : List Char} (h : cs = [] ∨ cs.getLast? = some '\n') :
    endBackslashes cs = 0 := by
  rcases h with rfl | h
  · rfl
  · obtain ⟨front, rfl⟩ := List.getLast?_eq_some_iff.1 h
    rw [endBackslashes_append, if_neg (by simp)]
    rfl

/-- An escape in front leaves the parity. -/
theorem endBackslashes_escape (d : Char) (cs : List Char) :
    endBackslashes ('\\' :: d :: cs) % 2 = endBackslashes cs % 2 := by
  have hpair : endBackslashes ['\\', d] % 2 = 0 := by
    by_cases hd : d = '\\'
    · subst hd
      rfl
    · simp [endBackslashes, hd]
  have hpairs := endBackslashes_append ['\\', d] cs
  have hnil := endBackslashes_append [] cs
  rw [List.cons_append, List.singleton_append] at hpairs
  rw [List.nil_append] at hnil
  rw [hpairs, hnil]
  have hzero : endBackslashes [] = 0 := rfl
  split <;> omega

/-! ## An open literal before a line break -/

/-- A line break closes no literal. -/
theorem splitQuoted_newline {cs : List Char} (h : splitQuoted cs = none) :
    splitQuoted (cs ++ ['\n']) = none := by
  fun_induction splitQuoted cs with
  | case1 => rfl
  | case2 => cases h
  | case3 c hc =>
    rw [List.singleton_append, splitQuoted, if_neg hc]
    split <;> rfl
  | case4 => cases h
  | case5 => cases h
  | case6 d rest hs hq ih =>
    rw [List.cons_append, List.cons_append, splitQuoted, if_neg (by decide), if_pos rfl, ih hs]
  | case7 => cases h
  | case8 c d rest hq hb hs ih =>
    have hrest := ih hs
    rw [List.cons_append] at hrest
    rw [List.cons_append, List.cons_append, splitQuoted, if_neg hq, if_neg hb, hrest]

/-- The search for the quote that closes a literal goes wrong at the line break only if that stands
behind a backslash which is no part of an escape. -/
theorem Escape.unclosed_newline (opening position : Position) (cs : List Char) :
    unclosed opening position (cs ++ ['\n']) =
      if (unclosed opening position cs).cause = .unterminatedString ∧ endBackslashes cs % 2 = 1
      then invalid (position.right cs.length) '\n'
      else unclosed opening position cs := by
  fun_induction unclosed opening position cs with
  | case1 => rfl
  | case2 position c =>
    by_cases hc : c = '\\'
    · subst hc
      rfl
    · rw [List.singleton_append, unclosed, if_neg hc, if_neg]
      · rfl
      · rintro ⟨-, hodd⟩
        rw [endBackslashes_cons hc] at hodd
        cases hodd
  | case3 position d rest hd =>
    rw [List.cons_append, List.cons_append, unclosed, if_pos rfl, hd, if_neg]
    rintro ⟨hcause, -⟩
    cases hcause
  | case4 position d rest e hd ih =>
    rw [List.cons_append, List.cons_append, unclosed, if_pos rfl, hd, endBackslashes_escape,
      List.length_cons, List.length_cons, Nat.add_assoc, Nat.add_comm rest.length,
      ← Position.right_right]
    exact ih
  | case5 position c d rest hc ih =>
    rw [List.cons_append] at ih
    rw [List.cons_append, List.cons_append, unclosed, if_neg hc, endBackslashes_cons hc,
      List.length_cons, Nat.add_comm (d :: rest).length, ← Position.right_right]
    exact ih

/-! ## The line break behind a text -/

/-- Whether a text ends within a literal and in a backslash that is no part of an escape. -/
def Dangles (cs : List Char) (tokenized : Tokenized) : Prop :=
  (∃ p, tokenized.fault = some ⟨.unterminatedString, p⟩) ∧ endBackslashes cs % 2 = 1

/-- What is made of a text with a line break behind it, beside what is made of the text alone: the
same tokens, and the same fault unless the text dangles, in which case the line break is a bad
escape. -/
structure Continues (cs : List Char) (alone behind : Tokenized) : Prop where
  tokens : behind.tokens = alone.tokens
  fault : ¬ Dangles cs alone → behind.fault = alone.fault
  escape : Dangles cs alone → ∃ p, behind.fault = some (Escape.invalid p '\n')

namespace Continues

variable {cs piece : List Char} {alone behind : Tokenized}

/-- What is made of a text may be made with the line break. -/
theorem same (h : ¬ Dangles cs alone) : Continues cs alone alone :=
  ⟨rfl, fun _ => rfl, fun hd => absurd hd h⟩

theorem cons (h : Continues cs alone behind) (t : Token) :
    Continues cs (alone.cons t) (behind.cons t) :=
  ⟨congrArg (t :: ·) h.tokens, h.fault, h.escape⟩

/-- A piece may stand in front, since a text that ends within a literal holds its quote. -/
theorem append (h : Continues cs alone behind)
    (hquote : ∀ p, alone.fault = some ⟨.unterminatedString, p⟩ → '"' ∈ cs) :
    Continues (piece ++ cs) alone behind := by
  have hdangles : Dangles (piece ++ cs) alone ↔ Dangles cs alone := by
    refine and_congr_right ?_
    rintro ⟨p, hp⟩
    have hmixed : ¬ cs.all (· = '\\') = true := by
      intro hall
      have hbackslash := List.all_eq_true.1 hall _ (hquote p hp)
      cases hbackslash
    rw [endBackslashes_append, if_neg hmixed]
  refine ⟨h.tokens, ?_, ?_⟩
  · rw [hdangles]
    exact h.fault
  · rw [hdangles]
    exact h.escape

end Continues

/-- A literal that is never closed has a quote that opens it. -/
theorem quote_mem_of_unterminated {position p : Position} {cs : List Char}
    (h : (tokenizeFrom position cs).fault = some ⟨.unterminatedString, p⟩) : '"' ∈ cs := by
  fun_induction tokenizeFrom position cs with
  | case1 => cases h
  | case2 position c cs hb ih => exact List.mem_cons_of_mem c (ih h)
  | case3 position c cs hb hf =>
    by_cases hc : c = '"'
    · exact hc ▸ List.mem_cons_self
    · rw [unreadable, if_neg hc] at h
      split at h <;> cases h
  | case4 position c cs hb rule piece rest hf hk ih =>
    rw [← (Rule.append_of_split? (Rule.split?_of_first? hf)).1]
    exact List.mem_append_right piece (ih h)
  | case5 position c cs hb rule piece rest hf kind hk fault ht =>
    obtain ⟨rfl, -⟩ := exists_badEscape_of_textOf (Rule.split?_of_first? hf) ht
    exact List.mem_cons_self
  | case6 position c cs hb rule piece rest hf kind hk text ht ih =>
    rw [← (Rule.append_of_split? (Rule.split?_of_first? hf)).1]
    exact List.mem_append_right piece (ih h)

/-- An open literal goes wrong at a line break behind it where the text dangles. -/
theorem continues_of_open {cs : List Char} (hs : splitQuoted cs = none) (position : Position) :
    Continues ('"' :: cs) ⟨[], some (unreadable position '"' cs)⟩
      (tokenizeFrom position ('"' :: (cs ++ ['\n']))) := by
  have hunreadable : ∀ cs : List Char,
      unreadable position '"' cs = Escape.unclosed position (position.right 1) cs := by
    intro cs
    rw [unreadable, if_neg (by decide), if_pos rfl]
  have hnone := first?_eq_none_of_quote (splitQuoted_newline hs)
  rw [tokenizeFrom_of_first?_eq_none (by decide) hnone, hunreadable, hunreadable,
    Escape.unclosed_newline]
  generalize Escape.unclosed position (position.right 1) cs = fault
  have hdangles : Dangles ('"' :: cs) ⟨[], some fault⟩ ↔
      fault.cause = .unterminatedString ∧ endBackslashes cs % 2 = 1 := by
    rw [Dangles, endBackslashes_cons (by decide)]
    refine and_congr_left fun _ => ⟨?_, fun hc => ⟨fault.position, ?_⟩⟩
    · rintro ⟨p, hp⟩
      cases hp
      rfl
    · rw [← hc]
  split
  · rename_i hd
    exact ⟨rfl, fun hn => absurd (hdangles.2 hd) hn, fun _ => ⟨_, rfl⟩⟩
  · rename_i hd
    exact .same fun h => hd (hdangles.1 h)

/-- Where no rule applies, none does with a line break behind the text. -/
theorem continues_of_first?_eq_none {c : Char} {cs : List Char} (hb : isBlank c = false)
    (h : Rule.first? (c :: cs) = none) (position : Position) :
    Continues (c :: cs) ⟨[], some (unreadable position c cs)⟩
      (tokenizeFrom position (c :: (cs ++ ['\n']))) := by
  by_cases hc : c = '"'
  · subst hc
    have hs : splitQuoted cs = none := by
      cases hs : splitQuoted cs with
      | none => rfl
      | some split =>
        rw [first?_of_quote hs] at h
        cases h
    exact continues_of_open hs position
  · have hhead : c = '!' → (cs ++ ['\n']).head? ≠ some '=' := by
      rintro rfl he
      cases cs with
      | nil => exact absurd he (by decide)
      | cons d cs =>
        cases he
        have hmark : Rule.comparison.accepts ['!', '='] = false :=
          accepts_eq_false_of_first? h (List.prefix_append ['!', '='] cs)
        cases hmark
    have hnone := first?_eq_none_of_cons h hc hhead
    have hunreadable : unreadable position c (cs ++ ['\n']) = unreadable position c cs := by
      rw [unreadable, unreadable, if_neg hc, if_neg hc]
    rw [tokenizeFrom_of_first?_eq_none hb hnone, hunreadable]
    refine .same ?_
    rintro ⟨⟨p, hp⟩, -⟩
    rw [unreadable, if_neg hc] at hp
    split at hp <;> cases hp

/-- What is made of a text with a line break behind it. -/
theorem continues_newline (position : Position) (cs : List Char) :
    Continues cs (tokenizeFrom position cs) (tokenizeFrom position (cs ++ ['\n'])) := by
  fun_induction tokenizeFrom position cs with
  | case1 position =>
    rw [List.nil_append, tokenizeFrom_newline, tokenizeFrom]
    refine .same ?_
    rintro ⟨⟨p, hp⟩, -⟩
    cases hp
  | case2 position c cs hb ih =>
    rw [List.cons_append, tokenizeFrom, if_pos hb]
    show Continues ([c] ++ cs) _ _
    exact ih.append fun _ => quote_mem_of_unterminated
  | case3 position c cs hb hf =>
    exact continues_of_first?_eq_none (Bool.eq_false_iff.2 hb) hf position
  | case4 position c cs hb rule piece rest hf hk ih =>
    have hs := Rule.split?_of_first? hf
    obtain ⟨happend, hne⟩ := Rule.append_of_split? hs
    have hread := tokenizeFrom_newlines (eq_newline_of_split? hs hk) hne position (rest ++ ['\n'])
    rw [← happend, List.append_assoc, hread]
    exact ih.append fun _ => quote_mem_of_unterminated
  | case5 position c cs hb rule piece rest hf kind hk fault ht =>
    obtain ⟨rfl, k, d, hbad⟩ := exists_badEscape_of_textOf (Rule.split?_of_first? hf) ht
    have hread := tokenizeFrom_of_badEscape hbad position
    rw [tokenizeFrom_of_first? (by decide) hf, hk] at hread
    simp only [ht] at hread
    -- the bad escape comes before the line break
    have hk : k + 1 ≤ cs.length := (List.getElem?_eq_some_iff.1 hbad.getElem?).1
    have hbreak : BadEscape (cs ++ ['\n']) k d :=
      hbad.of_take_eq (List.take_append_of_le_length hk)
    rw [List.cons_append, tokenizeFrom_of_badEscape hbreak, hread]
    refine .same ?_
    rintro ⟨⟨p, hp⟩, -⟩
    cases hp
  | case6 position c cs hb rule piece rest hf kind hk text ht ih =>
    obtain ⟨happend, hne⟩ := Rule.append_of_split? (Rule.split?_of_first? hf)
    have hfirst := first?_append_line (happend ▸ hf) hk ht []
    rw [← List.append_assoc, happend, List.cons_append] at hfirst
    rw [List.cons_append, tokenizeFrom_of_first? (Bool.eq_false_iff.2 hb) hfirst, hk]
    simp only [ht]
    rw [← happend]
    exact (ih.append fun _ => quote_mem_of_unterminated).cons _

/-! ## Reading a file -/

/-- Without carriage returns, a file is read as it is but for the line break behind its last
line. -/
theorem ofBytes?_of_not_mem {s : String} (h : '\r' ∉ s.toList) :
    SourceText.ofBytes? s.toUTF8 = some (String.ofList (SourceText.terminate s.toList)) := by
  rw [SourceText.ofBytes?_toUTF8, SourceText.normalize, SourceText.ofLines_lines,
    SourceText.translate_of_not_mem h]

/-- A bad escape of a line break at the end is in the place of this break. -/
theorem position_of_escape {s : String} {p : Position}
    (h : (tokenizeFrom .start (s.toList ++ ['\n'])).fault = some (Escape.invalid p '\n'))
    (hd : Dangles s.toList (tokenize s)) :
    p = positionAt (String.ofList (s.toList ++ ['\n'])) s.length := by
  obtain ⟨q, hat⟩ := exists_faultAt placeAfter_nil.symm h (by simp [Escape.invalid])
  obtain ⟨c, hq, -⟩ := hat.names
  have hle : q < s.toList.length + 1 := by
    have := (List.getElem?_eq_some_iff.1 hq).1
    rwa [List.length_append] at this
  have hlast : q = s.toList.length := by
    by_contra hne
    -- the fault would be there without the line break
    have htake : s.toList.take (q + 1) = (s.toList ++ ['\n']).take (q + 1) :=
      (List.take_append_of_le_length (by omega)).symm
    have hsame := hat.settled s.toList htake fun text hc => by cases hc
    rw [placeAfter_nil] at hsame
    obtain ⟨⟨p', hp'⟩, -⟩ := hd
    rw [tokenize, hsame, h] at hp'
    cases hp'
  have hplace := hat.place
  rw [hlast] at hplace
  rw [positionAt, String.toList_ofList, ← String.length_toList]
  exact hplace

/-- Reading a text without carriage returns from a file does not change its tokens.  Nor does it
change what ends them, unless the text ends within a literal and in a backslash that is no part of
an escape: where the quote was missing, the line break that reading puts behind the text is a bad
escape. -/
theorem tokenize_of_read {s : String} (h : '\r' ∉ s.toList) :
    ∃ text, SourceText.ofBytes? s.toUTF8 = some text ∧
      (tokenize text).tokens = (tokenize s).tokens ∧
      (¬ Dangles s.toList (tokenize s) → (tokenize text).fault = (tokenize s).fault) ∧
      (Dangles s.toList (tokenize s) →
        (tokenize text).fault = some ⟨.invalidEscape "\n", positionAt text s.length⟩) := by
  refine ⟨_, ofBytes?_of_not_mem h, ?_⟩
  unfold SourceText.terminate
  split
  · rename_i hend
    -- nothing is put behind the text
    rw [String.ofList_toList]
    refine ⟨rfl, fun _ => rfl, ?_⟩
    rintro ⟨-, hodd⟩
    rw [endBackslashes_of_newline hend] at hodd
    cases hodd
  · have hcontinues := continues_newline .start s.toList
    have htokenize : tokenize (String.ofList (s.toList ++ ['\n'])) =
        tokenizeFrom .start (s.toList ++ ['\n']) := by
      rw [tokenize, String.toList_ofList]
    rw [htokenize]
    refine ⟨hcontinues.tokens, hcontinues.fault, fun hd => ?_⟩
    obtain ⟨p, hp⟩ := hcontinues.escape hd
    rw [hp, position_of_escape hp hd]
    rfl

/-- Of one backslash at the end the line break is the symbol, of two it is not. -/
theorem tokenize_of_read_of_backslashes :
    SourceText.ofBytes? "x \"a\\".toUTF8 = some "x \"a\\\n" ∧
      (tokenize "x \"a\\\n").tokens = (tokenize "x \"a\\").tokens ∧
      (tokenize "x \"a\\\n").fault = some ⟨.invalidEscape "\n", ⟨1, 6⟩⟩ ∧
      SourceText.ofBytes? "x \"a\\\\".toUTF8 = some "x \"a\\\\\n" ∧
      (tokenize "x \"a\\\\\n").tokens = (tokenize "x \"a\\\\").tokens ∧
      (tokenize "x \"a\\\\\n").fault = some ⟨.unterminatedString, ⟨1, 3⟩⟩ := by
  have hone : SourceText.ofBytes? "x \"a\\".toUTF8 = some "x \"a\\\n" := by
    rw [SourceText.ofBytes?_toUTF8]
    decide
  have htwo : SourceText.ofBytes? "x \"a\\\\".toUTF8 = some "x \"a\\\\\n" := by
    rw [SourceText.ofBytes?_toUTF8]
    decide
  have hfault : (tokenize "x \"a\\").fault = some ⟨.unterminatedString, ⟨1, 3⟩⟩ := by
    decide +kernel
  have hfault' : (tokenize "x \"a\\\\").fault = some ⟨.unterminatedString, ⟨1, 3⟩⟩ := by
    decide +kernel
  obtain ⟨text, htext, htokens, -, hescape⟩ := tokenize_of_read (s := "x \"a\\") (by decide)
  rw [hone] at htext
  cases htext
  obtain ⟨text, htext, htokens', hsame, -⟩ := tokenize_of_read (s := "x \"a\\\\") (by decide)
  rw [htwo] at htext
  cases htext
  have hplace : positionAt "x \"a\\\n" "x \"a\\".length = ⟨1, 6⟩ := by decide +kernel
  rw [hplace] at hescape
  refine ⟨hone, htokens, hescape ⟨⟨_, hfault⟩, by decide⟩, htwo, htokens', ?_⟩
  rw [← hfault']
  exact hsame fun hd => absurd hd.2 (by decide)

/-- A quote and a backslash are a literal that is never closed, and read from a file they are a bad
escape. -/
theorem exists_read_with_other_fault :
    ∃ s text, '\r' ∉ s.toList ∧ SourceText.ofBytes? s.toUTF8 = some text ∧
      tokenize s = ⟨[], some ⟨.unterminatedString, ⟨1, 1⟩⟩⟩ ∧
      tokenize text = ⟨[], some ⟨.invalidEscape "\n", ⟨1, 3⟩⟩⟩ := by
  refine ⟨"\"\\", "\"\\\n", by decide, ?_, by decide +kernel, by decide +kernel⟩
  rw [SourceText.ofBytes?_toUTF8]
  decide

end MiniLang
