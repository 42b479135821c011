import MiniLang.Proofs.LineEnds
import MiniLang.Proofs.Reports
/-!
# Styles of line ends

A file may end its lines in three ways, and may mix them.  What is read of it has one line feed for
each line end and one behind the last line, so texts that are the same but for their line ends are
read as one text, and a text that has been read is read again as it is (`read_normal`).
-/

set_option autoImplicit false

namespace MiniLang.SourceText

/-! ## Texts with the same lines -/

/-- What may end a line. -/
inductive LineEnd where
  | feed
  | carriageReturn
  | pair
  deriving DecidableEq, Repr

/-- A line end as it is written. -/
def LineEnd.chars : LineEnd → List Char
  | .feed => ['\n']
  | .carriageReturn => ['\r']
  | .pair => ['\r', '\n']

/-- Whether a line end is whole before a text.  A carriage return before a line feed is half of a
pair. -/
def LineEnd.Whole (e : LineEnd) (cs : List Char) : Prop :=
  e = .carriageReturn → cs.head? ≠ some '\n'

instance (e : LineEnd) (cs : List Char) : Decidable (e.Whole cs) :=
  inferInstanceAs (Decidable (_ → _))

/-- Two texts that are the same but for how their lines are ended. -/
inductive SameLines : List Char → List Char → Prop where
  | nil : SameLines [] []
  | char {c : Char} {cs ds : List Char} (hr : c ≠ '\r') (hn : c ≠ '\n') (h : SameLines cs ds) :
      SameLines (c :: cs) (c :: ds)
  | lineEnd {cs ds : List Char} (e e' : LineEnd) (he : e.Whole cs) (he' : e'.Whole ds)
      (h : SameLines cs ds) : SameLines (e.chars ++ cs) (e'.chars ++ ds)

/-! ## Translated texts -/

theorem translate_cons {c : Char} (hc : c ≠ '\r') (cs : List Char) :
    translate (c :: cs) = c :: translate cs := by
  rw [translate, if_neg hc]
  rintro _ rfl
  exact absurd rfl hc

theorem translate_lineEnd {e : LineEnd} {cs : List Char} (he : e.Whole cs) :
    translate (e.chars ++ cs) = '\n' :: translate cs := by
  cases e with
  | feed => exact translate_cons (by decide) cs
  | pair => rfl
  | carriageReturn =>
    show translate ('\r' :: cs) = _
    rw [translate, if_pos rfl]
    rintro ds - rfl
    exact he rfl rfl

/-- Line ends are all that texts with the same lines differ in. -/
theorem SameLines.translate_eq {cs ds : List Char} (h : SameLines cs ds) :
    translate cs = translate ds := by
  induction h with
  | nil => rfl
  | char hr _ _ ih => rw [translate_cons hr, translate_cons hr, ih]
  | lineEnd e e' he he' _ ih => rw [translate_lineEnd he, translate_lineEnd he', ih]

/-- A text has the same lines translated. -/
theorem sameLines_translate (cs : List Char) : SameLines cs (translate cs) := by
  have hfeed : ∀ cs : List Char, LineEnd.feed.Whole cs := fun cs h => by cases h
  fun_induction translate cs with
  | case1 => exact .nil
  | case2 cs ih => exact .lineEnd .pair .feed (fun h => by cases h) (hfeed _) ih
  | case3 c cs hpair ih =>
    by_cases hr : c = '\r'
    · subst hr
      refine .lineEnd .carriageReturn .feed (fun _ hn => ?_) (hfeed _) ih
      obtain ⟨ds, rfl⟩ := List.head?_eq_some_iff.1 hn
      exact hpair ds rfl rfl
    · rw [if_neg hr]
      by_cases hn : c = '\n'
      · subst hn
        exact .lineEnd .feed .feed (hfeed _) (hfeed _) ih
      · exact .char hr hn ih

theorem not_mem_translate (cs : List Char) : '\r' ∉ translate cs := by
  fun_induction translate cs with
  | case1 => exact List.not_mem_nil
  | case2 cs ih =>
    rw [List.mem_cons, not_or]
    exact ⟨by decide, ih⟩
  | case3 c cs _ ih =>
    rw [List.mem_cons, not_or]
    refine ⟨?_, ih⟩
    split
    · decide
    · rename_i hc
      exact Ne.symm hc

/-! ## Terminated texts -/

theorem not_mem_terminate {cs : List Char} (h : '\r' ∉ cs) : '\r' ∉ terminate cs := by
  unfold terminate
  split
  · exact h
  · rw [List.mem_append, not_or]
    exact ⟨h, by decide⟩

theorem terminate_ended (cs : List Char) :
    terminate cs = [] ∨ (terminate cs).getLast? = some '\n' := by
  unfold terminate
  split
  · assumption
  · exact .inr List.getLast?_concat

/-- Nothing is put behind a text that is terminated. -/
theorem terminate_terminate (cs : List Char) : terminate (terminate cs) = terminate cs := by
  have hended := terminate_ended cs
  generalize terminate cs = ds at hended ⊢
  exact if_pos hended

/-! ## Reading a file -/

/-- What is read of a file in UTF-8. -/
theorem ofBytes?_eq (s : String) :
    ofBytes? s.toUTF8 = some (String.ofList (terminate (translate s.toList))) := by
  rw [ofBytes?_toUTF8, normalize, ofLines_lines]

/-- A file in UTF-8 is read as its text with a line feed in place of each line end, and one behind
the last line unless that is ended or there is no line.  So the text has no carriage return, is
empty or ends with a line feed, is the same for all files that differ in their line ends alone, and
is read again as it is.  A file that is not in UTF-8 has no text. -/
theorem read_normal :
    (∀ s : String, ∃ text, ofBytes? s.toUTF8 = some text ∧
      text.toList = terminate (translate s.toList) ∧ SameLines s.toList (translate s.toList) ∧
      '\r' ∉ text.toList ∧ (text = "" ∨ text.toList.getLast? = some '\n') ∧
      ofBytes? text.toUTF8 = some text) ∧
    (∀ s t : String, SameLines s.toList t.toList → ofBytes? s.toUTF8 = ofBytes? t.toUTF8) ∧
    ∀ bytes : ByteArray, (∀ s : String, s.toUTF8 ≠ bytes) → ofBytes? bytes = none := by
  refine ⟨fun s => ?_, fun s t h => ?_, fun bytes => ofBytes?_eq_none⟩
  · have hreturn := not_mem_terminate (not_mem_translate s.toList)
    refine ⟨_, ofBytes?_eq s, String.toList_ofList, sameLines_translate s.toList, ?_, ?_, ?_⟩
    · rwa [String.toList_ofList]
    · rw [← String.toList_eq_nil_iff, String.toList_ofList]
      exact terminate_ended _
    · rw [ofBytes?_eq, String.toList_ofList, translate_of_not_mem hreturn, terminate_terminate]
  · rw [ofBytes?_eq, ofBytes?_eq, h.translate_eq]

/-- The three ways to end a line make no difference, and a byte order mark, a form feed and a line
separator end none.  Two bytes, the second of which begins nothing in UTF-8, are no text. -/
theorem read_normal_of_mixture :
    let source := "\ufeff\r\n\r\n\x0c\r\u2028"
    let source' := "\ufeff\n\r\x0c\r\n\u2028"
    ofBytes? source.toUTF8 = some "\ufeff\n\n\x0c\n\u2028\n" ∧
      ofBytes? source'.toUTF8 = some "\ufeff\n\n\x0c\n\u2028\n" ∧
      ofBytes? ⟨#[0x78, 0xff]⟩ = none := by
  intro source source'
  have hsource : source.toList = '\ufeff' :: (LineEnd.pair.chars ++ (LineEnd.pair.chars ++
      '\x0c' :: (LineEnd.carriageReturn.chars ++ ['\u2028']))) := by decide
  have hsource' : source'.toList = '\ufeff' :: (LineEnd.feed.chars ++
      (LineEnd.carriageReturn.chars ++ '\x0c' :: (LineEnd.pair.chars ++ ['\u2028']))) := by decide
  have hsame : SameLines source.toList source'.toList := by
    rw [hsource, hsource']
    apply SameLines.char (by decide) (by decide)
    apply SameLines.lineEnd _ _ (by decide) (by decide)
    apply SameLines.lineEnd _ _ (by decide) (by decide)
    apply SameLines.char (by decide) (by decide)
    apply SameLines.lineEnd _ _ (by decide) (by decide)
    exact .char (by decide) (by decide) .nil
  have hinvalid : ¬ (⟨#[0x78, 0xff]⟩ : ByteArray).IsValidUTF8 := by decide +kernel
  obtain ⟨text, hread, htext, -⟩ := read_normal.1 source
  have hnormal : text = "\ufeff\n\n\x0c\n\u2028\n" := by
    rw [← String.toList_inj, htext]
    decide
  rw [hnormal] at hread
  refine ⟨hread, ?_, ?_⟩
  · rw [← read_normal.2.1 source source' hsame, hread]
  · exact read_normal.2.2 _ fun s hs => hinvalid (hs ▸ s.isValidUTF8)

end MiniLang.SourceText
