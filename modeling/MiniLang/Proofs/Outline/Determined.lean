import Mathlib
import MiniLang.Proofs.Grammar.Strings
import MiniLang.Proofs.Outline.Entries
/-!
# Outlines determine trees

Two programs of whole trees have the same outline only if they are the same, as long as their texts
have no line breaks (`Node.eq_of_render_eq`).

Each entry says which kind of node begins there, and a list of parts ends where the depth falls
below that of the parts.  So the entries of a tree can be told from what comes behind them if that
is no deeper than the tree itself (`Whole.determined`).
-/

set_option autoImplicit false

namespace MiniLang

namespace Node

open Outline

variable {Number : Int → Prop}

/-! ## Reading entries -/

/-- Entries of which the first one is less deep than `depth`. -/
def Below (depth : Nat) (rest : List Entry) : Prop := ∀ e ∈ rest.head?, e.depth < depth

theorem below_nil (depth : Nat) : Below depth [] := by simp [Below]

theorem below_cons {depth deeper : Nat} (h : depth < deeper) {word : Word} {detail : Option String}
    (rest : List Entry) : Below deeper (⟨depth, word, detail⟩ :: rest) := by
  simpa [Below] using h

theorem Below.mono {depth deeper : Nat} {rest : List Entry} (h : Below depth rest)
    (hd : depth ≤ deeper) : Below deeper rest :=
  fun e he => Nat.lt_of_lt_of_le (h e he) hd

/-- The entries of a whole tree begin at its depth. -/
theorem Whole.exists_entries_eq {n : Node} (h : n.Whole Number) (depth : Nat) :
    ∃ word detail rest, n.entries depth = ⟨depth, word, detail⟩ :: rest := by
  cases h <;> exact ⟨_, _, _, by rw [entries]⟩

theorem Whole.below_entries {n : Node} (h : n.Whole Number) {depth deeper : Nat}
    (hd : depth < deeper) (rest : List Entry) : Below deeper (n.entries depth ++ rest) := by
  obtain ⟨word, detail, more, heq⟩ := h.exists_entries_eq depth
  rw [heq]
  exact below_cons hd _

/-- A tree that can be told from what comes behind its entries. -/
def Determined (Number : Int → Prop) (n : Node) : Prop :=
  ∀ {depth : Nat} {n' : Node} {rest rest' : List Entry}, n'.Whole Number → Below (depth + 1) rest →
    Below (depth + 1) rest' → n.entries depth ++ rest = n'.entries depth ++ rest' →
      n = n' ∧ rest = rest'

/-- What comes in place of the entries of whole trees is no deeper than they are. -/
theorem below_entriesEach {nodes : List Node} (hw : ∀ n ∈ nodes, n.Whole Number)
    {depth deeper : Nat} (hd : depth < deeper) {rest : List Entry} (hb : Below deeper rest) :
    Below deeper (entriesEach depth nodes ++ rest) := by
  cases nodes with
  | nil => rwa [entriesEach, List.nil_append]
  | cons n nodes =>
    rw [entriesEach, List.append_assoc]
    exact (hw n (by simp)).below_entries hd _

/-- The end of a list of trees is where the depth falls below theirs. -/
theorem entriesEach_append_inj {nodes nodes' : List Node} (h : ∀ n ∈ nodes, n.Determined Number)
    (hw : ∀ n ∈ nodes, n.Whole Number) (hw' : ∀ n ∈ nodes', n.Whole Number) {depth : Nat}
    {rest rest' : List Entry} (hb : Below depth rest) (hb' : Below depth rest')
    (heq : entriesEach depth nodes ++ rest = entriesEach depth nodes' ++ rest') :
    nodes = nodes' ∧ rest = rest' := by
  have hend : ∀ {n : Node} {nodes : List Node} {rest rest' : List Entry}, n.Whole Number →
      Below depth rest → rest ≠ entriesEach depth (n :: nodes) ++ rest' := by
    rintro n nodes _ rest' hn hb rfl
    obtain ⟨word, detail, more, hmore⟩ := hn.exists_entries_eq depth
    rw [entriesEach, hmore] at hb
    exact Nat.lt_irrefl _ (hb _ rfl)
  induction nodes generalizing nodes' with
  | nil =>
    cases nodes' with
    | nil => exact ⟨rfl, heq⟩
    | cons n' nodes' => exact absurd heq (hend (hw' n' (by simp)) hb)
  | cons n nodes ih =>
    obtain ⟨hn, hnodes⟩ := List.forall_mem_cons.1 h
    obtain ⟨-, hws⟩ := List.forall_mem_cons.1 hw
    cases nodes' with
    | nil => exact absurd heq.symm (hend (hw n (by simp)) hb')
    | cons n' nodes' =>
      obtain ⟨hn', hws'⟩ := List.forall_mem_cons.1 hw'
      rw [entriesEach, entriesEach, List.append_assoc, List.append_assoc] at heq
      have hlt := Nat.lt_succ_self depth
      obtain ⟨rfl, hnext⟩ := hn hn' (below_entriesEach hws hlt (hb.mono (Nat.le_of_lt hlt)))
        (below_entriesEach hws' hlt (hb'.mono (Nat.le_of_lt hlt))) heq
      obtain ⟨rfl, hrest⟩ := ih hnodes hws hws' hnext
      exact ⟨rfl, hrest⟩

/-- The entries of a second branch, and none where there is no such branch. -/
def entriesElse (depth : Nat) (n : Node) : List Entry :=
  if n = .absent then [] else ⟨depth, .elseBranch, none⟩ :: n.entries (depth + 1)

theorem entries_conditional (depth : Nat) (condition thenBlock elseBlock : Node) :
    (Node.conditional condition thenBlock elseBlock).entries depth =
      ⟨depth, .conditional, none⟩ :: (condition.entries (depth + 1) ++
        ⟨depth + 1, .thenBranch, none⟩ :: (thenBlock.entries (depth + 2) ++
          elseBlock.entriesElse (depth + 1))) := by
  rw [entries]
  rfl

section

variable {depth : Nat} {rest rest' : List Entry} {n n' : Node}

/-- What comes behind a first branch is no deeper than the branch. -/
theorem below_entriesElse (hb : Below depth rest) (n : Node) :
    Below (depth + 2) (n.entriesElse depth ++ rest) := by
  unfold entriesElse
  split
  · exact hb.mono (by omega)
  · exact below_cons (by omega) _

/-- A second branch is there if its label is. -/
theorem entriesElse_append_inj (h : n ≠ .absent → n.Determined Number)
    (hw' : n' ≠ .absent → n'.Whole Number) (hb : Below depth rest) (hb' : Below depth rest')
    (heq : n.entriesElse depth ++ rest = n'.entriesElse depth ++ rest') :
    n = n' ∧ rest = rest' := by
  unfold entriesElse at heq
  by_cases hn : n = .absent <;> by_cases hn' : n' = .absent
  · rw [if_pos hn, if_pos hn'] at heq
    exact ⟨hn.trans hn'.symm, heq⟩
  · rw [if_pos hn, if_neg hn', List.nil_append] at heq
    exact absurd (hb _ (by rw [heq]; rfl)) (Nat.lt_irrefl _)
  · rw [if_neg hn, if_pos hn', List.nil_append] at heq
    exact absurd (hb' _ (by rw [← heq]; rfl)) (Nat.lt_irrefl _)
  · rw [if_neg hn, if_neg hn'] at heq
    exact h hn (hw' hn') (hb.mono (by omega)) (hb'.mono (by omega)) (List.cons.inj heq).2

end

/-- A whole tree is determined by its entries, whatever comes behind them, if it is no deeper. -/
theorem Whole.determined {n : Node} (h : n.Whole Number) : n.Determined Number := by
  -- The first entry tells the kind of the tree, so in each case the other one is of the same kind.
  -- Their parts are then told from each other one by one, in the order of the entries.
  induction h with
  | identifier =>
    intro depth n' rest rest' h' hb hb' heq
    cases h' with
    | identifier => simpa [entries] using heq
    | _ => simp [entries] at heq
  | integer =>
    intro depth n' rest rest' h' hb hb' heq
    cases h' with
    | integer => simpa [entries, Int.repr_inj] using heq
    | _ => simp [entries] at heq
  | string =>
    intro depth n' rest rest' h' hb hb' heq
    cases h' with
    | string => simpa [entries] using heq
    | _ => simp [entries] at heq
  | binary _ hr ihl ihr =>
    intro depth n' rest rest' h' hb hb' heq
    cases h' with
    | binary hl' hr' =>
      simp only [entries, List.cons_append, List.append_assoc, List.cons.injEq, Entry.mk.injEq,
        Option.some.injEq, true_and] at heq
      obtain ⟨rfl, hleft⟩ := heq
      have hlt := Nat.lt_succ_self (depth + 1)
      obtain ⟨rfl, hright⟩ := ihl hl' (hr.below_entries hlt _) (hr'.below_entries hlt _) hleft
      obtain ⟨rfl, hrest⟩ := ihr hr' (hb.mono (Nat.le_succ _)) (hb'.mono (Nat.le_succ _)) hright
      exact ⟨rfl, hrest⟩
    | _ => simp [entries] at heq
  | call _ ha ihn iha =>
    intro depth n' rest rest' h' hb hb' heq
    cases h' with
    | call hn' ha' =>
      simp only [entries, List.cons_append, List.append_assoc, List.cons.injEq, true_and] at heq
      have hlt := Nat.lt_succ_self (depth + 1)
      have hle := Nat.le_succ (depth + 1)
      obtain ⟨rfl, hlabel⟩ := ihn hn' (below_cons hlt _) (below_cons hlt _) heq
      obtain ⟨rfl, hrest⟩ := entriesEach_append_inj iha ha ha' (hb.mono hle) (hb'.mono hle)
        (List.cons.inj hlabel).2
      exact ⟨rfl, hrest⟩
    | _ => simp [entries] at heq
  | assignment _ hv iht ihv =>
    intro depth n' rest rest' h' hb hb' heq
    cases h' with
    | assignment ht' hv' =>
      simp only [entries, List.cons_append, List.append_assoc, List.cons.injEq, true_and] at heq
      have hlt := Nat.lt_succ_self (depth + 1)
      obtain ⟨rfl, hvalue⟩ := iht ht' (hv.below_entries hlt _) (hv'.below_entries hlt _) heq
      obtain ⟨rfl, hrest⟩ := ihv hv' (hb.mono (Nat.le_succ _)) (hb'.mono (Nat.le_succ _)) hvalue
      exact ⟨rfl, hrest⟩
    | _ => simp [entries] at heq
  | block hs ih =>
    intro depth n' rest rest' h' hb hb' heq
    cases h' with
    | block hs' =>
      simp only [entries, List.cons_append, List.cons.injEq, true_and] at heq
      obtain ⟨rfl, hrest⟩ := entriesEach_append_inj ih hs hs' hb hb' heq
      exact ⟨rfl, hrest⟩
    | _ => simp [entries] at heq
  | declaration _ hp _ ihn ihp ihb =>
    intro depth n' rest rest' h' hb hb' heq
    cases h' with
    | declaration hn' hp' hb'' =>
      simp only [entries, List.cons_append, List.append_assoc, List.cons.injEq, Entry.mk.injEq,
        Option.some.injEq, true_and] at heq
      obtain ⟨rfl, hname⟩ := heq
      have hlt : depth + 1 < depth + 2 := Nat.lt_succ_self _
      have hle : depth + 1 ≤ depth + 3 := by omega
      obtain ⟨rfl, hlabel⟩ := ihn hn' (below_cons (Nat.lt_succ_of_lt hlt) _)
        (below_cons (Nat.lt_succ_of_lt hlt) _) hname
      obtain ⟨rfl, hbody⟩ := entriesEach_append_inj ihp hp hp' (below_cons hlt _)
        (below_cons hlt _) (List.cons.inj hlabel).2
      obtain ⟨rfl, hrest⟩ := ihb hb'' (hb.mono hle) (hb'.mono hle) (List.cons.inj hbody).2
      exact ⟨rfl, hrest⟩
    | _ => simp [entries] at heq
  | conditional _ ht he ihc iht ihe =>
    intro depth n' rest rest' h' hb hb' heq
    cases h' with
    | conditional hc' ht' he' =>
      simp only [entries_conditional, List.cons_append, List.append_assoc, List.cons.injEq,
        true_and] at heq
      have hlt : depth + 1 < depth + 2 := Nat.lt_succ_self _
      obtain ⟨rfl, hlabel⟩ := ihc hc' (below_cons hlt _) (below_cons hlt _) heq
      obtain ⟨rfl, helse⟩ := iht ht' (below_entriesElse hb _) (below_entriesElse hb' _)
        (List.cons.inj hlabel).2
      obtain ⟨rfl, hrest⟩ := entriesElse_append_inj ihe he' hb hb' helse
      exact ⟨rfl, hrest⟩
    | _ => simp [entries] at heq
  | returning _ ih =>
    intro depth n' rest rest' h' hb hb' heq
    cases h' with
    | returning he' =>
      simp only [entries, List.cons_append, List.cons.injEq, true_and] at heq
      obtain ⟨rfl, hrest⟩ := ih he' (hb.mono (Nat.le_succ _)) (hb'.mono (Nat.le_succ _)) heq
      exact ⟨rfl, hrest⟩
    | _ => simp [entries] at heq

theorem entriesItems_inj {items items' : List Node} (hw : ∀ i ∈ items, i.Whole Number)
    (hw' : ∀ i ∈ items', i.Whole Number) {depth : Nat}
    (heq : entriesItems depth items = entriesItems depth items') : items = items' := by
  have hbelow : ∀ items : List Node, Below (depth + 2) (entriesItems depth items) := by
    intro items
    cases items with
    | nil => exact below_nil _
    | cons i items => exact below_cons (by omega) _
  induction items generalizing items' with
  | nil =>
    cases items' with
    | nil => rfl
    | cons i' items' => cases heq
  | cons i items ih =>
    cases items' with
    | nil => cases heq
    | cons i' items' =>
      obtain ⟨hi, hitems⟩ := List.forall_mem_cons.1 hw
      obtain ⟨hi', hitems'⟩ := List.forall_mem_cons.1 hw'
      obtain ⟨rfl, hrest⟩ := hi.determined hi' (hbelow items) (hbelow items') (List.cons.inj heq).2
      rw [ih hitems hitems' hrest]

/-- A program of whole trees is determined by its entries. -/
theorem entries_program_inj {items items' : List Node} (hw : ∀ i ∈ items, i.Whole Number)
    (hw' : ∀ i ∈ items', i.Whole Number) {depth : Nat}
    (heq : (program items).entries depth = (program items').entries depth) :
    program items = program items' := by
  match items, items' with
  | [], [] => rfl
  | [], _ :: _ => simp [entries] at heq
  | _ :: _, [] => simp [entries] at heq
  | i :: items, i' :: items' =>
    rw [entries, entries] at heq
    · exact congrArg program (entriesItems_inj hw hw' (List.cons.inj heq).2)
    all_goals simp

/-! ## Reading the text of an outline -/

/-- Programs of whole trees with the same outline are the same, unless a detail mimics a line. -/
theorem eq_or_mimics_of_text_eq {a b : List Node} (ha : ∀ i ∈ a, i.Whole Number)
    (hb : ∀ i ∈ b, i.Whole Number) (h : (ofEntries standardIndent ((program a).entries 0)).text =
      (ofEntries standardIndent ((program b).entries 0)).text) :
    program a = program b ∨ ∃ e ∈ (program a).entries 0, ∃ e' ∈ (program b).entries 0,
      e.Mimics e' ∨ e'.Mimics e := by
  have hpage : Entry.page ((program a).entries 0) = Entry.page ((program b).entries 0) := by
    rw [← toList_text_ofEntries, h, toList_text_ofEntries]
  exact (Entry.eq_or_mimics hpage).imp_left (entries_program_inj ha hb)

/-! ## Texts -/

mutual

/-- The names, operators and tags anywhere in a tree. -/
def words : Node → List String
  | .identifier name => [name]
  | .integer _ => []
  | .string _ => []
  | .binary left operator right => operator :: (words left ++ words right)
  | .call name arguments => words name ++ wordsEach arguments
  | .assignment target value => words target ++ words value
  | .block statements => wordsEach statements
  | .declaration returnType name parameters body =>
    returnType :: (words name ++ (wordsEach parameters ++ words body))
  | .conditional condition thenBlock elseBlock =>
    words condition ++ (words thenBlock ++ words elseBlock)
  | .returning expression => words expression
  | .program items => wordsEach items
  | .absent => []
  | .unknown _ => []

/-- The names, operators and tags of several trees. -/
def wordsEach : List Node → List String
  | [] => []
  | node :: nodes => words node ++ wordsEach nodes

end

/-- The detail of an entry is one of `strings` where the word says that it is a string.  Elsewhere
it is one of `words` if it has a line break. -/
def Supplied (words strings : List String) (es : List Entry) : Prop :=
  ∀ e ∈ es, ∀ text ∈ e.detail, (e.word = .string → text ∈ strings) ∧
    (e.word ≠ .string → '\n' ∈ text.toList → text ∈ words)

namespace Supplied

variable {words words' strings strings' : List String} {es es' : List Entry}

theorem nil : Supplied words strings [] := by simp [Supplied]

theorem mono (h : Supplied words strings es) (hw : words ⊆ words') (hs : strings ⊆ strings') :
    Supplied words' strings' es := fun e he text htext =>
  ⟨fun hword => hs ((h e he text htext).1 hword),
    fun hword hbreak => hw ((h e he text htext).2 hword hbreak)⟩

theorem append (h : Supplied words strings es) (h' : Supplied words' strings' es') :
    Supplied (words ++ words') (strings ++ strings') (es ++ es') :=
  List.forall_mem_append.2
    ⟨h.mono (List.subset_append_left _ _) (List.subset_append_left _ _),
      h'.mono (List.subset_append_right _ _) (List.subset_append_right _ _)⟩

theorem cons {depth : Nat} {word : Word} {detail : Option String}
    (hd : ∀ text ∈ detail, (word = .string → text ∈ strings) ∧
      (word ≠ .string → '\n' ∈ text.toList → text ∈ words))
    (h : Supplied words strings es) : Supplied words strings (⟨depth, word, detail⟩ :: es) :=
  List.forall_mem_cons.2 ⟨hd, h⟩

/-- A word that stands behind the colon. -/
theorem word {depth : Nat} {word : Word} (hw : word ≠ .string) (text : String)
    (h : Supplied words strings es) :
    Supplied (text :: words) strings (⟨depth, word, some text⟩ :: es) :=
  (h.mono (List.subset_cons_self _ _) (List.Subset.refl _)).cons (by simp [hw])

/-- A text without line breaks that stands behind the colon, if any does. -/
theorem plain {depth : Nat} {word : Word} (hw : word ≠ .string) {detail : Option String}
    (hd : ∀ text ∈ detail, '\n' ∉ text.toList) (h : Supplied words strings es) :
    Supplied words strings (⟨depth, word, detail⟩ :: es) :=
  h.cons fun text htext => ⟨fun hs => absurd hs hw, fun _ hbreak => absurd hbreak (hd text htext)⟩

/-- A word without a detail. -/
theorem label {depth : Nat} {word : Word} (h : Supplied words strings es) :
    Supplied words strings (⟨depth, word, none⟩ :: es) :=
  h.cons (by simp)

end Supplied

theorem newline_not_mem_toString (value : Int) : '\n' ∉ (toString value).toList := by
  have hdigits : ∀ n : Nat, '\n' ∉ n.repr.toList := by
    intro n hmem
    rw [Nat.toList_repr] at hmem
    exact absurd (Nat.isDigit_of_mem_toDigits (by decide) (by decide) hmem) (by decide)
  cases value with
  | ofNat n => exact hdigits n
  | negSucc n =>
    rw [show toString (Int.negSucc n) = "-" ++ (n + 1).repr from rfl, String.toList_append]
    simpa using hdigits (n + 1)

theorem supplied_entriesEach {nodes : List Node}
    (h : ∀ n ∈ nodes, ∀ depth, Supplied n.words n.strings (n.entries depth)) (depth : Nat) :
    Supplied (wordsEach nodes) (stringsEach nodes) (entriesEach depth nodes) := by
  induction nodes with
  | nil => exact .nil
  | cons n nodes ih =>
    obtain ⟨hn, hnodes⟩ := List.forall_mem_cons.1 h
    exact (hn depth).append (ih hnodes)

/-- The details of a whole tree are its texts, and integers and empty lists of parameters. -/
theorem Whole.supplied {n : Node} (h : n.Whole Number) (depth : Nat) :
    Supplied n.words n.strings (n.entries depth) := by
  induction h generalizing depth with
  | identifier =>
    rw [entries, words, strings]
    exact .word (by simp) _ .nil
  | @integer value =>
    rw [entries, words, strings]
    exact .plain (by simp) (by simpa using newline_not_mem_toString value) .nil
  | string =>
    rw [entries, words, strings]
    exact .cons (by simp) .nil
  | binary _ _ ihl ihr =>
    rw [entries, words, strings]
    exact .word (by simp) _ ((ihl _).append (ihr _))
  | call _ _ ihn iha =>
    rw [entries, words, strings]
    exact .label ((ihn _).append (.label (supplied_entriesEach iha _)))
  | assignment _ _ iht ihv =>
    rw [entries, words, strings]
    exact .label ((iht _).append (ihv _))
  | block _ ih =>
    rw [entries, words, strings]
    exact .label (supplied_entriesEach ih _)
  | declaration _ _ _ ihn ihp ihb =>
    rw [entries, words, strings]
    refine .label (.word (by simp) _ (.label ((ihn _).append
      (.plain (by simp) ?_ ((supplied_entriesEach ihp _).append (.label (ihb _)))))))
    split <;> simp
  | @conditional _ _ elseBlock _ _ _ ihc iht ihe =>
    rw [entries_conditional, words, strings]
    have helse : Supplied elseBlock.words elseBlock.strings
        (elseBlock.entriesElse (depth + 1)) := by
      unfold entriesElse
      split
      · exact .nil
      · exact .label (ihe ‹_› _)
    exact .label ((ihc _).append (.label ((iht _).append helse)))
  | returning _ ih =>
    rw [entries, words, strings]
    exact .label (ih _)

theorem supplied_entriesItems {items : List Node} (hw : ∀ i ∈ items, i.Whole Number) (depth : Nat) :
    Supplied (wordsEach items) (stringsEach items) (entriesItems depth items) := by
  induction items with
  | nil => exact .nil
  | cons i items ih =>
    obtain ⟨hi, hitems⟩ := List.forall_mem_cons.1 hw
    exact .label ((hi.supplied _).append (ih hitems))

theorem supplied_program {items : List Node} (hw : ∀ i ∈ items, i.Whole Number) (depth : Nat) :
    Supplied (program items).words (program items).strings ((program items).entries depth) := by
  rw [words, strings]
  cases items with
  | nil =>
    rw [entries]
    exact .nil
  | cons i items =>
    rw [entries]
    · exact .label (supplied_entriesItems hw _)
    · simp

/-- A text that mimics a line has a line break. -/
theorem newline_mem_of_mimics {text front : String} (h : Mimics text front) :
    '\n' ∈ text.toList := by
  obtain ⟨depth, word, rest, rfl⟩ := h
  simp

/-- Two programs of whole trees with the same outline are the same if their texts have no line
breaks.  They have an outline as long as their numbers can be written. -/
theorem eq_of_render_eq {a b : List Node} (ha : ∀ i ∈ a, i.Whole fun _ => True)
    (hb : ∀ i ∈ b, i.Whole fun _ => True)
    (hta : ∀ text ∈ (program a).words ++ (program a).strings, '\n' ∉ text.toList)
    (htb : ∀ text ∈ (program b).words ++ (program b).strings, '\n' ∉ text.toList) :
    ((∃ s, (program a).render = .ok s) ↔ ∀ i ∈ a, i.Whole Text.Writable) ∧
      ((∃ t, (program b).render = .ok t) ↔ ∀ i ∈ b, i.Whole Text.Writable) ∧
      ∀ s t, (program a).render = .ok s → (program b).render = .ok t → s = t →
        program a = program b := by
  refine ⟨exists_render_iff ha, exists_render_iff hb, ?_⟩
  rintro s t hs ht rfl
  have hwa := (exists_render_iff ha).1 ⟨s, hs⟩
  have hwb := (exists_render_iff hb).1 ⟨s, ht⟩
  have htext : (ofEntries standardIndent ((program a).entries 0)).text =
      (ofEntries standardIndent ((program b).entries 0)).text := by
    rw [render_program hwa] at hs
    rw [render_program hwb] at ht
    exact Except.ok.inj (hs.trans ht.symm)
  have hnone : ∀ {p : Node} {es : List Entry}, Supplied p.words p.strings es →
      (∀ text ∈ p.words ++ p.strings, '\n' ∉ text.toList) → ∀ e ∈ es, ∀ e', ¬ e.Mimics e' := by
    rintro p es hs htext e he e' ⟨-, v, v', hv, -, hm⟩
    refine htext v (List.mem_append.2 ?_) (newline_mem_of_mimics hm)
    by_cases hw : e.word = .string
    · exact .inr ((hs e he v hv).1 hw)
    · exact .inl ((hs e he v hv).2 hw (newline_mem_of_mimics hm))
  rcases eq_or_mimics_of_text_eq ha hb htext with heq | ⟨e, he, e', he', hm | hm⟩
  · exact heq
  · exact absurd hm (hnone (supplied_program ha 0) hta e he e')
  · exact absurd hm (hnone (supplied_program hb 0) htb e' he' e)

/-- Where a block ends shows in the indents alone, and that is enough. -/
theorem eq_of_render_eq_of_nested :
    ∃ s t, (program [.block [.block [.identifier "x"], .identifier "y"]]).render = .ok s ∧
      (program [.block [.block [.identifier "x", .identifier "y"]]]).render = .ok t ∧ s ≠ t := by
  have hfirst : ∀ Number, ∀ i ∈ [Node.block [.block [.identifier "x"], .identifier "y"]],
      i.Whole Number := by
    intro Number
    simp only [List.forall_mem_singleton]
    exact .block (by simp [Whole.identifier, Whole.block])
  have hsecond : ∀ Number, ∀ i ∈ [Node.block [.block [.identifier "x", .identifier "y"]]],
      i.Whole Number := by
    intro Number
    simp only [List.forall_mem_singleton]
    exact .block (by simp [Whole.identifier, Whole.block])
  obtain ⟨ha, hb, heq⟩ :=
    eq_of_render_eq (hfirst _) (hsecond _) (by decide +kernel) (by decide +kernel)
  obtain ⟨s, hs⟩ := ha.2 (hfirst _)
  obtain ⟨t, ht⟩ := hb.2 (hsecond _)
  exact ⟨s, t, hs, ht, fun h => absurd (heq s t hs ht h) (by decide +kernel)⟩

end Node

end MiniLang
