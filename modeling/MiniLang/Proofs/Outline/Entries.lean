import MiniLang.Proofs.Outline
/-!
# The entries of an outline

A line of an outline is an indent, one of a few words, a colon, and perhaps a detail.
`Node.entries` lists the lines of a tree in this form, and `Node.Whole.outline_eq` says that the
outline of a whole tree is the text of its entries.  Only a number with too many digits can be in
the way (`Node.exists_render_iff`).

The text can be read back from the left, since no word has a colon in it or begins with a blank.
Only where a detail ends cannot be told if it has a line break of its own: two lists of entries with
one text are the same unless a detail goes on with what looks like another line
(`Entry.eq_or_mimics`).
-/

set_option autoImplicit false

namespace MiniLang

/-! ## Entries -/

namespace Outline

open Printer

/-- The words that the lines of an outline begin with. -/
inductive Word where
  | identifier | integer | string | binary | call | assignment | block | declaration | conditional
  | returning | program | type | name | parameters | body | thenBranch | elseBranch | function
  | statement
  deriving DecidableEq, Repr

/-- A word as it is written. -/
def Word.text : Word → String
  | .identifier => "Identifier"
  | .integer => "IntLiteral"
  | .string => "StringLiteral"
  | .binary => "BinaryOp"
  | .call => "FuncCall"
  | .assignment => "Assignment"
  | .block => "Block"
  | .declaration => "FuncDeclaration"
  | .conditional => "IfStatement"
  | .returning => "ReturnStatement"
  | .program => "Program"
  | .type => "Type"
  | .name => "Name"
  | .parameters => "Parameters"
  | .body => "Body"
  | .thenBranch => "Then"
  | .elseBranch => "Else"
  | .function => "Function"
  | .statement => "Statement"

/-- A line of an outline: its depth, its word, and what stands behind the colon. -/
@[ext]
structure Entry where
  depth : Nat
  word : Word
  detail : Option String
  deriving DecidableEq, Repr

/-- What stands on a line behind its indent. -/
def Entry.text (e : Entry) : String :=
  match e.detail with
  | none => e.word.text ++ ":"
  | some detail => e.word.text ++ ": " ++ detail

/-- An outline that has the lines of some entries. -/
def ofEntries (indent : String) (es : List Entry) : Outline :=
  ⟨es.map fun e => indented indent e.depth e.text, none⟩

theorem ofEntries_append (indent : String) (es es' : List Entry) :
    ofEntries indent (es ++ es') = ofEntries indent es ++ ofEntries indent es' := by
  show _ = Outline.append _ _
  simp [append, ofEntries]

theorem ofEntries_cons (indent : String) (e : Entry) (es : List Entry) :
    ofEntries indent (e :: es) = line indent e.depth e.text ++ ofEntries indent es := rfl

end Outline

namespace Node

open Outline

/-- The word that an item of a program stands below. -/
def headingWord : Node → Word
  | .block _ => .block
  | .declaration .. => .function
  | _ => .statement

theorem heading_eq (n : Node) : n.heading = n.headingWord.text ++ ":" := by
  cases n <;> rfl

mutual

/-- The entries of a tree whose root stands at a depth. -/
def entries (depth : Nat) : Node → List Entry
  | .identifier name => [⟨depth, .identifier, some name⟩]
  | .integer value => [⟨depth, .integer, some (toString value)⟩]
  | .string value => [⟨depth, .string, some value⟩]
  | .binary left operator right =>
    ⟨depth, .binary, some operator⟩ :: (entries (depth + 1) left ++ entries (depth + 1) right)
  | .call name arguments =>
    ⟨depth, .call, none⟩ :: (entries (depth + 1) name ++
      ⟨depth + 1, .parameters, none⟩ :: entriesEach (depth + 2) arguments)
  | .assignment target value =>
    ⟨depth, .assignment, none⟩ :: (entries (depth + 1) target ++ entries (depth + 1) value)
  | .block statements => ⟨depth, .block, none⟩ :: entriesEach (depth + 1) statements
  | .declaration returnType name parameters body =>
    ⟨depth, .declaration, none⟩ :: ⟨depth + 1, .type, some returnType⟩ ::
      ⟨depth + 1, .name, none⟩ :: (entries (depth + 2) name ++
        ⟨depth + 1, .parameters, if parameters.isEmpty then some "()" else none⟩ ::
          (entriesEach (depth + 2) parameters ++
            ⟨depth + 1, .body, none⟩ :: entries (depth + 2) body))
  | .conditional condition thenBlock elseBlock =>
    ⟨depth, .conditional, none⟩ :: (entries (depth + 1) condition ++
      ⟨depth + 1, .thenBranch, none⟩ :: (entries (depth + 2) thenBlock ++
        if elseBlock = .absent then []
        else ⟨depth + 1, .elseBranch, none⟩ :: entries (depth + 2) elseBlock))
  | .returning expression => ⟨depth, .returning, none⟩ :: entries (depth + 1) expression
  | .program items =>
    match items with
    | [] => []
    | items => ⟨depth, .program, none⟩ :: entriesItems (depth + 1) items
  | .absent => []
  | .unknown _ => []

/-- The entries of trees at one depth. -/
def entriesEach (depth : Nat) : List Node → List Entry
  | [] => []
  | node :: nodes => entries depth node ++ entriesEach depth nodes

/-- The entries of the items of a program, each below its heading. -/
def entriesItems (depth : Nat) : List Node → List Entry
  | [] => []
  | item :: items =>
    ⟨depth, item.headingWord, none⟩ :: (entries (depth + 1) item ++ entriesItems depth items)

end

/-! ## Whole trees -/

/-- A tree in which no node is missing but the second branch of a conditional, no node is a program
or of a kind that the language does not have, and all numbers are of a given sort.  Any other node
may stand at any place, be it an expression, a statement or a block that belongs there. -/
inductive Whole (Number : Int → Prop) : Node → Prop where
  | identifier {name : String} : Whole Number (.identifier name)
  | integer {value : Int} (h : Number value) : Whole Number (.integer value)
  | string {value : String} : Whole Number (.string value)
  | binary {left right : Node} {operator : String} (hl : Whole Number left)
      (hr : Whole Number right) : Whole Number (.binary left operator right)
  | call {name : Node} {arguments : List Node} (hn : Whole Number name)
      (ha : ∀ a ∈ arguments, Whole Number a) : Whole Number (.call name arguments)
  | assignment {target value : Node} (ht : Whole Number target) (hv : Whole Number value) :
      Whole Number (.assignment target value)
  | block {statements : List Node} (hs : ∀ s ∈ statements, Whole Number s) :
      Whole Number (.block statements)
  | declaration {tag : String} {name body : Node} {parameters : List Node} (hn : Whole Number name)
      (hp : ∀ p ∈ parameters, Whole Number p) (hb : Whole Number body) :
      Whole Number (.declaration tag name parameters body)
  | conditional {condition thenBlock elseBlock : Node} (hc : Whole Number condition)
      (ht : Whole Number thenBlock) (he : elseBlock ≠ .absent → Whole Number elseBlock) :
      Whole Number (.conditional condition thenBlock elseBlock)
  | returning {expression : Node} (he : Whole Number expression) :
      Whole Number (.returning expression)

variable {n : Node}

theorem outlineEach_eq {nodes : List Node} {indent : String}
    (h : ∀ n ∈ nodes, ∀ depth : Nat, n.outline indent depth = ofEntries indent (n.entries depth))
    (depth : Nat) :
    outlineEach indent depth nodes = ofEntries indent (entriesEach depth nodes) := by
  induction nodes with
  | nil => rw [outlineEach, entriesEach]; rfl
  | cons n nodes ih =>
    obtain ⟨hn, hnodes⟩ := List.forall_mem_cons.1 h
    rw [outlineEach, entriesEach, hn, ih hnodes, ofEntries_append]

/-- A list of parts below its label, or the label with a text in their place. -/
theorem labelled_eq (indent : String) (depth deeper : Nat) (empty : Option String)
    (nodes : List Node) :
    labelled indent depth "Parameters" empty nodes.isEmpty
        (ofEntries indent (entriesEach deeper nodes)) =
      ofEntries indent (⟨depth, .parameters, if nodes.isEmpty then empty else none⟩ ::
        entriesEach deeper nodes) := by
  cases nodes with
  | nil =>
    rw [entriesEach]
    cases empty <;> rfl
  | cons n nodes => rfl

/-- The outline of a whole tree whose numbers can be written is the text of its entries. -/
theorem Whole.outline_eq (h : n.Whole Text.Writable) (indent : String) (depth : Nat) :
    n.outline indent depth = ofEntries indent (n.entries depth) := by
  have hone : ∀ k : Nat, (k : Int) + 1 = (k + 1 : Nat) := fun _ => rfl
  have htwo : ∀ k : Nat, (k : Int) + 2 = (k + 2 : Nat) := fun _ => rfl
  induction h generalizing depth with
  | identifier => rw [outline, entries]; rfl
  | integer h => rw [outline, entries, Text.ofInteger?, if_pos h]; rfl
  | string => rw [outline, entries]; rfl
  | binary _ _ ihl ihr =>
    rw [outline, entries, hone, ihl, ihr, append_assoc, ofEntries_cons, ofEntries_append]
    rfl
  | call _ _ ihn iha =>
    rw [outline, entries, hone, htwo, ihn, outlineEach_eq iha, labelled_eq, ite_self]
    simp only [append_assoc, ofEntries_cons, ofEntries_append]
    rfl
  | assignment _ _ iht ihv =>
    rw [outline, entries, hone, iht, ihv, append_assoc, ofEntries_cons, ofEntries_append]
    rfl
  | block _ ih =>
    rw [outline, entries, hone, outlineEach_eq ih]
    rfl
  | declaration _ _ _ ihn ihp ihb =>
    rw [outline, entries, hone, htwo, ihn, ihb, outlineEach_eq ihp, labelled_eq]
    simp only [append_assoc, ofEntries_cons, ofEntries_append]
    rfl
  | @conditional _ _ elseBlock _ _ _ ihc iht ihe =>
    by_cases he : elseBlock = .absent
    · rw [he, outline, entries, hone, htwo, ihc, iht, if_pos rfl]
      simp only [append_assoc, ofEntries_cons, ofEntries_append]
      rfl
    · rw [outline, entries, hone, htwo, ihc, iht, ihe he, if_neg he]
      · simp only [append_assoc, ofEntries_cons, ofEntries_append]
        rfl
      · exact he
  | returning _ ih =>
    rw [outline, entries, hone, ih]
    rfl

theorem outlineItems_eq {items : List Node} (h : ∀ i ∈ items, i.Whole Text.Writable)
    (indent : String) (depth : Nat) :
    outlineItems indent depth items = ofEntries indent (entriesItems depth items) := by
  have hone : (depth : Int) + 1 = (depth + 1 : Nat) := rfl
  induction items with
  | nil => rw [outlineItems, entriesItems]; rfl
  | cons i items ih =>
    obtain ⟨hi, hitems⟩ := List.forall_mem_cons.1 h
    rw [outlineItems, entriesItems, hone, hi.outline_eq, ih hitems, heading_eq, append_assoc,
      ofEntries_cons, ofEntries_append]
    rfl

/-- So is the outline of a program of whole trees. -/
theorem outline_program_eq {items : List Node} (h : ∀ i ∈ items, i.Whole Text.Writable)
    (indent : String) (depth : Nat) :
    (program items).outline indent depth = ofEntries indent ((program items).entries depth) := by
  have hone : (depth : Int) + 1 = (depth + 1 : Nat) := rfl
  cases items with
  | nil => rw [outline, entries]; rfl
  | cons i items =>
    rw [outline, entries, hone, outlineItems_eq h]
    · rfl
    · simp
    · simp

/-- The text that a program of whole trees is printed as. -/
theorem render_program {items : List Node} (h : ∀ i ∈ items, i.Whole Text.Writable) :
    (program items).render = .ok (ofEntries standardIndent ((program items).entries 0)).text := by
  have houtline := outline_program_eq h standardIndent 0
  rw [render_eq, show (0 : Int) = ((0 : Nat) : Int) from rfl, houtline]
  rfl

/-! ## Trees that cannot be printed -/

section

variable {Number : Int → Prop} {indent : String} {depth : Int}

/-- Each of several trees comes to the end of its outline if all of them do. -/
theorem refused_of_outlineEach {nodes : List Node}
    (h : (outlineEach indent depth nodes).refused = none) :
    ∀ n ∈ nodes, (n.outline indent depth).refused = none := by
  induction nodes with
  | nil => simp
  | cons n nodes ih =>
    rw [outlineEach, refused_append_eq_none] at h
    exact List.forall_mem_cons.2 ⟨h.1, ih h.2⟩

/-- All numbers can be written of a whole tree whose outline comes to its end. -/
theorem Whole.writable (h : n.Whole Number) (hr : (n.outline indent depth).refused = none) :
    n.Whole Text.Writable := by
  induction h generalizing depth with
  | identifier => exact .identifier
  | integer =>
    rw [outline, Text.ofInteger?] at hr
    split at hr
    · rename_i hw
      split at hw
      · exact .integer ‹_›
      · cases hw
    · cases hr
  | string => exact .string
  | binary _ _ ihl ihr =>
    rw [outline] at hr
    simp only [refused_append_eq_none] at hr
    exact .binary (ihl hr.1.2) (ihr hr.2)
  | call _ _ ihn iha =>
    rw [outline] at hr
    simp only [refused_append_eq_none] at hr
    have ha := refused_of_outlineEach (refused_of_labelled hr.2)
    exact .call (ihn hr.1.2) fun a hmem => iha a hmem (ha a hmem)
  | assignment _ _ iht ihv =>
    rw [outline] at hr
    simp only [refused_append_eq_none] at hr
    exact .assignment (iht hr.1.2) (ihv hr.2)
  | block _ ih =>
    rw [outline, refused_append_eq_none] at hr
    have hs := refused_of_outlineEach hr.2
    exact .block fun s hmem => ih s hmem (hs s hmem)
  | declaration _ _ _ ihn ihp ihb =>
    rw [outline] at hr
    simp only [refused_append_eq_none] at hr
    have hp := refused_of_outlineEach (refused_of_labelled hr.1.1.2)
    exact .declaration (ihn hr.1.1.1.2) (fun p hmem => ihp p hmem (hp p hmem)) (ihb hr.2)
  | @conditional _ _ elseBlock _ _ _ ihc iht ihe =>
    by_cases he : elseBlock = .absent
    · rw [he, outline] at hr
      simp only [refused_append_eq_none] at hr
      exact .conditional (ihc hr.1.1.1.2) (iht hr.1.2) fun hne => absurd he hne
    · rw [outline] at hr
      · simp only [refused_append_eq_none] at hr
        exact .conditional (ihc hr.1.1.1.2) (iht hr.1.2) fun hne => ihe hne hr.2.2
      · exact he
  | returning _ ih =>
    rw [outline, refused_append_eq_none] at hr
    exact .returning (ih hr.2)

theorem writable_of_outlineItems {items : List Node} (h : ∀ i ∈ items, i.Whole Number)
    (hr : (outlineItems indent depth items).refused = none) :
    ∀ i ∈ items, i.Whole Text.Writable := by
  induction items with
  | nil => simp
  | cons i items ih =>
    obtain ⟨hi, hitems⟩ := List.forall_mem_cons.1 h
    rw [outlineItems] at hr
    simp only [refused_append_eq_none] at hr
    exact List.forall_mem_cons.2 ⟨hi.writable hr.1.2, ih hitems hr.2⟩

end

/-- A program of whole trees is printed exactly if all its numbers can be written. -/
theorem exists_render_iff {Number : Int → Prop} {items : List Node}
    (h : ∀ i ∈ items, i.Whole Number) :
    (∃ text, (program items).render = .ok text) ↔ ∀ i ∈ items, i.Whole Text.Writable := by
  refine ⟨?_, fun hw => ⟨_, render_program hw⟩⟩
  rintro ⟨text, hr⟩
  have hrefused : ((program items).outline standardIndent 0).refused = none := by
    rw [render_eq, text?] at hr
    split at hr
    · cases hr
    · assumption
  cases items with
  | nil => simp
  | cons i items =>
    rw [outline] at hrefused
    · exact writable_of_outlineItems h (refused_append_eq_none.1 hrefused).2
    · exact List.cons_ne_nil _ _

end Node

/-! ## The text of entries -/

namespace Outline

open Node Printer

/-- A word is made of letters. -/
theorem Word.isAlpha_of_mem {word : Word} {c : Char} (hc : c ∈ word.text.toList) :
    c.isAlpha = true := by
  have hall : word.text.toList.all Char.isAlpha = true := by cases word <;> decide
  exact List.all_eq_true.1 hall c hc

theorem Word.text_injective {word word' : Word} (h : word.text = word'.text) : word = word' := by
  have hfind : ∀ word : Word, [Word.identifier, .integer, .string, .binary, .call, .assignment,
      .block, .declaration, .conditional, .returning, .program, .type, .name, .parameters, .body,
      .thenBranch, .elseBranch, .function, .statement].find? (·.text == word.text) = some word := by
    intro word
    cases word <;> rfl
  have hword := hfind word
  rw [h, hfind word'] at hword
  exact (Option.some.inj hword).symm

/-- A text begins with another one and goes on, behind a line break, with what looks like a line of
an outline. -/
def Mimics (text front : String) : Prop :=
  ∃ (depth : Nat) (word : Word) (rest : String),
    text = front ++ "\n" ++ indented standardIndent depth (word.text ++ ":" ++ rest)

namespace Entry

/-- The characters behind the colon. -/
def tail (e : Entry) : List Char :=
  match e.detail with
  | none => []
  | some detail => ' ' :: detail.toList

/-- The characters of the line. -/
def chars (e : Entry) : List Char :=
  List.replicate (2 * e.depth) ' ' ++ (e.word.text.toList ++ ':' :: e.tail)

/-- The characters of some lines, each ended by a line feed. -/
def page (es : List Entry) : List Char := es.flatMap fun e => e.chars ++ ['\n']

end Entry

theorem toList_indented (depth : Nat) (text : String) :
    (indented standardIndent depth text).toList =
      List.replicate (2 * depth) ' ' ++ text.toList := by
  have hjoin : (String.join (List.replicate depth standardIndent)).toList =
      List.replicate (2 * depth) ' ' := by
    induction depth with
    | zero => rfl
    | succ depth ih =>
      rw [List.replicate_succ, String.join_cons, String.toList_append, ih]
      rfl
  rw [indented, String.toList_append, Int.toNat_natCast, hjoin]

theorem toList_text_ofEntries (es : List Entry) :
    (ofEntries standardIndent es).text.toList = Entry.page es := by
  have htext : ∀ e : Entry, e.text.toList = e.word.text.toList ++ ':' :: e.tail := by
    rintro ⟨depth, word, _ | detail⟩ <;> simp [Entry.text, Entry.tail]
  rw [text, ended, String.toList_join, ofEntries, Entry.page, List.flatMap_map, List.flatMap_map]
  congr 1
  funext e
  rw [String.toList_append, toList_indented, htext]
  rfl

/-! ## Reading the text -/

/-- A mark that stands in neither of two texts ends both at the same place. -/
theorem append_mark_inj {mark : Char} {front front' rest rest' : List Char} (h : mark ∉ front)
    (h' : mark ∉ front') (heq : front ++ mark :: rest = front' ++ mark :: rest') :
    front = front' ∧ rest = rest' := by
  rcases List.append_eq_append_iff.1 heq with ⟨more, rfl, hrest⟩ | ⟨more, rfl, hrest⟩
  all_goals
    cases more with
    | nil => simpa [eq_comm] using hrest
    | cons c more =>
      obtain ⟨rfl, -⟩ := List.cons.inj hrest
      simp at h h'

/-- Blanks in front of two texts that begin with none are as many. -/
theorem replicate_append_inj {k k' : Nat} {rest rest' : List Char}
    (h : rest.head? ≠ some ' ') (h' : rest'.head? ≠ some ' ')
    (heq : List.replicate k ' ' ++ rest = List.replicate k' ' ' ++ rest') :
    k = k' ∧ rest = rest' := by
  induction k generalizing k' with
  | zero =>
    cases k' with
    | zero => exact ⟨rfl, heq⟩
    | succ k' => exact absurd (by rw [show rest = _ from heq]; rfl) h
  | succ k ih =>
    cases k' with
    | zero => exact absurd (by rw [← show _ = rest' from heq]; rfl) h'
    | succ k' =>
      obtain ⟨rfl, hrest⟩ := ih (List.cons.inj heq).2
      exact ⟨rfl, hrest⟩

/-- What a line begins with, up to its colon, has no line break. -/
theorem newline_not_mem_opening (depth : Nat) (word : Word) :
    '\n' ∉ List.replicate depth ' ' ++ (word.text.toList ++ [':']) := by
  have hword : '\n' ∉ word.text.toList := fun h => absurd (Word.isAlpha_of_mem h) (by decide)
  simp [hword]

/-- A text that goes on behind a line break with the front of a line of an outline. -/
theorem mimics_of_page {text front : String} {more rest : List Char} {es : List Entry}
    (htext : text.toList = front.toList ++ '\n' :: more)
    (hpage : Entry.page es = more ++ '\n' :: rest) : Mimics text front := by
  cases es with
  | nil => simp [Entry.page] at hpage
  | cons e es =>
    have hopening := newline_not_mem_opening (2 * e.depth) e.word
    have hline : List.replicate (2 * e.depth) ' ' ++ (e.word.text.toList ++ [':']) ++
        (e.tail ++ '\n' :: Entry.page es) = more ++ '\n' :: rest := by
      rw [← hpage]
      simp [Entry.page, Entry.chars]
    rcases List.append_eq_append_iff.1 hline with ⟨behind, rfl, -⟩ | ⟨behind, hmore, hrest⟩
    · refine ⟨e.depth, e.word, String.ofList behind, String.toList_injective ?_⟩
      simp [htext, toList_indented]
    · cases behind with
      | nil =>
        refine ⟨e.depth, e.word, "", String.toList_injective ?_⟩
        rw [List.append_nil] at hmore
        simp [htext, toList_indented, ← hmore]
      | cons c behind =>
        obtain ⟨rfl, -⟩ := List.cons.inj hrest
        exact absurd (by rw [hmore]; simp) hopening

namespace Entry

/-- A line has its depth, its word and what stands behind the colon. -/
theorem chars_append_inj {e e' : Entry} {rest rest' : List Char}
    (h : e.chars ++ rest = e'.chars ++ rest') :
    e.depth = e'.depth ∧ e.word = e'.word ∧ e.tail ++ rest = e'.tail ++ rest' := by
  have hhead : ∀ (word : Word) (rest : List Char),
      (word.text.toList ++ ':' :: rest).head? ≠ some ' ' := by
    intro word rest
    cases word <;> simp [Word.text]
  have hcolon : ∀ word : Word, ':' ∉ word.text.toList := fun word hmem =>
    absurd (Word.isAlpha_of_mem hmem) (by decide)
  simp only [chars, List.append_assoc, List.cons_append] at h
  obtain ⟨hdepth, h⟩ := replicate_append_inj (hhead _ _) (hhead _ _) h
  obtain ⟨hword, htail⟩ := append_mark_inj (hcolon _) (hcolon _) h
  refine ⟨by omega, Word.text_injective (String.toList_injective hword), htail⟩

/-- An entry whose detail goes on, behind the detail of an entry with the same word, with what looks
like a line. -/
def Mimics (e e' : Entry) : Prop :=
  e.word = e'.word ∧
    ∃ v v', e.detail = some v ∧ e'.detail = some v' ∧ Outline.Mimics v v'

/-- Entries with the same text are the same, unless a detail mimics a line. -/
theorem eq_or_mimics {es es' : List Entry} (h : page es = page es') :
    es = es' ∨ ∃ e ∈ es, ∃ e' ∈ es', e.Mimics e' ∨ e'.Mimics e := by
  induction es generalizing es' with
  | nil =>
    cases es' with
    | nil => exact .inl rfl
    | cons e' es' => simp [page] at h
  | cons e es ih =>
    cases es' with
    | nil => simp [page] at h
    | cons e' es' =>
      have hline : e.chars ++ '\n' :: page es = e'.chars ++ '\n' :: page es' := by
        simpa [page] using h
      obtain ⟨hdepth, hword, htail⟩ := chars_append_inj hline
      -- Where the first two details are the same, so are the texts of the other lines.
      have hsame (hdetail : e.detail = e'.detail) (hpage : page es = page es') :
          e :: es = e' :: es' ∨ ∃ f ∈ e :: es, ∃ f' ∈ e' :: es', f.Mimics f' ∨ f'.Mimics f := by
        rcases ih hpage with rfl | ⟨f, hf, f', hf', hm⟩
        · exact .inl (congrArg (· :: es) (Entry.ext hdepth hword hdetail))
        · exact .inr ⟨f, .tail _ hf, f', .tail _ hf', hm⟩
      cases hd : e.detail with
      | none =>
        cases hd' : e'.detail with
        | none => exact hsame (hd.trans hd'.symm) (by simpa [tail, hd, hd'] using htail)
        | some v' => simp [tail, hd, hd'] at htail
      | some v =>
        cases hd' : e'.detail with
        | none => simp [tail, hd, hd'] at htail
        | some v' =>
          simp only [tail, hd, hd', List.cons_append, List.cons.injEq, true_and] at htail
          rcases List.append_eq_append_iff.1 htail with ⟨_ | ⟨c, more⟩, hv, hmore⟩ |
            ⟨_ | ⟨c, more⟩, hv, hmore⟩
          · have hvv : v = v' := String.toList_injective (by simpa using hv.symm)
            exact hsame (by rw [hd, hd', hvv]) (by simpa using hmore)
          · obtain ⟨rfl, hpage⟩ := List.cons.inj hmore
            have hm := mimics_of_page hv hpage
            exact .inr ⟨e, .head _, e', .head _, .inr ⟨hword.symm, v', v, hd', hd, hm⟩⟩
          · have hvv : v = v' := String.toList_injective (by simpa using hv)
            exact hsame (by rw [hd, hd', hvv]) (by simpa using hmore.symm)
          · obtain ⟨rfl, hpage⟩ := List.cons.inj hmore
            have hm := mimics_of_page hv hpage
            exact .inr ⟨e, .head _, e', .head _, .inl ⟨hword, v, v', hd, hd', hm⟩⟩

end Entry

end Outline

end MiniLang
