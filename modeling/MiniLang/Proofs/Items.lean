import MiniLang.Proofs.Progress
import MiniLang.Proofs.Viable
/-!
# Items one by one

The items of a program and the statements of a block are read by two loops.  Both skip semicolons
and read one item after the other, and where no word is `int` both read the same items
(`parse_enclosed_iff`).

`ItemRun` is what the two have in common: items that are read from the front of a list, each where
the one before it has ended.  The loops are told from it (`ItemRun.readFrom_eq`,
`ItemRun.run_statements`), and it is told from them (`exists_itemRun_of_readFrom`,
`exists_itemRun_of_statements`).  The top level differs in one thing.  Right behind a semicolon it
takes `int` for a name, as a block does, and not for the tag of a declaration.
-/

set_option autoImplicit false

namespace MiniLang

open Window

/-! ## Where an item begins -/

/-- The phrase that a token opens where an item begins, right behind a semicolon or not. -/
def Token.item (behind : Bool) (t : Token) : Phrase :=
  if t.text = "\x7b" then .block
  else if behind = false ∧ t.text = "int" then .declaration
  else .statement

namespace Token

variable {t : Token} {behind : Bool}

/-- What is true of the phrases that items are is true of the one that a token opens. -/
theorem item_cases {P : Phrase → Prop} (t : Token) (behind : Bool) (hb : P .block)
    (hd : P .declaration) (hs : P .statement) : P (t.item behind) := by
  unfold item
  split
  · exact hb
  · split
    · exact hd
    · exact hs

theorem regular_item (t : Token) (behind : Bool) : (t.item behind).Regular :=
  t.item_cases behind trivial trivial trivial

theorem follow_item (t : Token) (behind : Bool) : (t.item behind).Follow = Closes :=
  t.item_cases (P := fun p => p.Follow = Closes) behind rfl rfl rfl

theorem least_item (t : Token) (behind : Bool) : (t.item behind).least = 1 :=
  t.item_cases (P := fun p => p.least = 1) behind rfl rfl rfl

/-- Only at the word `int` does it matter whether a semicolon stands in front. -/
theorem item_eq (h : t.text ≠ "int") (behind behind' : Bool) : t.item behind = t.item behind' := by
  simp [item, h]

theorem item_eq_block (h : t.text = "\x7b") (behind : Bool) : t.item behind = .block := by
  simp [item, h]

/-- An item is some node. -/
theorem run_item_ne_absent {w w₁ : Window} {n : Node} (h : (t.item behind).run w = .ok n w₁) :
    n ≠ .absent := by
  rintro rfl
  have hstatement : Vocabulary.unrestricted.Statement .absent := by
    have hmakes := Phrase.makes_of_run h
    revert hmakes
    exact t.item_cases (P := fun p => p.Makes .absent → Vocabulary.unrestricted.Statement .absent)
      behind Vocabulary.Block.statement id id
  cases hstatement with
  | expression h => cases h
  | call h => cases h

/-- An item begins with a word or with a brace that opens a block. -/
theorem opens_of_run_item (hl : t.Lexical) {ts : List Token} {n : Node} {w : Window}
    (h : (t.item behind).run (facing (t :: ts)) = .ok n w) :
    t.text = "\x7b" ∨ t.kind = .keyword ∨ t.kind = .identifier := by
  by_cases hb : t.text = "\x7b"
  · exact .inl hb
  by_cases hi : t.text = "int"
  · exact .inr (.inr (hl.kind_of_text hi))
  · rw [item, if_neg hb, if_neg (fun hint => hi hint.2), Phrase.run_statement,
      current_facing] at h
    by_cases hk : t.kind = .keyword
    · exact .inr (.inl hk)
    · by_cases hident : t.kind = .identifier
      · exact .inr (.inr hident)
      · simp [hk, hident] at h

theorem text_ne_of_run_item (hl : t.Lexical) {ts : List Token} {n : Node} {w : Window}
    (h : (t.item behind).run (facing (t :: ts)) = .ok n w) : t.text ≠ "\x7d" := by
  rcases opens_of_run_item hl h with hb | hk
  · simp [hb]
  · exact Grammar.text_ne_of_word hl hk _ (by simp)

/-- At the top level, an item is what its token opens, but for semicolons. -/
theorem run_topLevel (hl : t.Lexical) (hs : t.text ≠ ";") (ts : List Token) :
    t.topLevel.run (facing (t :: ts)) = (t.item false).run (facing (t :: ts)) := by
  have hword : ∀ text ∈ ["void", "if"], t.text = text → t.kind = .keyword := by
    intro text htext ht
    have hkind : ∀ text ∈ ["void", "if"], Kind.ofText text.toList = .keyword := by decide
    exact (hl.kind_of_text ht).trans (hkind text htext)
  by_cases hb : t.text = "\x7b"
  · simp [topLevel, item, hb]
  by_cases hi : t.text = "int"
  · simp [topLevel, item, hi]
  by_cases hv : t.text = "void"
  · simp [topLevel, item, hv, Phrase.run_statement, hword "void" (by simp) hv]
  by_cases hf : t.text = "if"
  · simp [topLevel, item, hf, Phrase.run_statement, hword "if" (by simp) hf]
  · simp [topLevel, item, hb, hi, hv, hf, Phrase.run_sentence, hs]

end Token

/-! ## The two loops -/

/-- Reads the items of a program behind those that have been read.  Right behind a semicolon the
next one is read as the rest of its sentence. -/
def readFrom (behind : Bool) (items : List Node) (w : Window) : Outcome Node :=
  if behind then (Phrase.sentence.run w).andThen (Grammar.readOn items)
  else (readItems items w).outcome

theorem readOn_of_ne {n : Node} (h : n ≠ .absent) (items : List Node) (w : Window) :
    Grammar.readOn items n w = readFrom false (items ++ [n]) w :=
  if_neg h

theorem readFrom_nil (behind : Bool) (items : List Node) :
    readFrom behind items (facing []) = .ok (.program items) (facing []) := by
  have hfalse : readFrom false items (facing []) = .ok (.program items) (facing []) :=
    readItems_nil items
  cases behind with
  | false => exact hfalse
  | true =>
    rw [readFrom, if_pos rfl, Phrase.run_sentence, if_neg (by simp), if_pos (by simp)]
    exact hfalse

theorem readFrom_separator {s : Token} (hs : s.text = ";") (behind : Bool) (items : List Node)
    (ts : List Token) :
    readFrom behind items (facing (s :: ts)) = readFrom true items (facing ts) := by
  have hsentence : Phrase.sentence.run (facing (s :: ts)) = Phrase.sentence.run (facing ts) := by
    rw [Phrase.run_sentence, if_pos (by simp [hs]), accept_facing hs, Outcome.andThen_ok]
  cases behind with
  | true => rw [readFrom, if_pos rfl, hsentence, readFrom, if_pos rfl]
  | false =>
    have htop : s.topLevel = .sentence := by simp [Token.topLevel, hs]
    rw [readFrom, if_neg Bool.false_ne_true, Grammar.outcome_readItems_facing, htop, hsentence,
      readFrom, if_pos rfl]

/-- Reading items is reading the one that the current token opens, and then the others. -/
theorem readFrom_item {t : Token} (hl : t.Lexical) (hs : t.text ≠ ";") (behind : Bool)
    (items : List Node) (ts : List Token) :
    readFrom behind items (facing (t :: ts)) =
      ((t.item behind).run (facing (t :: ts))).andThen fun n w =>
        readFrom false (items ++ [n]) w := by
  -- an item is no absent node, so what follows it is read behind one item more
  have hon : ∀ behind, ((t.item behind).run (facing (t :: ts))).andThen (Grammar.readOn items) =
      ((t.item behind).run (facing (t :: ts))).andThen fun n w =>
        readFrom false (items ++ [n]) w := by
    intro behind
    cases hr : (t.item behind).run (facing (t :: ts)) with
    | fail fault w => rfl
    | ok n w => exact readOn_of_ne (Token.run_item_ne_absent hr) items w
  have hfalse : readFrom false items (facing (t :: ts)) =
      ((t.item false).run (facing (t :: ts))).andThen fun n w =>
        readFrom false (items ++ [n]) w := by
    rw [← hon, readFrom, if_neg Bool.false_ne_true, Grammar.outcome_readItems_facing,
      Token.run_topLevel hl hs]
  cases behind with
  | false => exact hfalse
  | true =>
    by_cases hb : t.text = "\x7b"
    · -- a block ends the sentence of the semicolons before it
      rw [readFrom, if_pos rfl, Phrase.run_sentence, if_neg (by simp [hb]), if_pos (by simp [hb]),
        Outcome.andThen_ok, Token.item_eq_block hb true, ← Token.item_eq_block hb false]
      exact hfalse
    · rw [← hon, readFrom, if_pos rfl, Phrase.run_sentence, if_neg (by simp [hs]),
        if_neg (by simp [hb])]
      simp [Token.item, hb]

theorem run_statements_close {r : Token} (hr : r.text = "\x7d") (body : List Node)
    (ts : List Token) :
    (Phrase.statements body).run (facing (r :: ts)) = .ok (.block body) (facing ts) := by
  rw [Phrase.run_statements, if_pos (by simp [hr]), accept_facing hr, Outcome.andThen_ok]

theorem run_statements_separator {s : Token} (hs : s.text = ";") (body : List Node)
    (ts : List Token) :
    (Phrase.statements body).run (facing (s :: ts)) =
      (Phrase.statements body).run (facing ts) := by
  rw [Phrase.run_statements, if_neg (by simp [hs]), if_pos (by simp [hs]), accept_facing hs,
    Outcome.andThen_ok]

/-- Reading the statements of a block is reading the one that the current token opens, and then the
others. -/
theorem run_statements_item {t : Token} (hs : t.text ≠ ";") (hr : t.text ≠ "\x7d")
    (body : List Node) (ts : List Token) :
    (Phrase.statements body).run (facing (t :: ts)) =
      ((t.item true).run (facing (t :: ts))).andThen fun n w =>
        (Phrase.statements (body ++ [n])).run w := by
  rw [Phrase.run_statements, if_neg (by simp [hr]), if_neg (by simp [hs])]
  by_cases hb : t.text = "\x7b"
  · rw [if_pos (by simp [hb]), Token.item_eq_block hb]
  · rw [if_neg (by simp [hb])]
    simp [Token.item, hb]

/-! ## Runs of items -/

/-- Items that are read one after the other from the front of a list, in front of more tokens.  The
run may begin right behind a semicolon, and it is loose if it ends there. -/
inductive ItemRun (more : List Token) : Bool → List Token → List Node → Bool → Prop where
  | nil {behind : Bool} : ItemRun more behind [] [] behind
  | separator {behind loose : Bool} {s : Token} {ts : List Token} {ns : List Node}
      (hs : s.text = ";") (h : ItemRun more true ts ns loose) :
      ItemRun more behind (s :: ts) ns loose
  | item {behind loose : Bool} {t : Token} {us ts : List Token} {n : Node} {ns : List Node}
      (hs : t.text ≠ ";")
      (hr : (t.item behind).run (facing (t :: us ++ (ts ++ more))) = .ok n (facing (ts ++ more)))
      (h : ItemRun more false ts ns loose) : ItemRun more behind (t :: us ++ ts) (n :: ns) loose

/-- An item that is read has taken a front of the list, which makes the same item in front of
whatever shows the same token, and of all that closes it. -/
theorem exists_front_of_item {behind : Bool} {t : Token} {ts : List Token} {n : Node} {w : Window}
    (hl : ∀ u ∈ t :: ts, u.Lexical) (h : (t.item behind).run (facing (t :: ts)) = .ok n w) :
    ∃ us rest, ts = us ++ rest ∧ w = facing rest ∧
      ∀ rest', rest'.head? = rest.head? ∨ Closes rest' →
        (t.item behind).run (facing (t :: us ++ rest')) = .ok n (facing rest') := by
  have hreplays := Phrase.replays (t.regular_item behind) hl
  rw [t.follow_item] at hreplays
  cases hreplays with
  | fail _ hfail =>
    rw [h] at hfail
    cases hfail
  | @ok us rest m hts hok =>
    have hread := hok rest (.inl rfl)
    rw [← hts, h] at hread
    cases hread
    have htakes := ((t.item behind).within_run _).left_le h
    rw [t.least_item, left_facing, left_facing, hts, List.length_append] at htakes
    match us, hts with
    | [], _ => exact absurd htakes (by simp)
    | u :: us, hts =>
      cases hts
      exact ⟨us, rest, rfl, rfl, hok⟩

namespace ItemRun

variable {more more' ts : List Token} {behind loose : Bool} {ns : List Node}

/-- A run of items in front of other tokens that close what has been read. -/
theorem change (h : ItemRun more behind ts ns loose) (hl : ∀ t ∈ ts ++ more, t.Lexical)
    (hm : Closes more') : ItemRun more' behind ts ns loose := by
  induction h with
  | nil => exact .nil
  | separator hs _ ih => exact .separator hs (ih (List.forall_mem_cons.1 hl).2)
  | @item behind loose t us ts n ns hs hr _ ih =>
    rw [List.append_assoc] at hl
    refine .item hs ?_ (ih (List.forall_mem_append.1 hl).2)
    obtain ⟨us', rest, heq, hw, hok⟩ := exists_front_of_item hl hr
    obtain ⟨rfl, rfl⟩ := List.append_inj' heq (length_of_facing_eq hw)
    refine hok _ ?_
    cases ts with
    | nil => exact .inr hm
    | cons u ts => exact .inl rfl

/-- A run of items in a program. -/
theorem readFrom_eq (h : ItemRun more behind ts ns loose) (hl : ∀ t ∈ ts, t.Lexical)
    (items : List Node) :
    readFrom behind items (facing (ts ++ more)) = readFrom loose (items ++ ns) (facing more) := by
  induction h generalizing items with
  | nil => rw [List.nil_append, List.append_nil]
  | separator hs _ ih =>
    rw [List.cons_append, readFrom_separator hs, ih (List.forall_mem_cons.1 hl).2]
  | @item behind loose t us ts n ns hs hr _ ih =>
    obtain ⟨hlus, hlts⟩ := List.forall_mem_append.1 hl
    rw [List.append_assoc, List.cons_append, readFrom_item (hlus t (by simp)) hs,
      ← List.cons_append, hr, Outcome.andThen_ok, ih hlts, List.append_assoc,
      List.singleton_append]

/-- A run of items in a block, where `int` opens none. -/
theorem run_statements (h : ItemRun more behind ts ns loose) (hl : ∀ t ∈ ts, t.Lexical)
    (hint : ∀ t ∈ ts, t.text ≠ "int") (body : List Node) :
    (Phrase.statements body).run (facing (ts ++ more)) =
      (Phrase.statements (body ++ ns)).run (facing more) := by
  induction h generalizing body with
  | nil => rw [List.nil_append, List.append_nil]
  | separator hs _ ih =>
    rw [List.cons_append, run_statements_separator hs,
      ih (List.forall_mem_cons.1 hl).2 (List.forall_mem_cons.1 hint).2]
  | @item behind loose t us ts n ns hs hr _ ih =>
    obtain ⟨hlus, hlts⟩ := List.forall_mem_append.1 hl
    obtain ⟨hintus, hintts⟩ := List.forall_mem_append.1 hint
    rw [Token.item_eq (hintus t (by simp)) behind true] at hr
    have hclose : t.text ≠ "\x7d" := Token.text_ne_of_run_item (hlus t (by simp)) hr
    rw [List.append_assoc, List.cons_append, run_statements_item hs hclose,
      ← List.cons_append, hr, Outcome.andThen_ok, ih hlts hintts, List.append_assoc,
      List.singleton_append]

/-- A run that makes no item has passed semicolons alone. -/
theorem forall_separator (h : ItemRun more behind ts [] loose) : ∀ t ∈ ts, t.text = ";" := by
  generalize hns : ([] : List Node) = ns at h
  induction h with
  | nil => exact List.forall_mem_nil _
  | separator hs _ ih => exact List.forall_mem_cons.2 ⟨hs, ih hns⟩
  | item => cases hns

end ItemRun

/-- Items that are read up to the end of a list are a run. -/
theorem exists_itemRun_of_readFrom {behind : Bool} {items : List Node} {ts : List Token} {p : Node}
    {w : Window} (hl : ∀ t ∈ ts, t.Lexical)
    (h : readFrom behind items (facing ts) = .ok p w) :
    ∃ ns loose, p = .program (items ++ ns) ∧ ItemRun [] behind ts ns loose := by
  induction hn : ts.length using Nat.strongRecOn generalizing behind items ts with
  | ind k ih =>
    match ts with
    | [] =>
      rw [readFrom_nil] at h
      cases h
      exact ⟨[], behind, by rw [List.append_nil], .nil⟩
    | t :: ts =>
      obtain ⟨hlt, hlts⟩ := List.forall_mem_cons.1 hl
      rw [List.length_cons] at hn
      by_cases hs : t.text = ";"
      · rw [readFrom_separator hs] at h
        obtain ⟨ns, loose, hp, hrun⟩ := ih ts.length (by omega) hlts h rfl
        exact ⟨ns, loose, hp, .separator hs hrun⟩
      · rw [readFrom_item hlt hs] at h
        obtain ⟨n, w₁, hr, h⟩ := Outcome.andThen_eq_ok.1 h
        obtain ⟨us, rest, rfl, rfl, -⟩ := exists_front_of_item hl hr
        rw [List.length_append] at hn
        obtain ⟨ns, loose, hp, hrun⟩ :=
          ih rest.length (by omega) (List.forall_mem_append.1 hlts).2 h rfl
        refine ⟨n :: ns, loose, by rw [hp, List.append_assoc, List.singleton_append], ?_⟩
        exact .item hs (by rwa [List.append_nil]) hrun

/-- Statements that are read up to a brace at the end of a list are a run in front of it, where
`int` opens no item. -/
theorem exists_itemRun_of_statements {body : List Node} {ts : List Token} {r : Token} {n : Node}
    (hl : ∀ t ∈ ts ++ [r], t.Lexical) (hint : ∀ t ∈ ts, t.text ≠ "int") (hr : r.text = "\x7d")
    (h : (Phrase.statements body).run (facing (ts ++ [r])) = .ok n (facing [])) (behind : Bool) :
    ∃ ns loose, n = .block (body ++ ns) ∧ ItemRun [r] behind ts ns loose := by
  induction hn : ts.length using Nat.strongRecOn generalizing behind body ts with
  | ind k ih =>
    match ts with
    | [] =>
      rw [List.nil_append, run_statements_close hr] at h
      cases h
      exact ⟨[], behind, by rw [List.append_nil], .nil⟩
    | t :: ts =>
      have hlts : ∀ u ∈ ts ++ [r], u.Lexical := (List.forall_mem_cons.1 hl).2
      obtain ⟨hintt, hintts⟩ := List.forall_mem_cons.1 hint
      rw [List.length_cons] at hn
      rw [List.cons_append] at h
      by_cases hc : t.text = "\x7d"
      · -- the block ends at its last token only
        rw [run_statements_close hc] at h
        injection h with _ hw
        simpa using length_of_facing_eq hw
      by_cases hs : t.text = ";"
      · rw [run_statements_separator hs] at h
        obtain ⟨ns, loose, hb, hrun⟩ := ih ts.length (by omega) hlts hintts h true rfl
        exact ⟨ns, loose, hb, .separator hs hrun⟩
      · rw [run_statements_item hs hc, Token.item_eq hintt true behind] at h
        obtain ⟨m, w₁, hread, h⟩ := Outcome.andThen_eq_ok.1 h
        obtain ⟨us, rest, heq, rfl, -⟩ := exists_front_of_item hl hread
        have hne : rest ≠ [] := by
          rintro rfl
          simp [Phrase.run_statements, accept] at h
        obtain ⟨front, v, rfl⟩ : ∃ front v, rest = front ++ [v] :=
          ⟨_, _, (List.dropLast_concat_getLast hne).symm⟩
        rw [← List.append_assoc] at heq
        obtain ⟨rfl, hv⟩ := List.append_inj' heq rfl
        cases hv
        rw [List.length_append] at hn
        rw [List.append_assoc] at hlts
        obtain ⟨ns, loose, hb, hrun⟩ := ih front.length (by omega)
          (List.forall_mem_append.1 hlts).2 (List.forall_mem_append.1 hintts).2 h false rfl
        refine ⟨m :: ns, loose, by rw [hb, List.append_assoc, List.singleton_append], ?_⟩
        refine .item hs ?_ hrun
        rwa [List.append_assoc] at hread

/-! ## Braces around a program -/

theorem parse_eq_readFrom (ts : List Token) :
    parse (.ofTokens (ts.map some)) = (readFrom false [] (facing ts)).result :=
  parse_ofTokens ts

/-- A program is a run of items up to the end of its tokens. -/
theorem exists_itemRun_of_parse {ts : List Token} (hl : ∀ t ∈ ts, t.Lexical) {p : Node}
    (h : parse (.ofTokens (ts.map some)) = .ok p) :
    ∃ ns loose, p = .program ns ∧ ItemRun [] false ts ns loose := by
  rw [parse_eq_readFrom] at h
  cases hr : readFrom false [] (facing ts) with
  | fail fault w =>
    rw [hr] at h
    cases h
  | ok p w =>
    rw [hr] at h
    cases h
    exact exists_itemRun_of_readFrom hl hr

theorem ItemRun.parse_eq {ts : List Token} {ns : List Node} {loose : Bool}
    (h : ItemRun [] false ts ns loose) (hl : ∀ t ∈ ts, t.Lexical) :
    parse (.ofTokens (ts.map some)) = .ok (.program ns) := by
  have hread := h.readFrom_eq hl []
  rw [List.append_nil, List.nil_append, readFrom_nil] at hread
  rw [parse_eq_readFrom, hread]
  rfl

/-- A block holds the items of a run in front of its last token. -/
theorem ItemRun.run_block {ts : List Token} {ns : List Node} {behind loose : Bool} {l r : Token}
    (h : ItemRun [r] behind ts ns loose) (hl : ∀ t ∈ ts, t.Lexical)
    (hint : ∀ t ∈ ts, t.text ≠ "int") (ho : l.text = "\x7b") (hc : r.text = "\x7d") :
    Phrase.block.run (facing (l :: (ts ++ [r]))) = .ok (.block ns) (facing []) := by
  rw [Phrase.run_block, accept_facing ho, Outcome.andThen_ok, h.run_statements hl hint,
    List.nil_append, run_statements_close hc]

/-- Tokens that make a program make a block in braces, if `int` is none of them. -/
theorem ItemRun.enclosed {ts : List Token} {ns : List Node} {behind loose : Bool} {l r : Token}
    (h : ItemRun [] behind ts ns loose) (hl : ∀ t ∈ l :: (ts ++ [r]), t.Lexical)
    (hint : ∀ t ∈ ts, t.text ≠ "int") (ho : l.text = "\x7b") (hc : r.text = "\x7d") :
    ItemRun [] false (l :: (ts ++ [r])) [.block ns] false := by
  have hlts := (List.forall_mem_append.1 (List.forall_mem_cons.1 hl).2).1
  have hrun : ItemRun [r] behind ts ns loose :=
    h.change (by rwa [List.append_nil]) (closes_cons (by simp [hc, closers]) [])
  have hblock := hrun.run_block hlts hint ho hc
  have hitem : ItemRun [] false (l :: (ts ++ [r]) ++ []) [.block ns] false := by
    refine .item (by simp [ho]) ?_ .nil
    rw [Token.item_eq_block ho]
    simpa using hblock
  rwa [List.append_nil] at hitem

/-- Tokens in braces that make a block, and nothing but that, make its statements as a program, if
`int` is none of them. -/
theorem ItemRun.of_enclosed {ts : List Token} {ns : List Node} {loose : Bool} {l r : Token}
    (h : ItemRun [] false (l :: (ts ++ [r])) [.block ns] loose)
    (hl : ∀ t ∈ l :: (ts ++ [r]), t.Lexical) (hint : ∀ t ∈ ts, t.text ≠ "int")
    (ho : l.text = "\x7b") (hc : r.text = "\x7d") : ∃ loose, ItemRun [] false ts ns loose := by
  have hlts := (List.forall_mem_cons.1 hl).2
  generalize hus : l :: (ts ++ [r]) = us at h
  cases h with
  | separator hs => cases hus; simp [ho] at hs
  | @item _ _ t us rest _ _ _ hr hrest =>
    obtain ⟨rfl, heq⟩ : l = t ∧ ts ++ [r] = us ++ rest := List.cons.inj hus
    -- Behind the block there are only semicolons, and the last token is none.
    obtain rfl : rest = [] := by
      by_contra hne
      obtain ⟨front, v, rfl⟩ : ∃ front v, rest = front ++ [v] :=
        ⟨_, _, (List.dropLast_concat_getLast hne).symm⟩
      have hv := hrest.forall_separator v (by simp)
      rw [← List.append_assoc] at heq
      obtain ⟨-, hvr⟩ := List.append_inj' heq rfl
      cases hvr
      simp [hc] at hv
    obtain rfl : us = ts ++ [r] := (heq.trans (List.append_nil us)).symm
    simp only [List.append_nil] at hr
    rw [Token.item_eq_block ho, Phrase.run_block, accept_facing ho, Outcome.andThen_ok] at hr
    obtain ⟨ns', loose', hb, hrun⟩ := exists_itemRun_of_statements hlts hint hc hr false
    cases hb
    exact ⟨loose', hrun.change hlts closes_nil⟩

/-- The top level and a block read the same items.  Tokens of a source text, with no word `int`
among them, are parsed to a program if and only if they are, in braces, to a program of one block
that holds the same items. -/
theorem parse_enclosed_iff {source : String}
    (hint : ∀ t ∈ (tokenize source).tokens, t.text ≠ "int") (p q : Position) (items : List Node) :
    parse (.ofTokens ((tokenize source).tokens.map some)) = .ok (.program items) ↔
      parse (.ofTokens ((⟨.special, "\x7b", p⟩ :: ((tokenize source).tokens ++
          [⟨.special, "\x7d", q⟩])).map some)) =
        .ok (.program [.block items]) := by
  have hl : ∀ t ∈ (tokenize source).tokens, t.Lexical := fun t => lexical_of_mem_tokenize
  have hlall : ∀ t ∈ (⟨.special, "\x7b", p⟩ :: ((tokenize source).tokens ++
      [⟨.special, "\x7d", q⟩]) : List Token), t.Lexical := by
    have hbraces : ∀ text ∈ ["\x7b", "\x7d"], Kind.admits .special text.toList = true := by decide
    refine List.forall_mem_cons.2 ⟨hbraces _ (by simp), List.forall_mem_append.2 ⟨hl, ?_⟩⟩
    exact List.forall_mem_singleton.2 (hbraces _ (by simp))
  constructor
  · intro h
    obtain ⟨ns, loose, hns, hrun⟩ := exists_itemRun_of_parse hl h
    cases hns
    exact (hrun.enclosed hlall hint rfl rfl).parse_eq hlall
  · intro h
    obtain ⟨ns, loose, hns, hrun⟩ := exists_itemRun_of_parse hlall h
    cases hns
    obtain ⟨_, hrun⟩ := hrun.of_enclosed hlall hint rfl rfl
    exact hrun.parse_eq hl

/-- The last brace of `f(1); {} x = {` is an operand, in a block as well. -/
theorem parse_enclosed_iff_of_operand :
    parse (.ofTokens ((tokenize "f(1); \x7b\x7d x = \x7b").tokens.map some)) =
        .ok (.program [.call (.identifier "f") [.integer 1], .block [],
          .assignment (.identifier "x") (.string "\x7b")]) ∧
      parse (.ofTokens ((⟨.special, "\x7b", ⟨1, 1⟩⟩ ::
          ((tokenize "f(1); \x7b\x7d x = \x7b").tokens ++
            [⟨.special, "\x7d", ⟨2, 1⟩⟩])).map some)) =
        .ok (.program [.block [.call (.identifier "f") [.integer 1], .block [],
          .assignment (.identifier "x") (.string "\x7b")]]) := by
  have hparse : parse (.ofTokens ((tokenize "f(1); \x7b\x7d x = \x7b").tokens.map some)) =
      .ok (.program [.call (.identifier "f") [.integer 1], .block [],
        .assignment (.identifier "x") (.string "\x7b")]) := by
    decide +kernel
  exact ⟨hparse, (parse_enclosed_iff (by decide +kernel) _ _ _).1 hparse⟩

end MiniLang
