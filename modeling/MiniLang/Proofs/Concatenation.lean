import MiniLang.Proofs.Extension
import MiniLang.Proofs.Items
import MiniLang.Proofs.Lines
/-!
# Programs one after the other

Two source texts that are parsed to programs are parsed, one after the other, to the items of both,
with a line break between them or with a semicolon on a line of its own (`parse_append_lines`).  No
item goes on into what another program begins with, unless that is `else`.

One thing comes in between.  Right behind a semicolon `int` is taken for a name, so a declaration
with that tag is not read there, although it is read at the beginning of a text
(`ItemRun.fail_of_int`).
-/

set_option autoImplicit false

namespace MiniLang

open Window

/-! ## How programs begin -/

instance (text : String) (ts : List Token) : Decidable (StartsWith text ts) :=
  match ts with
  | [] => inferInstanceAs (Decidable False)
  | t :: _ => inferInstanceAs (Decidable (t.text = text))

/-- Tokens that begin with a word, a brace or a semicolon are none that a phrase goes on into, but
for `else`. -/
theorem foreign_of_bounds {t : Token} {ts : List Token} (hl : t.Lexical) (hb : Grammar.Bounds t)
    (helse : t.text ≠ "else") : Foreign (t :: ts) := by
  obtain ⟨hstops, hparenthesis⟩ := Grammar.ends_of_bounds hl hb
  refine ⟨hstops, hparenthesis, fun hc => ?_, helse⟩
  have hspecial : t.kind = .special := hl.kind_of_text hc
  rcases hb with hk | hk | hm
  · rw [hspecial] at hk
    cases hk
  · rw [hspecial] at hk
    cases hk
  · rw [show t.text = "," from hc] at hm
    exact absurd hm (by decide)

namespace ItemRun

variable {more ts : List Token} {behind loose : Bool} {ns : List Node}

theorem foreign (h : ItemRun more behind ts ns loose) (hl : ∀ t ∈ ts, t.Lexical)
    (helse : ¬ StartsWith "else" ts) : Foreign ts := by
  cases h with
  | nil => exact ⟨trivial, id, id, id⟩
  | separator hs =>
    exact foreign_of_bounds (hl _ (by simp)) (.inr (.inr (by simp [hs]))) helse
  | item hs hr =>
    refine foreign_of_bounds (hl _ (by simp)) ?_ helse
    rcases Token.opens_of_run_item (hl _ (by simp)) hr with hb | hk | hi
    · exact .inr (.inr (by simp [hb]))
    · exact .inl hk
    · exact .inr (.inl hi)

/-! ## Runs and what stands behind them -/

/-- A run of items that nothing stands behind is one in front of what no phrase goes on into. -/
theorem extend (h : ItemRun [] behind ts ns loose) (hm : Foreign more) :
    ItemRun more behind ts ns loose := by
  induction h with
  | nil => exact .nil
  | separator hs _ ih => exact .separator hs ih
  | @item behind loose t us ts n ns hs hr _ ih =>
    refine .item hs ?_ ih
    have hstops : (t.item behind).StopsAt more :=
      t.item_cases (P := fun p => p.StopsAt more) behind trivial trivial trivial
    rw [List.append_nil] at hr
    obtain ⟨rest, hrest, hread⟩ := Phrase.carries hm hstops _ _ _ hr
    obtain rfl := eq_of_facing_eq hrest
    rwa [List.append_assoc] at hread

/-- A semicolon behind a run of items. -/
theorem snoc {s : Token} (h : ItemRun (s :: more) behind ts ns loose) (hs : s.text = ";") :
    ItemRun more behind (ts ++ [s]) ns true := by
  induction h with
  | nil => exact .separator hs .nil
  | separator hs' _ ih => exact .separator hs' ih
  | @item behind loose t us ts n ns hs' hr _ ih =>
    rw [List.append_assoc]
    refine .item hs' ?_ ih
    rwa [List.append_assoc ts, List.singleton_append]

/-- A run that ends right behind a semicolon has one behind its items, unless it has not begun. -/
theorem exists_snoc (h : ItemRun more behind ts ns loose) (hloose : loose = true) :
    ts = [] ∧ behind = true ∨ ∃ us s loose, ts = us ++ [s] ∧ s.text = ";" ∧
      ItemRun (s :: more) behind us ns loose := by
  induction h with
  | nil => exact .inl ⟨rfl, hloose⟩
  | @separator behind loose s ts ns hs h ih =>
    rcases ih hloose with ⟨rfl, -⟩ | ⟨us, s', loose', rfl, hs', hrun⟩
    · cases h with
      | nil => exact .inr ⟨[], s, behind, rfl, hs, .nil⟩
    · exact .inr ⟨s :: us, s', loose', rfl, hs', .separator hs hrun⟩
  | @item behind loose t us ts n ns hs hr h ih =>
    rcases ih hloose with ⟨_, hfalse⟩ | ⟨us', s', loose', rfl, hs', hrun⟩
    · exact Bool.noConfusion hfalse
    · refine .inr ⟨t :: us ++ us', s', loose', (List.append_assoc _ _ _).symm, hs', ?_⟩
      refine .item hs ?_ hrun
      rwa [List.append_assoc us', List.singleton_append] at hr

end ItemRun

/-! ## Behind a semicolon -/

/-- Where no `int` stands in front, items are read in the same way right behind a semicolon. -/
theorem readFrom_true_eq {ts : List Token} (hl : ∀ t ∈ ts, t.Lexical)
    (hint : ¬ StartsWith "int" ts) (items : List Node) :
    readFrom true items (facing ts) = readFrom false items (facing ts) := by
  match ts with
  | [] => rw [readFrom_nil, readFrom_nil]
  | t :: ts =>
    by_cases hs : t.text = ";"
    · rw [readFrom_separator hs, readFrom_separator hs]
    · have hlt := hl t (by simp)
      rw [readFrom_item hlt hs, readFrom_item hlt hs, Token.item_eq hint true false]

/-- A statement is not begun by two names. -/
theorem run_statement_of_names {t x : Token} {ts : List Token} (hx : x.Lexical)
    (ht : t.kind = .identifier) (hk : x.kind = .identifier) :
    Phrase.statement.run (facing (t :: x :: ts)) =
      .fail (.syntactic (.afterIdentifier (some x))) (facing (t :: x :: ts)) := by
  have hne : x.text ≠ "(" := by
    intro hc
    have hspecial : x.kind = .special := hx.kind_of_text hc
    rw [hk] at hspecial
    cases hspecial
  simp [Phrase.run_statement, Phrase.run_identifierLed, ht, hk, hne]

/-- A declaration with the tag `int` is not read right behind a semicolon: there the tag is a name,
and no statement goes on with the name behind it. -/
theorem ItemRun.fail_of_int {ts : List Token} {ns : List Node} {loose : Bool}
    (h : ItemRun [] false ts ns loose) (hl : ∀ t ∈ ts, t.Lexical) (hint : StartsWith "int" ts)
    (items : List Node) :
    ∃ x : Token, x.kind = .identifier ∧ readFrom true items (facing ts) =
      .fail (.syntactic (.afterIdentifier (some x))) (facing ts) := by
  cases h with
  | nil => exact hint.elim
  | separator hs => exact absurd (hs.symm.trans hint) (by decide)
  | @item _ _ t us ts n ns hs hr _ =>
    have ht : t.text = "int" := hint
    have hlt := hl t (by simp)
    rw [List.append_nil] at hr
    have hdeclaration : t.item false = .declaration := by simp [Token.item, ht]
    rw [hdeclaration, Phrase.run_declaration, List.cons_append, current_facing] at hr
    simp only [advance_facing, Outcome.andThen_ok] at hr
    obtain ⟨name, w₁, hname, -⟩ := Outcome.andThen_eq_ok.1 hr
    obtain ⟨x, rest, heq, hk, -, -⟩ := identifier_facing_eq_ok.1 hname
    rw [List.cons_append, heq] at hl ⊢
    refine ⟨x, hk, ?_⟩
    have hstatement : t.item true = .statement := by simp [Token.item, ht]
    rw [readFrom_item hlt hs, hstatement,
      run_statement_of_names (hl x (by simp)) (hlt.kind_of_text ht) hk, Outcome.andThen_fail]

/-! ## Lists of tokens -/

/-- What two programs make one after the other: the items of both, or in an exceptional case the
fault of two names in a row. -/
def Joins (result : Except Fault Node) (items : List Node) (exception : Prop) : Prop :=
  (¬ exception → result = .ok (.program items)) ∧
    (exception → ∃ x : Token, x.kind = .identifier ∧
      result = .error (.syntactic (.afterIdentifier (some x))))

theorem Joins.congr {result : Except Fault Node} {items : List Node} {exception exception' : Prop}
    (h : Joins result items exception) (he : exception' ↔ exception) :
    Joins result items exception' := by
  rwa [propext he]

/-- Tokens of a program whose last one is a semicolon that could be left out. -/
def EndsLoose (ts : List Token) (items : List Node) : Prop :=
  ∃ us s, ts = us ++ [s] ∧ s.text = ";" ∧ parse (.ofTokens (us.map some)) = .ok (.program items)

section

variable {ts us : List Token} {a b : List Node}

/-- A run of items in front of a program. -/
theorem ItemRun.joins {loose loose' : Bool} (h : ItemRun us false ts a loose)
    (h' : ItemRun [] false us b loose') (hl : ∀ t ∈ ts ++ us, t.Lexical) :
    Joins (parse (.ofTokens ((ts ++ us).map some))) (a ++ b)
      (StartsWith "int" us ∧ loose = true) := by
  obtain ⟨hlts, hlus⟩ := List.forall_mem_append.1 hl
  have hread : parse (.ofTokens ((ts ++ us).map some)) = (readFrom loose a (facing us)).result := by
    rw [parse_eq_readFrom, h.readFrom_eq hlts, List.nil_append]
  have hitems : readFrom false a (facing us) = .ok (.program (a ++ b)) (facing []) := by
    have := h'.readFrom_eq hlus a
    rwa [List.append_nil, readFrom_nil] at this
  constructor
  · intro hnot
    have hsame : readFrom loose a (facing us) = readFrom false a (facing us) := by
      cases loose with
      | false => rfl
      | true => exact readFrom_true_eq hlus (fun hint => hnot ⟨hint, rfl⟩) a
    rw [hread, hsame, hitems]
    rfl
  · rintro ⟨hint, rfl⟩
    obtain ⟨x, hk, hfail⟩ := h'.fail_of_int hlus hint a
    exact ⟨x, hk, by rw [hread, hfail]; rfl⟩

/-- Two programs with a semicolon between them. -/
theorem joins_separator {s : Token} (hl : ∀ t ∈ ts ++ [s] ++ us, t.Lexical) (hs : s.text = ";")
    (hts : parse (.ofTokens (ts.map some)) = .ok (.program a))
    (hus : parse (.ofTokens (us.map some)) = .ok (.program b)) :
    Joins (parse (.ofTokens ((ts ++ [s] ++ us).map some))) (a ++ b)
      (StartsWith "int" us) := by
  obtain ⟨hlfront, hlus⟩ := List.forall_mem_append.1 hl
  have hlts := (List.forall_mem_append.1 hlfront).1
  obtain ⟨_, loose, hns, hrun⟩ := exists_itemRun_of_parse hlts hts
  cases hns
  obtain ⟨_, loose', hns, hrun'⟩ := exists_itemRun_of_parse hlus hus
  cases hns
  have hclosed : ItemRun (s :: us) false ts a loose :=
    hrun.change (by rwa [List.append_nil]) (closes_cons (by simp [hs, closers]) us)
  exact ((hclosed.snoc hs).joins hrun' hl).congr (by simp)

/-- Two programs with nothing between them, the second of which does not begin with `else`. -/
theorem joins_adjacent (hl : ∀ t ∈ ts ++ us, t.Lexical) (helse : ¬ StartsWith "else" us)
    (hts : parse (.ofTokens (ts.map some)) = .ok (.program a))
    (hus : parse (.ofTokens (us.map some)) = .ok (.program b)) :
    Joins (parse (.ofTokens ((ts ++ us).map some))) (a ++ b)
      (StartsWith "int" us ∧ EndsLoose ts a) := by
  obtain ⟨hlts, hlus⟩ := List.forall_mem_append.1 hl
  by_cases hloose : EndsLoose ts a
  · obtain ⟨front, s, rfl, hs, hfront⟩ := hloose
    refine (joins_separator hl hs hfront hus).congr (and_iff_left ⟨front, s, rfl, hs, hfront⟩)
  · obtain ⟨_, loose, hns, hrun⟩ := exists_itemRun_of_parse hlts hts
    cases hns
    obtain ⟨_, loose', hns, hrun'⟩ := exists_itemRun_of_parse hlus hus
    cases hns
    have htight : loose ≠ true := by
      intro hlast
      rcases hrun.exists_snoc hlast with ⟨-, hfalse⟩ | ⟨front, s, loose'', rfl, hs, hfront⟩
      · cases hfalse
      · have hlfront := (List.forall_mem_append.1 hlts).1
        have hclosed : ItemRun [] false front a loose'' := hfront.change hlts closes_nil
        exact hloose ⟨front, s, rfl, hs, hclosed.parse_eq hlfront⟩
    have hjoins := (hrun.extend (hrun'.foreign hlus helse)).joins hrun' hl
    exact hjoins.congr (by simp [hloose, htight])

end

/-! ## Source texts -/

theorem unplaced_below (ts : List Token) (k : Nat) :
    (ts.map (·.below k)).map Token.unplaced = ts.map Token.unplaced := by
  rw [List.map_map]
  rfl

/-- A program stays the same where its tokens stand further down. -/
theorem parse_below {ts : List Token} {p : Node} (h : parse (.ofTokens (ts.map some)) = .ok p)
    (k : Nat) : parse (.ofTokens ((ts.map (·.below k)).map some)) = .ok p := by
  have hrun : placing.Agree (facing ts).program (facing (ts.map (·.below k))).program :=
    Lockstep.run_program (unplaced_facing_eq (unplaced_below ts k).symm)
  rw [parse_ofTokens] at h ⊢
  generalize (facing ts).program = o at h hrun
  generalize (facing (ts.map (·.below k))).program = o' at hrun ⊢
  cases hrun with
  | level => exact h
  | apart ha =>
    obtain ⟨⟨fault, w, rfl⟩, -⟩ := ha
    cases h

theorem startsWith_below {ts : List Token} (k : Nat) (text : String) :
    StartsWith text (ts.map (·.below k)) ↔ StartsWith text ts := by
  cases ts <;> rfl

/-- The tokens of two texts with a line break between them. -/
theorem exists_tokenize_append {s₁ s₂ : String} (h₁ : (tokenize s₁).fault = none)
    (h₂ : (tokenize s₂).fault = none) :
    ∃ k, tokenize (s₁ ++ "\n" ++ s₂) =
      ⟨(tokenize s₁).tokens ++ (tokenize s₂).tokens.map (·.below k), none⟩ := by
  refine ⟨looseBreaks s₁.toList + 1, (tokenize_append s₁ s₂ h₁).trans ?_⟩
  simp only [tokenizeFrom_down, Tokenized.below, h₂, Option.map_none]

theorem parse_of_tokenize {source : String} {ts : List Token} (h : tokenize source = ⟨ts, none⟩) :
    parse (.ofSource source) = parse (.ofTokens (ts.map some)) := by
  rw [ofSource_of_fault_eq_none (by rw [h]), h]

/-- Source texts that are parsed to programs are parsed, one after the other, to the items of both.
A line with a semicolon may stand between them, or nothing but a line break unless the second one
begins with `else`.  The exception is a second text that begins with `int` right behind a
semicolon. -/
theorem parse_append_lines {s₁ s₂ : String} {a b : List Node}
    (h₁ : parse (.ofSource s₁) = .ok (.program a)) (h₂ : parse (.ofSource s₂) = .ok (.program b)) :
    Joins (parse (.ofSource (s₁ ++ "\n;\n" ++ s₂))) (a ++ b)
        (StartsWith "int" (tokenize s₂).tokens) ∧
      (¬ StartsWith "else" (tokenize s₂).tokens →
        Joins (parse (.ofSource (s₁ ++ "\n" ++ s₂))) (a ++ b)
          (StartsWith "int" (tokenize s₂).tokens ∧ EndsLoose (tokenize s₁).tokens a)) := by
  have hf₁ := fault_of_parse_ofSource h₁
  have hf₂ := fault_of_parse_ofSource h₂
  have hlexical : ∀ source, ∀ t ∈ (tokenize source).tokens, t.Lexical :=
    fun _ _ => lexical_of_mem_tokenize
  rw [ofSource_of_fault_eq_none hf₁] at h₁
  rw [ofSource_of_fault_eq_none hf₂] at h₂
  constructor
  · -- the semicolon is a text of its own, with a line break on either side
    obtain ⟨k, hfront⟩ : ∃ k, tokenize (s₁ ++ "\n" ++ ";") = ⟨(tokenize s₁).tokens ++
        (tokenize ";").tokens.map (·.below k), none⟩ :=
      exists_tokenize_append hf₁ (by decide +kernel)
    obtain ⟨k', hall⟩ := exists_tokenize_append (by rw [hfront]) hf₂
    have hseparator : (tokenize ";").tokens = [⟨.special, ";", .start⟩] := by decide +kernel
    have hsource : s₁ ++ "\n;\n" ++ s₂ = s₁ ++ "\n" ++ ";" ++ "\n" ++ s₂ := by
      simp [String.append_assoc]
    have hl := hlexical (s₁ ++ "\n" ++ ";" ++ "\n" ++ s₂)
    rw [hsource, parse_of_tokenize hall]
    rw [hall] at hl
    rw [hfront, hseparator] at hl ⊢
    have hjoins := joins_separator hl rfl h₁ (parse_below h₂ k')
    exact hjoins.congr (startsWith_below k' "int").symm
  · intro helse
    obtain ⟨k, hall⟩ := exists_tokenize_append hf₁ hf₂
    have hl := hlexical (s₁ ++ "\n" ++ s₂)
    rw [parse_of_tokenize hall]
    rw [hall] at hl
    have hjoins := joins_adjacent hl (fun h => helse ((startsWith_below k _).1 h)) h₁
      (parse_below h₂ k)
    exact hjoins.congr (and_congr_left' (startsWith_below k "int").symm)

/-- A declaration with the tag `int` stands behind `x = 1` on the next line, but not behind a
semicolon. -/
theorem parse_append_lines_of_declaration :
    parse (.ofSource ("x = 1" ++ "\n" ++ "int f() \x7b\x7d")) =
        .ok (.program [.assignment (.identifier "x") (.integer 1),
          .declaration "int" (.identifier "f") [] (.block [])]) ∧
      ∃ x : Token, x.kind = .identifier ∧
        parse (.ofSource ("x = 1" ++ "\n;\n" ++ "int f() \x7b\x7d")) =
          .error (.syntactic (.afterIdentifier (some x))) := by
  have h₁ : parse (.ofSource "x = 1") =
      .ok (.program [.assignment (.identifier "x") (.integer 1)]) := by
    decide +kernel
  have h₂ : parse (.ofSource "int f() \x7b\x7d") =
      .ok (.program [.declaration "int" (.identifier "f") [] (.block [])]) := by
    decide +kernel
  have htokens : (tokenize "x = 1").tokens =
      [⟨.identifier, "x", ⟨1, 1⟩⟩, ⟨.assign, "=", ⟨1, 3⟩⟩, ⟨.integer, "1", ⟨1, 5⟩⟩] := by
    decide +kernel
  have hint : StartsWith "int" (tokenize "int f() \x7b\x7d").tokens := by decide +kernel
  have helse : ¬ StartsWith "else" (tokenize "int f() \x7b\x7d").tokens := by decide +kernel
  have htight : ¬ EndsLoose (tokenize "x = 1").tokens
      [.assignment (.identifier "x") (.integer 1)] := by
    rintro ⟨us, s, hts, hs, -⟩
    have hlast := congrArg List.getLast? (htokens.symm.trans hts)
    rw [List.getLast?_concat] at hlast
    cases hlast
    exact absurd hs (by decide)
  obtain ⟨⟨-, hseparated⟩, hadjacent⟩ := parse_append_lines h₁ h₂
  exact ⟨(hadjacent helse).1 fun h => htight h.2, hseparated hint⟩

end MiniLang
