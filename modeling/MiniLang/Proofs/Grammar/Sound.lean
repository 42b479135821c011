import MiniLang.Proofs.Grammar.Shape
/-!
# What is read is derived

Reading a phrase from a list of tokens takes a front of the list that the lenient grammar derives,
makes the node of the derivation, and leaves the rest of the list.
-/

set_option autoImplicit false

namespace MiniLang

open Window

namespace Grammar

/-- Whatever is read of a list as a phrase is derived from its front. -/
def Sound (rule : List Token → Node → List Token → Prop) (phrase : Phrase) (ts : List Token) :
    Prop :=
  ∀ (n : Node) (w : Window), phrase.run (facing ts) = .ok n w →
    ∃ us rest, ts = us ++ rest ∧ w = facing rest ∧ rule us n rest

/-! ## Expressions -/

/-- An expression of a level, and what it stops at. -/
def Extent (level : Level) (ts : List Token) (n : Node) (rest : List Token) : Prop :=
  lenient.Expression level ts n ∧ level.Stops rest

/-- An operand is sound where expressions of shorter lists are. -/
theorem sound_primary {ts : List Token}
    (ih : ∀ us : List Token, us.length < ts.length → Sound (Extent .equality) .expression us) :
    Sound (Extent .primary) .primary ts := by
  intro n w h
  cases ts with
  | nil => simp [Phrase.run_primary] at h
  | cons t rest =>
    simp only [Phrase.run_primary, current_facing, advance_facing, Outcome.andThen_ok] at h
    split at h
    · rename_i ht
      obtain ⟨m, w₁, he, h⟩ := Outcome.andThen_eq_ok.1 h
      obtain ⟨us, more, rfl, rfl, hd, _⟩ := ih rest (by simp) m w₁ he
      obtain ⟨_, w₂, ha, h⟩ := Outcome.andThen_eq_ok.1 h
      obtain ⟨r, rest', rfl, hr, rfl⟩ := accept_facing_eq_ok.1 ha
      cases h
      exact ⟨t :: (us ++ [r]), rest', by simp, rfl, .enclosed ht hd hr, Level.stops_primary _⟩
    · rename_i ht
      split at h
      · rename_i ho
        cases h
        exact ⟨[t], rest, rfl, rfl, .operand ⟨ht, ho⟩, Level.stops_primary _⟩
      · cases h

/-- What follows the left operand of a chain continues every expression that the operand ends. -/
theorem sound_chained {level : Level} (hp : level ≠ .primary) (ts : List Token)
    (ih : ∀ us : List Token, us.length ≤ ts.length →
      Sound (Extent level.tighter) level.tighter.phrase us)
    (hs : level.tighter.Stops ts) (left n : Node) (w : Window)
    (h : (Phrase.chained level.operators level.tighter.phrase left).run (facing ts) = .ok n w) :
    ∃ us rest, ts = us ++ rest ∧ w = facing rest ∧ level.Stops rest ∧
      ∀ ls, lenient.Expression level ls left → lenient.Expression level (ls ++ us) n := by
  rw [Phrase.run_chained] at h
  cases ts with
  | nil =>
    cases h
    exact ⟨[], [], rfl, rfl, trivial, fun ls hl => by simpa using hl⟩
  | cons t rest =>
    simp only [current_facing, advance_facing, Outcome.andThen_ok] at h
    split at h
    · rename_i ho
      obtain ⟨right, w₁, hr, h⟩ := Outcome.andThen_eq_ok.1 h
      obtain ⟨us, more, rfl, rfl, hd, hmore⟩ := ih rest (by simp) right w₁ hr
      obtain ⟨vs, rest', rfl, rfl, hrest, hv⟩ := sound_chained hp more
        (fun vs hvs => ih vs (by simp; omega)) hmore (.binary left t.text right) n w h
      refine ⟨t :: (us ++ vs), rest', by simp, rfl, hrest, fun ls hl => ?_⟩
      have := hv (ls ++ t :: us) (.operation hl ho hd)
      simpa using this
    · rename_i ho
      cases h
      refine ⟨[], t :: rest, rfl, rfl, ?_, fun ls hl => by simpa using hl⟩
      intro hr
      rcases Level.mem_reach.1 hr with hr | ⟨_, hr⟩
      · exact ho hr
      · exact hs hr
termination_by ts.length

theorem sound_chain {level : Level} (hp : level ≠ .primary) {ts : List Token}
    (ih : ∀ us : List Token, us.length ≤ ts.length →
      Sound (Extent level.tighter) level.tighter.phrase us) :
    Sound (Extent level) level.phrase ts := by
  intro n w h
  rw [Level.phrase_eq_chain hp, Phrase.run_chain] at h
  obtain ⟨left, w₁, hl, h⟩ := Outcome.andThen_eq_ok.1 h
  obtain ⟨us, more, rfl, rfl, hd, hmore⟩ := ih _ (Nat.le_refl _) left w₁ hl
  obtain ⟨vs, rest, rfl, rfl, hrest, hv⟩ := sound_chained hp more
    (fun vs hvs => ih vs (by simp at *; omega)) hmore left n w h
  exact ⟨us ++ vs, rest, by simp, rfl, hv us (.single hd), hrest⟩

/-- Expressions of every level are sound.  The induction is on the length of the list: an operand
reads an expression of a shorter list, and the other levels one after the other. -/
theorem sound_level (level : Level) (ts : List Token) : Sound (Extent level) level.phrase ts := by
  induction hn : ts.length using Nat.strongRecOn generalizing level ts with
  | ind n ih =>
    have hprimary : ∀ us : List Token, us.length ≤ n →
        Sound (Extent .primary) Level.primary.phrase us :=
      fun us hus => sound_primary fun vs hvs => ih vs.length (by omega) .equality vs rfl
    have hproduct : ∀ us : List Token, us.length ≤ n →
        Sound (Extent .product) Level.product.phrase us :=
      fun us hus => sound_chain (by decide) fun vs hvs => hprimary vs (by omega)
    have hsum : ∀ us : List Token, us.length ≤ n → Sound (Extent .sum) Level.sum.phrase us :=
      fun us hus => sound_chain (by decide) fun vs hvs => hproduct vs (by omega)
    have hcomparison : ∀ us : List Token, us.length ≤ n →
        Sound (Extent .comparison) Level.comparison.phrase us :=
      fun us hus => sound_chain (by decide) fun vs hvs => hsum vs (by omega)
    cases level with
    | equality => exact sound_chain (by decide) fun vs hvs => hcomparison vs (by omega)
    | comparison => exact hcomparison ts (by omega)
    | sum => exact hsum ts (by omega)
    | product => exact hproduct ts (by omega)
    | primary => exact hprimary ts (by omega)

theorem sound_expression (ts : List Token) : Sound (Extent .equality) .expression ts :=
  sound_level .equality ts

/-! ## Calls and signatures -/

/-- What follows the first of several parts. -/
inductive Following (part : List Token → Node → Prop) : List Token → List Node → Prop where
  | none : Following part [] []
  | some {c : Token} {ts : List Token} {ns : List Node} (hc : c.text = ",")
      (h : Separated part ts ns) : Following part (c :: ts) ns

theorem Following.separated {part : List Token → Node → Prop} {ts us : List Token} {n : Node}
    {ns : List Node} (h : part ts n) (hf : Following part us ns) :
    Separated part (ts ++ us) (n :: ns) := by
  cases hf with
  | none => simpa using Separated.one h
  | some hc hs => exact .more h hc hs

/-- The arguments after those that have been read, and the parenthesis behind them. -/
theorem sound_arguments (ts : List Token) {name n : Node} {args : List Node} {w : Window}
    (h : (Phrase.arguments name args).run (facing ts) = .ok n w) :
    ∃ us r rest ns, ts = us ++ r :: rest ∧ r.text = ")" ∧ w = facing rest ∧
      n = .call name (args ++ ns) ∧ Following (lenient.Expression .equality) us ns := by
  rw [Phrase.run_arguments] at h
  split at h
  · obtain ⟨_, w₁, ha, h⟩ := Outcome.andThen_eq_ok.1 h
    obtain ⟨c, ts₁, rfl, hc, rfl⟩ := accept_facing_eq_ok.1 ha
    obtain ⟨a, w₂, he, h⟩ := Outcome.andThen_eq_ok.1 h
    obtain ⟨us, more, rfl, rfl, hd, _⟩ := sound_expression ts₁ a w₂ he
    obtain ⟨vs, r, rest, ns, rfl, hr, rfl, rfl, hf⟩ := sound_arguments more h
    exact ⟨c :: (us ++ vs), r, rest, a :: ns, by simp, hr, rfl, by simp, .some hc (hf.separated hd)⟩
  · obtain ⟨_, w₁, ha, h⟩ := Outcome.andThen_eq_ok.1 h
    obtain ⟨r, rest, rfl, hr, rfl⟩ := accept_facing_eq_ok.1 ha
    cases h
    exact ⟨[], r, rest, [], rfl, hr, rfl, by simp, .none⟩
termination_by ts.length
decreasing_by subst_vars; simp only [List.length_append, List.length_cons]; omega

theorem sound_call (ts : List Token) : Sound (fun us n _ => lenient.Call us n) .call ts := by
  intro n w h
  rw [Phrase.run_call] at h
  obtain ⟨name, w₁, hi, h⟩ := Outcome.andThen_eq_ok.1 h
  obtain ⟨t, ts₁, rfl, ht, rfl, rfl⟩ := identifier_facing_eq_ok.1 hi
  obtain ⟨_, w₂, ha, h⟩ := Outcome.andThen_eq_ok.1 h
  obtain ⟨l, ts₂, rfl, hl, rfl⟩ := accept_facing_eq_ok.1 ha
  split at h
  · obtain ⟨_, w₃, hb, h⟩ := Outcome.andThen_eq_ok.1 h
    obtain ⟨r, rest, rfl, hr, rfl⟩ := accept_facing_eq_ok.1 hb
    cases h
    exact ⟨[t, l, r], rest, rfl, rfl, .mk ht (.none hl hr)⟩
  · obtain ⟨a, w₃, he, h⟩ := Outcome.andThen_eq_ok.1 h
    obtain ⟨us, more, rfl, rfl, hd, _⟩ := sound_expression ts₂ a w₃ he
    obtain ⟨vs, r, rest, ns, rfl, hr, rfl, rfl, hf⟩ := sound_arguments _ h
    exact ⟨t :: l :: (us ++ vs ++ [r]), rest, by simp, rfl,
      .mk ht (.some hl (hf.separated hd) hr)⟩

/-- The parameters after those that have been read. -/
theorem sound_moreParameters (ts : List Token) {ps qs : List Node} {w : Window}
    (h : runMoreParameters ps (facing ts) = .ok qs w) :
    ∃ us rest ns, ts = us ++ rest ∧ w = facing rest ∧ qs = ps ++ ns ∧ Following Name us ns := by
  rw [runMoreParameters_eq] at h
  split at h
  · obtain ⟨_, w₁, ha, h⟩ := Outcome.andThen_eq_ok.1 h
    obtain ⟨c, ts₁, rfl, hc, rfl⟩ := accept_facing_eq_ok.1 ha
    obtain ⟨p, w₂, hi, h⟩ := Outcome.andThen_eq_ok.1 h
    obtain ⟨t, ts₂, rfl, ht, rfl, rfl⟩ := identifier_facing_eq_ok.1 hi
    obtain ⟨us, rest, ns, rfl, rfl, rfl, hf⟩ := sound_moreParameters ts₂ h
    exact ⟨c :: t :: us, rest, _ :: ns, by simp, rfl, by simp, .some hc (hf.separated (.mk ht))⟩
  · cases h
    exact ⟨[], ts, [], rfl, rfl, by simp, .none⟩
termination_by ts.length
decreasing_by subst_vars; simp only [List.length_cons]; omega

/-- What stands between the tag and the body of a declaration. -/
theorem sound_signature {ts : List Token} {name : Node} {ps : List Node} {w₁ w₂ w₃ w₄ : Window}
    (h₁ : (facing ts).identifier = .ok name w₁) (h₂ : w₁.accept "(" = .ok () w₂)
    (h₃ : runParameters w₂ = .ok ps w₃) (h₄ : w₃.accept ")" = .ok () w₄) :
    ∃ us rest, ts = us ++ rest ∧ w₄ = facing rest ∧ Signature us name ps := by
  obtain ⟨t, ts₁, rfl, ht, rfl, rfl⟩ := identifier_facing_eq_ok.1 h₁
  obtain ⟨l, ts₂, rfl, hl, rfl⟩ := accept_facing_eq_ok.1 h₂
  rw [runParameters_eq] at h₃
  split at h₃
  · cases h₃
    obtain ⟨r, rest, rfl, hr, rfl⟩ := accept_facing_eq_ok.1 h₄
    exact ⟨[t, l, r], rest, rfl, rfl, .mk ht (.none hl hr)⟩
  · obtain ⟨p, w₅, h₅, h₃⟩ := Outcome.andThen_eq_ok.1 h₃
    obtain ⟨u, ts₃, rfl, hu, rfl, rfl⟩ := identifier_facing_eq_ok.1 h₅
    obtain ⟨us, more, ns, rfl, rfl, rfl, hf⟩ := sound_moreParameters _ h₃
    obtain ⟨r, rest, rfl, hr, rfl⟩ := accept_facing_eq_ok.1 h₄
    exact ⟨t :: l :: (u :: us ++ [r]), rest, by simp, rfl,
      .mk ht (.some hl (hf.separated (.mk hu)) hr)⟩

/-- What stands in front of the first branch of a conditional. -/
theorem sound_condition {ts : List Token} {n : Node} {w₁ w₂ w₃ w₄ : Window}
    (h₁ : (facing ts).accept "if" = .ok () w₁) (h₂ : w₁.accept "(" = .ok () w₂)
    (h₃ : Phrase.expression.run w₂ = .ok n w₃) (h₄ : w₃.accept ")" = .ok () w₄) :
    ∃ us rest, ts = us ++ rest ∧ w₄ = facing rest ∧ lenient.Condition us n := by
  obtain ⟨i, ts₁, rfl, hi, rfl⟩ := accept_facing_eq_ok.1 h₁
  obtain ⟨l, ts₂, rfl, hl, rfl⟩ := accept_facing_eq_ok.1 h₂
  obtain ⟨us, more, rfl, rfl, hd, _⟩ := sound_expression ts₂ n w₃ h₃
  obtain ⟨r, rest, rfl, hr, rfl⟩ := accept_facing_eq_ok.1 h₄
  exact ⟨i :: l :: (us ++ [r]), rest, by simp, rfl, .mk hi hl hd hr⟩

/-! ## Statements and blocks -/

/-- A phrase that is read leaves a shorter list. -/
theorem length_of_run {phrase : Phrase} {ts rest : List Token} {n : Node}
    (h : phrase.run (facing ts) = .ok n (facing rest)) :
    rest.length + phrase.least ≤ ts.length := by
  have hw := (phrase.within_run (facing ts)).left_le h
  simpa using hw

/-- A statement and what it stands before. -/
def Stands (ts : List Token) (n : Node) (rest : List Token) : Prop :=
  lenient.Derives .statement ts [n] ∧ n.Before rest

/-- A block, whatever it stands before. -/
def IsBlock (ts : List Token) (n : Node) (_ : List Token) : Prop := lenient.Derives .block ts [n]

/-- The rest of a block some of whose statements have been read. -/
def EndsBlock (read : List Node) (ts : List Token) (n : Node) (_ : List Token) : Prop :=
  ∃ us r ns, ts = us ++ [r] ∧ r.text = "\x7d" ∧ lenient.Derives .body us ns ∧
    n = .block (read ++ ns)

/-- What follows the statements of a block that have been read is sound for the lists that are
shorter than a list. -/
def SoundBelow (ts : List Token) : Prop :=
  ∀ us : List Token, us.length < ts.length → (∀ t ∈ us, t.Lexical) → ∀ read,
    Sound (EndsBlock read) (.statements read) us

theorem SoundBelow.of_length {ts us : List Token} (h : SoundBelow ts)
    (hle : us.length ≤ ts.length) : SoundBelow us :=
  fun vs hvs => h vs (by omega)

theorem sound_block {ts : List Token} (ih : SoundBelow ts) (hl : ∀ t ∈ ts, t.Lexical) :
    Sound IsBlock .block ts := by
  intro n w h
  rw [Phrase.run_block] at h
  obtain ⟨_, w₁, ha, h⟩ := Outcome.andThen_eq_ok.1 h
  obtain ⟨l, ts₁, rfl, ho, rfl⟩ := accept_facing_eq_ok.1 ha
  obtain ⟨us, rest, rfl, rfl, ws, r, ns, rfl, hr, hd, rfl⟩ :=
    ih ts₁ (by simp) (List.forall_mem_cons.1 hl).2 [] n w h
  exact ⟨l :: (ws ++ [r]), rest, by simp, rfl, .block ho hd hr⟩

theorem sound_returning (ts : List Token) : Sound Stands .returning ts := by
  intro n w h
  rw [Phrase.run_returning] at h
  obtain ⟨_, w₁, ha, h⟩ := Outcome.andThen_eq_ok.1 h
  obtain ⟨r, ts₁, rfl, hr, rfl⟩ := accept_facing_eq_ok.1 ha
  obtain ⟨e, w₂, he, h⟩ := Outcome.andThen_eq_ok.1 h
  obtain ⟨us, more, rfl, rfl, hd, _⟩ := sound_expression ts₁ e w₂ he
  obtain ⟨_, w₃, hb, h⟩ := Outcome.andThen_eq_ok.1 h
  obtain ⟨s, rest, rfl, hs, rfl⟩ := accept_facing_eq_ok.1 hb
  cases h
  exact ⟨r :: (us ++ [s]), rest, by simp, rfl, .returning hr hd hs,
    before_of_isOpen rfl _⟩

theorem sound_conditional {ts : List Token} (ih : SoundBelow ts) (hl : ∀ t ∈ ts, t.Lexical) :
    Sound Stands .conditional ts := by
  intro n w h
  rw [Phrase.run_conditional] at h
  obtain ⟨_, w₁, h₁, h⟩ := Outcome.andThen_eq_ok.1 h
  obtain ⟨_, w₂, h₂, h⟩ := Outcome.andThen_eq_ok.1 h
  obtain ⟨c, w₃, h₃, h⟩ := Outcome.andThen_eq_ok.1 h
  obtain ⟨_, w₄, h₄, h⟩ := Outcome.andThen_eq_ok.1 h
  obtain ⟨us, ts₁, rfl, rfl, hc⟩ := sound_condition h₁ h₂ h₃ h₄
  rw [List.forall_mem_append] at hl
  obtain ⟨t, w₅, ht, h⟩ := Outcome.andThen_eq_ok.1 h
  obtain ⟨vs, ts₂, rfl, rfl, htd⟩ := sound_block (ih.of_length (by simp)) hl.2 t w₅ ht
  split at h
  · obtain ⟨_, w₆, h₆, h⟩ := Outcome.andThen_eq_ok.1 h
    obtain ⟨e, ts₃, rfl, he, rfl⟩ := accept_facing_eq_ok.1 h₆
    obtain ⟨u, w₇, hu, h⟩ := Outcome.andThen_eq_ok.1 h
    simp only [List.forall_mem_append, List.forall_mem_cons] at hl
    obtain ⟨us', rest, rfl, rfl, hud⟩ :=
      sound_block (ih.of_length (by simp; omega)) hl.2.2.2 u w₇ hu
    cases h
    refine ⟨us ++ (vs ++ e :: us'), rest, by simp, rfl, .alternative hc htd he hud, ?_⟩
    obtain ⟨ns, rfl⟩ := hud.exists_block
    simp [Node.Before, Node.isOpen]
  · rename_i hr
    cases h
    exact ⟨us ++ vs, ts₂, by simp, rfl, .conditional hc htd,
      fun _ hs => hr (reads_facing_iff.2 hs)⟩

/-- A declaration, whatever its tag. -/
theorem sound_declaration {tag : Token} {ts : List Token} {n : Node} {w : Window}
    (ih : SoundBelow (tag :: ts)) (hl : ∀ t ∈ ts, t.Lexical)
    (h : Phrase.declaration.run (facing (tag :: ts)) = .ok n w) :
    ∃ us vs rest name ps body, ts = us ++ (vs ++ rest) ∧ w = facing rest ∧ Signature us name ps ∧
      lenient.Derives .block vs [body] ∧ n = .declaration tag.text name ps body := by
  simp only [Phrase.run_declaration, current_facing, advance_facing, Outcome.andThen_ok] at h
  obtain ⟨name, w₁, h₁, h⟩ := Outcome.andThen_eq_ok.1 h
  obtain ⟨_, w₂, h₂, h⟩ := Outcome.andThen_eq_ok.1 h
  obtain ⟨ps, w₃, h₃, h⟩ := Outcome.andThen_eq_ok.1 h
  obtain ⟨_, w₄, h₄, h⟩ := Outcome.andThen_eq_ok.1 h
  obtain ⟨us, ts₁, rfl, rfl, hs⟩ := sound_signature h₁ h₂ h₃ h₄
  rw [List.forall_mem_append] at hl
  obtain ⟨body, w₅, hb, h⟩ := Outcome.andThen_eq_ok.1 h
  obtain ⟨vs, rest, rfl, rfl, hd⟩ :=
    sound_block (ih.of_length (by simp; omega)) hl.2 body w₅ hb
  cases h
  exact ⟨us, vs, rest, name, ps, body, rfl, rfl, hs, hd, rfl⟩

/-! ## Statements that an identifier leads -/

theorem sound_assignment {x : Token} {ts : List Token} (hx : x.kind = .identifier)
    (hl : ∀ t ∈ ts, t.Lexical) {n : Node} {w : Window}
    (h : (Phrase.assignment (.identifier x.text)).run (facing ts) = .ok n w) :
    ∃ us rest, ts = us ++ rest ∧ w = facing rest ∧ Stands (x :: us) n rest := by
  rw [Phrase.run_assignment] at h
  cases ts with
  | nil => simp at h
  | cons e ts₁ =>
    simp only [current_facing, advance_facing, Outcome.andThen_ok] at h
    split at h
    · rename_i he
      have hetext := (hl e (by simp)).text_of_assign he
      split at h
      · obtain ⟨v, w₁, hv, h⟩ := Outcome.andThen_eq_ok.1 h
        obtain ⟨us, rest, rfl, rfl, hd⟩ := sound_call ts₁ v w₁ hv
        cases h
        exact ⟨e :: us, rest, by simp, rfl, .assignedCall hx hetext hd, before_of_isOpen rfl _⟩
      · rename_i hn
        obtain ⟨v, w₁, hv, h⟩ := Outcome.andThen_eq_ok.1 h
        obtain ⟨us, rest, rfl, rfl, hd, _⟩ := sound_expression ts₁ v w₁ hv
        cases h
        refine ⟨e :: us, rest, by simp, rfl, .assignment hx hetext hd ?_, before_of_isOpen rfl _⟩
        intro ho
        match us, ho with
        | l :: r :: more, ho => exact hn (by simpa using ho.2)
    · simp at h

theorem sound_identifierLed {x : Token} {ts : List Token} (hx : x.kind = .identifier)
    (hl : ∀ t ∈ ts, t.Lexical) : Sound Stands .identifierLed (x :: ts) := by
  intro n w h
  cases ts with
  | nil => simp [Phrase.run_identifierLed] at h
  | cons f more =>
    simp only [Phrase.run_identifierLed, current_facing, next_facing, List.head?_cons,
      advance_facing, Outcome.andThen_ok] at h
    split at h
    · obtain ⟨us, rest, hus, rfl, hd⟩ := sound_assignment hx hl h
      exact ⟨x :: us, rest, by simp [hus], rfl, hd⟩
    · split at h
      · rename_i hf
        obtain ⟨us, rest, hus, rfl, hd, hs⟩ := sound_expression _ n w h
        -- the operator behind the identifier belongs to the expression, or it would not stop there
        match us, hus with
        | [], _ => exact absurd rfl hd.ne_nil
        | [_], hus =>
          cases hus
          exact absurd (mem_reach_of_operation (hl f (by simp)) hf) hs
        | _ :: _ :: us, hus =>
          cases hus
          have hopen := hd.isOpen makesExpressions_lenient
          exact ⟨x :: f :: us, rest, rfl, rfl, .expression hx hf hd, before_of_isOpen hopen _⟩
      · split at h
        · obtain ⟨us, rest, hus, rfl, hd⟩ := sound_call _ n w h
          refine ⟨us, rest, hus, rfl, .call hd, ?_⟩
          cases hd
          exact before_of_isOpen rfl _
        · simp at h

/-! ## Any statement, and the body of a block -/

theorem sound_statement {ts : List Token} (ih : SoundBelow ts) (hl : ∀ t ∈ ts, t.Lexical) :
    Sound Stands .statement ts := by
  intro n w h
  cases ts with
  | nil => simp [Phrase.run_statement] at h
  | cons t rest =>
    obtain ⟨ht, hrest⟩ := List.forall_mem_cons.1 hl
    simp only [Phrase.run_statement, current_facing] at h
    split at h
    · rename_i hk
      split at h
      · exact sound_returning _ n w h
      · rename_i hr
        split at h
        · exact sound_conditional ih hl n w h
        · rename_i hi
          obtain ⟨us, vs, more, name, ps, body, rfl, rfl, hs, hd, rfl⟩ :=
            sound_declaration ih hrest h
          exact ⟨t :: (us ++ vs), more, by simp, rfl, .declaration (mem_tags ht hk hr hi) hs hd,
            before_of_isOpen rfl _⟩
    · split at h
      · rename_i hk
        exact sound_identifierLed hk hrest n w h
      · simp at h

/-- What follows in a block after one more statement. -/
theorem sound_next {read : List Node} {us rest : List Token} {n m : Node} {w : Window}
    (ih : Sound (EndsBlock (read ++ [n])) (.statements (read ++ [n])) rest)
    (hd : lenient.Derives .statement us [n]) (hb : n.Before rest)
    (h : (Phrase.statements (read ++ [n])).run (facing rest) = .ok m w) :
    ∃ vs more, us ++ rest = vs ++ more ∧ w = facing more ∧ EndsBlock read vs m more := by
  obtain ⟨vs, more, rfl, rfl, ws, r, ns, rfl, hr, hbody, rfl⟩ := ih m w h
  rw [List.append_assoc] at hb
  exact ⟨us ++ (ws ++ [r]), more, by simp, rfl, us ++ ws, r, n :: ns, by simp, hr,
    .next hd (before_of_append hb) hbody, by simp⟩

theorem sound_body {ts : List Token} (ih : SoundBelow ts) (hl : ∀ t ∈ ts, t.Lexical)
    (read : List Node) : Sound (EndsBlock read) (.statements read) ts := by
  intro n w h
  rw [Phrase.run_statements] at h
  split at h
  · obtain ⟨_, w₁, ha, h⟩ := Outcome.andThen_eq_ok.1 h
    obtain ⟨r, rest, rfl, hr, rfl⟩ := accept_facing_eq_ok.1 ha
    cases h
    exact ⟨[r], rest, rfl, rfl, [], r, [], rfl, hr, .empty, by simp⟩
  · split at h
    · obtain ⟨_, w₁, ha, h⟩ := Outcome.andThen_eq_ok.1 h
      obtain ⟨s, ts₁, rfl, hs, rfl⟩ := accept_facing_eq_ok.1 ha
      obtain ⟨_, rest, rfl, rfl, us, r, ns, rfl, hr, hd, rfl⟩ :=
        ih ts₁ (by simp) (List.forall_mem_cons.1 hl).2 read n w h
      exact ⟨s :: (us ++ [r]), rest, by simp, rfl, s :: us, r, ns, rfl, hr, .separator hs hd, rfl⟩
    · split at h
      · obtain ⟨b, w₁, hb, h⟩ := Outcome.andThen_eq_ok.1 h
        obtain ⟨us, rest, rfl, rfl, hd⟩ := sound_block ih hl b w₁ hb
        have hlen := length_of_run hb
        obtain ⟨ns, rfl⟩ := Derives.exists_block hd
        exact sound_next (ih rest hlen (List.forall_mem_append.1 hl).2 _) (.nested hd)
          (before_of_isOpen rfl _) h
      · obtain ⟨s, w₁, hs, h⟩ := Outcome.andThen_eq_ok.1 h
        obtain ⟨us, rest, rfl, rfl, hd, hb⟩ := sound_statement ih hl s w₁ hs
        have hlen := length_of_run hs
        exact sound_next (ih rest hlen (List.forall_mem_append.1 hl).2 _) hd hb h

theorem soundBelow (ts : List Token) : SoundBelow ts := by
  induction hn : ts.length using Nat.strongRecOn generalizing ts with
  | ind n ih =>
    intro us hus hl read
    exact sound_body (ih us.length (by omega) us rfl) hl read

/-! ## Programs -/

/-- A sentence: semicolons, and then a statement that is no block, unless a block or the end
follows. -/
theorem sound_sentence (ts : List Token) (hl : ∀ t ∈ ts, t.Lexical) {n : Node} {w : Window}
    (h : Phrase.sentence.run (facing ts) = .ok n w) :
    ∃ us vs rest, ts = us ++ (vs ++ rest) ∧ w = facing rest ∧ (∀ s ∈ us, s.text = ";") ∧
      (n = .absent ∧ vs = [] ∧ (rest = [] ∨ StartsWith "\x7b" rest) ∨ Stands vs n rest) := by
  rw [Phrase.run_sentence] at h
  split at h
  · obtain ⟨_, w₁, ha, h⟩ := Outcome.andThen_eq_ok.1 h
    obtain ⟨s, ts₁, rfl, hs, rfl⟩ := accept_facing_eq_ok.1 ha
    obtain ⟨us, vs, rest, rfl, rfl, hus, hv⟩ :=
      sound_sentence ts₁ (List.forall_mem_cons.1 hl).2 h
    exact ⟨s :: us, vs, rest, by simp, rfl, List.forall_mem_cons.2 ⟨hs, hus⟩, hv⟩
  · split at h
    · rename_i hb
      cases h
      refine ⟨[], [], ts, rfl, rfl, by simp, .inl ⟨rfl, rfl, ?_⟩⟩
      rcases hb with hb | hb
      · left
        cases ts with
        | nil => rfl
        | cons t _ => simp at hb
      · exact .inr (reads_facing_iff.1 hb)
    · obtain ⟨vs, rest, rfl, rfl, hd⟩ := sound_statement (soundBelow ts) hl n w h
      exact ⟨[], vs, rest, rfl, rfl, by simp, .inr hd⟩
termination_by ts.length
decreasing_by subst_vars; simp only [List.length_cons]; omega

/-- A statement behind semicolons, if there are any. -/
theorem Items.sentence {us vs ts : List Token} {n : Node} {ns : List Node}
    (hus : ∀ s ∈ us, s.text = ";") (hv : Stands vs n ts) (h : lenient.Items false ts ns)
    (behind : Bool) (hi : behind = false → us = [] → ¬ StartsWith "int" vs) :
    lenient.Items behind (us ++ (vs ++ ts)) (n :: ns) := by
  induction us generalizing behind with
  | nil =>
    rw [List.nil_append]
    exact .statement hv.1 (fun hb => hi hb rfl) hv.2 h
  | cons s us ih =>
    obtain ⟨hs, hus⟩ := List.forall_mem_cons.1 hus
    exact .separator hs (ih hus true fun hb => Bool.noConfusion hb)

/-- What is read as an item goes in front of whatever items are derived from the rest.  Semicolons
that nothing follows but a block or the end make no item. -/
theorem sound_topLevel {t : Token} {ts : List Token} (hl : ∀ u ∈ t :: ts, u.Lexical) {m : Node}
    {w : Window} (h : t.topLevel.run (facing (t :: ts)) = .ok m w) :
    ∃ us rest, t :: ts = us ++ rest ∧ w = facing rest ∧
      ∀ ns, lenient.Items false rest ns →
        lenient.Items false (us ++ rest) (if m = .absent then ns else m :: ns) := by
  have ih := soundBelow (t :: ts)
  -- a statement that does not begin with `int`
  have hstatement : ∀ {us rest : List Token}, t :: ts = us ++ rest → t.text ≠ "int" →
      Stands us m rest → ∀ ns, lenient.Items false rest ns →
        lenient.Items false (us ++ rest) (if m = .absent then ns else m :: ns) := by
    intro us rest hts hint hs ns hns
    rw [if_neg (hs.1.ne_absent makesExpressions_lenient)]
    exact .statement hs.1 (fun _ hst => hint (startsWith_of_append hst hts.symm)) hs.2 hns
  unfold Token.topLevel at h
  split at h
  · rename_i ht
    obtain ⟨us, vs, rest, name, ps, body, rfl, rfl, hs, hd, rfl⟩ :=
      sound_declaration ih (List.forall_mem_cons.1 hl).2 h
    refine ⟨t :: (us ++ vs), rest, by simp, rfl, ?_⟩
    by_cases hint : t.text = "int"
    · intro ns hns
      rw [if_neg (by simp)]
      exact .declaration hint hs hd hns
    · have htag : t.text ∈ tags := by simp [tags, ht.resolve_right hint]
      exact hstatement (by simp) hint ⟨.declaration htag hs hd, before_of_isOpen rfl _⟩
  · rename_i ht
    have hint : t.text ≠ "int" := fun hint => ht (.inr hint)
    split at h
    · obtain ⟨us, rest, hts, rfl, hs⟩ := sound_conditional ih hl m w h
      exact ⟨us, rest, hts, rfl, hstatement hts hint hs⟩
    · split at h
      · obtain ⟨us, rest, hts, rfl, hd⟩ := sound_block ih hl m w h
        obtain ⟨ns, rfl⟩ := Derives.exists_block hd
        exact ⟨us, rest, hts, rfl, hstatement hts hint ⟨.nested hd, before_of_isOpen rfl _⟩⟩
      · obtain ⟨us, vs, rest, hts, rfl, hus, hv⟩ := sound_sentence _ hl h
        refine ⟨us ++ vs, rest, by simp [hts], rfl, fun ns hns => ?_⟩
        rw [List.append_assoc]
        rcases hv with ⟨rfl, rfl, hrest⟩ | hv
        · have hnot : ¬ StartsWith "int" rest := by
            rcases hrest with rfl | hrest
            · exact id
            · intro hst
              cases rest with
              | nil => exact hst
              | cons u _ => exact absurd (hst.symm.trans hrest) (by decide)
          rw [if_pos rfl, List.nil_append]
          exact Items.separators hus (hns.behind hnot) false
        · rw [if_neg (hv.1.ne_absent makesExpressions_lenient)]
          refine Items.sentence hus hv hns false fun _ hnil hst => hint ?_
          subst hnil
          exact startsWith_of_append hst hts.symm

/-- Items that are read up to the end of a list are derived from it. -/
theorem sound_items {ts : List Token} (hl : ∀ t ∈ ts, t.Lexical) {read : List Node} {n : Node}
    {w : Window} (h : (readItems read (facing ts)).outcome = .ok n w) :
    ∃ ns, n = .program (read ++ ns) ∧ w = facing [] ∧ lenient.Items false ts ns := by
  induction hn : ts.length using Nat.strongRecOn generalizing ts read with
  | ind k ih =>
    rw [outcome_readItems] at h
    cases ts with
    | nil =>
      cases h
      exact ⟨[], by simp, rfl, .empty⟩
    | cons t ts =>
      obtain ⟨m, w₁, hm, h⟩ := Outcome.andThen_eq_ok.1 h
      have hw := (Token.within_run_topLevel (w := facing (t :: ts)) rfl).left_le hm
      obtain ⟨us, rest, hts, rfl, hd⟩ := sound_topLevel hl hm
      simp only [left_facing] at hw
      rw [hts] at hl ⊢
      have hrest := (List.forall_mem_append.1 hl).2
      split at h
      · rename_i hm
        obtain ⟨ns, rfl, rfl, hns⟩ := ih rest.length (by omega) hrest h rfl
        have := hd ns hns
        rw [if_pos hm] at this
        exact ⟨ns, rfl, rfl, this⟩
      · rename_i hm
        obtain ⟨ns, rfl, rfl, hns⟩ := ih rest.length (by omega) hrest h rfl
        have := hd ns hns
        rw [if_neg hm] at this
        exact ⟨m :: ns, by simp, rfl, this⟩

/-- A program that is read is derived from the whole list. -/
theorem sound_program {ts : List Token} (hl : ∀ t ∈ ts, t.Lexical) {p : Node} {w : Window}
    (h : (facing ts).program = .ok p w) : lenient.Program ts p := by
  rw [Window.program_eq] at h
  obtain ⟨ns, rfl, _, hd⟩ := sound_items hl h
  exact ⟨ns, rfl, hd⟩

end Grammar

end MiniLang
