import MiniLang.Proofs.Grammar.Shape
/-!
# What is derived is read

Whatever the grammar of the language derives from the front of a list of tokens, its numbers not
having too many digits, is read from it: the node of the derivation is made and the rest of the list
is left.  Reading is greedy, so each rule
comes with what its rest may begin with, and the rules that use it keep to that.
-/

set_option autoImplicit false

namespace MiniLang

open Window

namespace Grammar

/-! ## Operands -/

/-- An operand is made of its token, unless that is a number with too many digits. -/
theorem Literal.operand_eq {t : Token} {n : Node} (hl : t.Lexical) (h : Literal t n)
    (hfits : t.Fits) : t.operand = .ok n := by
  cases h with
  | integer hk => rw [hl.operand_of_integer hk, if_neg (Nat.not_lt.2 (hfits hk))]
  | identifier hk => rw [hl.operand_of_ne (by rw [hk]; decide), if_pos hk]
  | string hk => rw [hl.operand_of_ne (by rw [hk]; decide), if_neg (by rw [hk]; decide)]

/-- No operand is a parenthesis. -/
theorem Literal.text_ne {t : Token} {n : Node} (hl : t.Lexical) (h : Literal t n) {text : String}
    (ht : Kind.ofText text.toList = .special) : t.text ≠ text := by
  intro hc
  have hk := hl.kind_of_text hc
  rw [ht] at hk
  cases h <;> simp_all

/-! ## Expressions -/

/-- A chain ends where its level stops. -/
theorem run_chained_of_stops {level : Level} {rest : List Token} (h : level.Stops rest)
    (left : Node) :
    (Phrase.chained level.operators level.tighter.phrase left).run (facing rest) =
      .ok left (facing rest) := by
  rw [Phrase.run_chained]
  cases rest with
  | nil => rfl
  | cons t rest =>
    have ho : t.text ∉ level.operators := fun ho => h (Level.mem_reach.2 (.inl ho))
    simp [ho]

theorem Level.stops_tighter {level : Level} {rest : List Token} (h : level.Stops rest) :
    level.tighter.Stops rest := by
  cases level with
  | primary => exact h
  | _ =>
    cases rest with
    | nil => trivial
    | cons t rest => exact fun ht => h (Level.mem_reach.2 (.inr ⟨by simp, ht⟩))

/-- The operators of a level are none of the tighter ones. -/
theorem Level.not_mem_reach_tighter {level : Level} {text : String} (h : text ∈ level.operators) :
    text ∉ level.tighter.reach := by
  have hapart : ∀ level : Level, ∀ text ∈ level.operators, text ∉ level.tighter.reach := by
    intro level
    cases level <;> decide
  exact hapart level text h

theorem Level.ne_primary_of_mem {level : Level} {text : String} (h : text ∈ level.operators) :
    level ≠ .primary := by
  rintro rfl
  simp [Level.operators] at h

/-- An expression that is read as a left operand is read as a whole where nothing follows it. -/
theorem run_of_chained {level : Level} {us : List Token} {n : Node}
    (h : ∀ rest, level.tighter.Stops rest →
      level.phrase.run (facing (us ++ rest)) =
        (Phrase.chained level.operators level.tighter.phrase n).run (facing rest))
    (rest : List Token) (hs : level.Stops rest) :
    level.phrase.run (facing (us ++ rest)) = .ok n (facing rest) := by
  rw [h rest (Level.stops_tighter hs), run_chained_of_stops hs]

/-- A derived expression is read up to where its level stops.  Above the operands it is also read as
the left operand of what follows, which is what the induction needs: the derivation of a chain has
its last operator outermost, and reading meets its first operator first. -/
theorem complete_level {level : Level} {us : List Token} {n : Node}
    (h : readable.Expression level us n) (hl : ∀ t ∈ us, t.Lexical) :
    (∀ rest, level.Stops rest → level.phrase.run (facing (us ++ rest)) = .ok n (facing rest)) ∧
      (level ≠ .primary → ∀ rest, level.tighter.Stops rest →
        level.phrase.run (facing (us ++ rest)) =
          (Phrase.chained level.operators level.tighter.phrase n).run (facing rest)) := by
  induction h with
  | @operand t n h =>
    refine ⟨fun rest _ => ?_, fun hp => absurd rfl hp⟩
    have hne : t.text ≠ "(" := Literal.text_ne (hl t (by simp)) h.1 rfl
    simp [Level.phrase, Phrase.run_primary, hne, h.2]
  | @enclosed l r ts n hlt _ hr ih =>
    refine ⟨fun rest _ => ?_, fun hp => absurd rfl hp⟩
    have hts : ∀ t ∈ ts, t.Lexical := fun t ht => hl t (by simp [ht])
    have hread := (ih hts).1 (r :: rest) (by rw [Level.Stops, hr]; decide)
    simp only [Level.phrase, List.cons_append, List.append_assoc, List.nil_append,
      Phrase.run_primary, current_facing, advance_facing, Outcome.andThen_ok, if_pos hlt] at hread ⊢
    rw [hread, Outcome.andThen_ok, accept_facing hr, Outcome.andThen_ok]
  | @single level ts n _ ih =>
    by_cases hp : level = .primary
    · subst hp
      exact ⟨(ih hl).1, fun hp => absurd rfl hp⟩
    · have hchain : ∀ rest, level.tighter.Stops rest →
          level.phrase.run (facing (ts ++ rest)) =
            (Phrase.chained level.operators level.tighter.phrase n).run (facing rest) := by
        intro rest hs
        rw [Level.phrase_eq_chain hp, Phrase.run_chain, (ih hl).1 rest hs, Outcome.andThen_ok]
      exact ⟨run_of_chained hchain, fun _ => hchain⟩
  | @operation level ts us o left right _ ho _ ihl ihr =>
    have hp := Level.ne_primary_of_mem ho
    obtain ⟨hlts, hlus⟩ := List.forall_mem_append.1 hl
    have hchain : ∀ rest, level.tighter.Stops rest →
        level.phrase.run (facing (ts ++ o :: us ++ rest)) =
          (Phrase.chained level.operators level.tighter.phrase (.binary left o.text right)).run
            (facing rest) := by
      intro rest hs
      have hright := (ihr (List.forall_mem_cons.1 hlus).2).1 rest hs
      rw [List.append_assoc, (ihl hlts).2 hp (o :: us ++ rest) (Level.not_mem_reach_tighter ho),
        Phrase.run_chained]
      simp only [List.cons_append, current_facing, advance_facing, Outcome.andThen_ok, if_pos ho]
      rw [hright, Outcome.andThen_ok]
    exact ⟨run_of_chained hchain, fun _ => hchain⟩

theorem complete_expression {us rest : List Token} {n : Node}
    (h : readable.Expression .equality us n) (hl : ∀ t ∈ us, t.Lexical)
    (hs : Level.equality.Stops rest) :
    Phrase.expression.run (facing (us ++ rest)) = .ok n (facing rest) :=
  (complete_level h hl).1 rest hs

/-- A mark that is no operator ends every expression. -/
theorem stops_of_text {t : Token} {rest : List Token} {text : String} (h : t.text = text)
    (ht : text ∉ Level.equality.reach) : Level.equality.Stops (t :: rest) := by
  rw [Level.Stops, h]
  exact ht

theorem startsWith_append_iff {text : String} {ts us : List Token} (h : ts ≠ []) :
    StartsWith text (ts ++ us) ↔ StartsWith text ts := by
  cases ts with
  | nil => exact absurd rfl h
  | cons t ts => exact Iff.rfl

/-- No expression begins with a closing parenthesis. -/
theorem Expression.not_startsWith {level : Level} {us : List Token} {n : Node}
    (h : readable.Expression level us n) (hl : ∀ t ∈ us, t.Lexical) : ¬ StartsWith ")" us := by
  induction h with
  | @operand t n h => exact Literal.text_ne (hl t (by simp)) h.1 rfl
  | enclosed hlt =>
    intro hs
    exact absurd (hlt.symm.trans hs) (by decide)
  | single _ ih => exact ih hl
  | operation h _ _ ih _ =>
    intro hs
    exact ih (List.forall_mem_append.1 hl).1 ((startsWith_append_iff h.ne_nil).1 hs)

/-- Behind the first token of an expression stands an operator, unless the token is a
parenthesis. -/
theorem Expression.second {G : Grammar} {level : Level} {us : List Token} {n : Node}
    (h : G.Expression level us n) {t u : Token} {more : List Token} (hus : us = t :: u :: more) :
    t.text = "(" ∨ u.text ∈ Level.equality.reach := by
  induction h generalizing more with
  | operand => simp at hus
  | enclosed hlt =>
    obtain ⟨rfl, _⟩ := List.cons.inj hus
    exact .inl hlt
  | single _ ih => exact ih hus
  | @operation level ts us o left right h ho _ ih _ =>
    match ts, hus with
    | [], _ => exact absurd rfl h.ne_nil
    | [_], hus =>
      cases hus
      have hsub : ∀ level : Level, ∀ text ∈ level.operators, text ∈ Level.equality.reach := by
        intro level
        cases level <;> decide
      exact .inr (hsub level _ ho)
    | _ :: _ :: _, hus =>
      cases hus
      exact ih rfl

/-! ## Calls and signatures -/

/-- The arguments that go on from those that have been read, and the parenthesis behind them. -/
theorem complete_arguments {us : List Token} {ns : List Node}
    (h : Separated (readable.Expression .equality) us ns) (hl : ∀ t ∈ us, t.Lexical)
    {r : Token} (hr : r.text = ")") (name : Node) (read : List Node) (rest : List Token) :
    ((Phrase.expression.run (facing (us ++ r :: rest))).andThen fun n w =>
      (Phrase.arguments name (read ++ [n])).run w) =
        .ok (.call name (read ++ ns)) (facing rest) := by
  induction h generalizing read with
  | one h =>
    rw [complete_expression h hl (stops_of_text hr (by decide)), Outcome.andThen_ok,
      Phrase.run_arguments, if_neg (by simp [hr]), accept_facing hr, Outcome.andThen_ok]
  | @more ts us c n ns h hc _ ih =>
    obtain ⟨hts, hus⟩ := List.forall_mem_append.1 hl
    have hmore := ih (List.forall_mem_cons.1 hus).2 (read ++ [n])
    rw [List.append_assoc, List.cons_append,
      complete_expression h hts (stops_of_text hc (by decide)), Outcome.andThen_ok,
      Phrase.run_arguments, if_pos (by simp [hc]), accept_facing hc, Outcome.andThen_ok, hmore,
      List.append_assoc, List.singleton_append]

theorem complete_call {us : List Token} {n : Node} (h : readable.Call us n)
    (hl : ∀ t ∈ us, t.Lexical) (rest : List Token) :
    Phrase.call.run (facing (us ++ rest)) = .ok n (facing rest) := by
  cases h with
  | @mk t us args ht ha =>
    rw [Phrase.run_call, List.cons_append, identifier_facing ht, Outcome.andThen_ok]
    cases ha with
    | none ho hc =>
      simp [accept_facing ho, accept_facing hc, hc]
    | @some l r ts ns ho h hc =>
      have hts : ∀ u ∈ ts, u.Lexical := fun u hu => hl u (by simp [hu])
      have hread := complete_arguments h hts hc (.identifier t.text) [] rest
      have hfirst : (facing (ts ++ r :: rest)).reads ")" = false := by
        rw [Bool.eq_false_iff, ne_eq, reads_facing_iff]
        cases h with
        | one h => rw [startsWith_append_iff h.ne_nil]; exact h.not_startsWith hts
        | more h =>
          rw [List.append_assoc, startsWith_append_iff h.ne_nil]
          exact h.not_startsWith (List.forall_mem_append.1 hts).1
      rw [List.cons_append, accept_facing ho, Outcome.andThen_ok, List.append_assoc,
        List.singleton_append, hfirst, if_neg Bool.false_ne_true]
      exact hread

theorem complete_moreParameters {us : List Token} {ns : List Node} (h : Separated Name us ns)
    {r : Token} (hr : r.text = ")") (read : List Node) (rest : List Token) :
    ((facing (us ++ r :: rest)).identifier.andThen fun n w => runMoreParameters (read ++ [n]) w) =
      .ok (read ++ ns) (facing (r :: rest)) := by
  induction h generalizing read with
  | one h =>
    cases h with
    | mk ht =>
      rw [List.singleton_append, identifier_facing ht, Outcome.andThen_ok, runMoreParameters_eq,
        if_neg (by simp [hr])]
  | more h hc _ ih =>
    cases h with
    | @mk t ht =>
      have hmore := ih (read ++ [.identifier t.text])
      rw [List.append_assoc, List.singleton_append, List.cons_append, identifier_facing ht,
        Outcome.andThen_ok, runMoreParameters_eq, if_pos (by simp [hc]), accept_facing hc,
        Outcome.andThen_ok, hmore, List.append_assoc, List.singleton_append]

theorem complete_parameters {ts : List Token} {ns : List Node} (h : Separated Name ts ns)
    (hl : ∀ t ∈ ts, t.Lexical) {r : Token} (hr : r.text = ")") (rest : List Token) :
    runParameters (facing (ts ++ r :: rest)) = .ok ns (facing (r :: rest)) := by
  have hread := complete_moreParameters h hr [] rest
  have hfirst : (facing (ts ++ r :: rest)).reads ")" = false := by
    -- a name is no parenthesis
    have hname : ∀ {t : Token}, t.Lexical → t.kind = .identifier → t.text ≠ ")" := by
      intro t ht hk hc
      have := ht.kind_of_text hc
      rw [hk] at this
      exact absurd this (by decide)
    cases h with
    | one h =>
      cases h with
      | mk hk => simpa using hname (hl _ (by simp)) hk
    | more h =>
      cases h with
      | mk hk => simpa using hname (hl _ (by simp)) hk
  rw [runParameters_eq, hfirst, if_neg Bool.false_ne_true]
  exact hread

/-- A declaration whose body is read is read, whatever its tag. -/
theorem complete_declaration (tag : Token) {ts us rest : List Token} {name body : Node}
    {ps : List Node} (h : Signature ts name ps) (hl : ∀ t ∈ ts, t.Lexical)
    (hb : Phrase.block.run (facing (us ++ rest)) = .ok body (facing rest)) :
    Phrase.declaration.run (facing (tag :: (ts ++ us) ++ rest)) =
      .ok (.declaration tag.text name ps body) (facing rest) := by
  cases h with
  | @mk t ts ps ht hp =>
    simp only [Phrase.run_declaration, List.cons_append, List.append_assoc, current_facing,
      advance_facing, Outcome.andThen_ok, identifier_facing ht]
    cases hp with
    | none ho hc =>
      simp only [List.cons_append, List.nil_append, accept_facing ho, accept_facing hc,
        Outcome.andThen_ok, runParameters_eq, reads_facing, hc, decide_true, if_true, hb]
    | some ho h hc =>
      have hread := complete_parameters h (fun t ht => hl t (by simp [ht])) hc (us ++ rest)
      simp only [List.cons_append, List.append_assoc, List.nil_append, accept_facing ho,
        Outcome.andThen_ok, hread, accept_facing hc, hb]

/-- What a conditional begins with, and then a block. -/
theorem complete_conditional {ts us rest : List Token} {c t : Node} (h : readable.Condition ts c)
    (hl : ∀ t ∈ ts, t.Lexical)
    (hb : Phrase.block.run (facing (us ++ rest)) = .ok t (facing rest)) :
    Phrase.conditional.run (facing (ts ++ (us ++ rest))) =
      if (facing rest).reads "else" then
        ((facing rest).accept "else").andThen fun _ w =>
          (Phrase.block.run w).andThen fun u w₁ => .ok (.conditional c t u) w₁
      else .ok (.conditional c t .absent) (facing rest) := by
  cases h with
  | @mk i l r ts n hi ho h hc =>
    have hread : Phrase.expression.run (facing (ts ++ r :: (us ++ rest))) =
        .ok c (facing (r :: (us ++ rest))) :=
      complete_expression h (fun t ht => hl t (by simp [ht])) (stops_of_text hc (by decide))
    simp only [Phrase.run_conditional, List.cons_append, List.append_assoc, List.nil_append,
      accept_facing hi, accept_facing ho, Outcome.andThen_ok, hread, accept_facing hc, hb]

/-! ## How statements begin and end -/

/-- A list that no statement goes on into. -/
def Ends (rest : List Token) : Prop := Level.equality.Stops rest ∧ ¬ StartsWith "(" rest

/-- A token that a statement begins with, or that stands behind one. -/
def Bounds (t : Token) : Prop :=
  t.kind = .keyword ∨ t.kind = .identifier ∨ t.text ∈ ["\x7b", "\x7d", ";"]

theorem ends_of_bounds {t : Token} {rest : List Token} (hl : t.Lexical) (h : Bounds t) :
    Ends (t :: rest) := by
  have hapart : ∀ text ∈ "(" :: Level.equality.reach, Kind.ofText text.toList ≠ .keyword ∧
      Kind.ofText text.toList ≠ .identifier ∧ text ∉ ["\x7b", "\x7d", ";"] := by
    decide
  have hnot : t.text ∉ "(" :: Level.equality.reach := by
    intro hm
    obtain ⟨hk, hi, hp⟩ := hapart _ hm
    rw [← hl.kind_of_text rfl] at hk hi
    rcases h with h | h | h
    · exact hk h
    · exact hi h
    · exact hp h
  exact ⟨fun hm => hnot (List.mem_cons_of_mem _ hm), fun hs => hnot (by rw [hs]; simp)⟩

/-- A keyword or an identifier is no brace and no semicolon. -/
theorem text_ne_of_word {t : Token} (hl : t.Lexical)
    (hk : t.kind = .keyword ∨ t.kind = .identifier) : ∀ text ∈ ["\x7b", "\x7d", ";"],
      t.text ≠ text := by
  intro text ht hc
  have hmark : ∀ text ∈ ["\x7b", "\x7d", ";"], Kind.ofText text.toList = .special := by decide
  have hspecial := (hl.kind_of_text hc).trans (hmark text ht)
  rcases hk with hk | hk
  · rw [hk] at hspecial
    cases hspecial
  · rw [hk] at hspecial
    cases hspecial

/-- A statement begins with a keyword, an identifier or a brace. -/
theorem Derives.exists_head {ts : List Token} {n : Node} (h : readable.Derives .statement ts [n])
    (hl : ∀ t ∈ ts, t.Lexical) : ∃ t more, ts = t :: more ∧ Bounds t := by
  have hkeyword : ∀ {t : Token} {text : String}, t.Lexical → t.text = text →
      Kind.ofText text.toList = .keyword → Bounds t := by
    intro t text ht htext hk
    exact .inl ((ht.kind_of_text htext).trans hk)
  have hcondition : ∀ {us vs : List Token} {c : Node}, readable.Condition us c →
      (∀ t ∈ us, t.Lexical) → ∃ t more, us ++ vs = t :: more ∧ Bounds t := by
    intro us vs c hc hus
    cases hc with
    | mk hi => exact ⟨_, _, rfl, hkeyword (hus _ (by simp)) hi (by decide)⟩
  cases h with
  | returning hr => exact ⟨_, _, rfl, hkeyword (hl _ (by simp)) hr (by decide)⟩
  | conditional hc => exact hcondition hc (List.forall_mem_append.1 hl).1
  | alternative hc => exact hcondition hc (List.forall_mem_append.1 hl).1
  | declaration ht =>
    have hsub : ∀ text ∈ tags, Kind.ofText text.toList = .keyword := by decide
    exact ⟨_, _, rfl, hkeyword (hl _ (by simp)) rfl (hsub _ ht)⟩
  | nested h =>
    cases h with
    | block ho => exact ⟨_, _, rfl, .inr (.inr (by simp [ho]))⟩
  | assignedCall hx => exact ⟨_, _, rfl, .inr (.inl hx)⟩
  | assignment hx => exact ⟨_, _, rfl, .inr (.inl hx)⟩
  | call h =>
    cases h with
    | mk ht => exact ⟨_, _, rfl, .inr (.inl ht)⟩
  | expression hx => exact ⟨_, _, rfl, .inr (.inl hx)⟩

/-- The body of a block ends at a brace, and before that wherever a statement of it begins. -/
theorem ends_body {ts : List Token} {ns : List Node} (h : readable.Derives .body ts ns)
    (hl : ∀ t ∈ ts, t.Lexical) {r : Token} (hlr : r.Lexical) (hr : r.text = "\x7d")
    (rest : List Token) : Ends (ts ++ r :: rest) := by
  cases h with
  | empty => exact ends_of_bounds hlr (.inr (.inr (by simp [hr])))
  | separator hs => exact ends_of_bounds (hl _ (by simp)) (.inr (.inr (by simp [hs])))
  | next h =>
    obtain ⟨hts, _⟩ := List.forall_mem_append.1 hl
    obtain ⟨t, more, rfl, hb⟩ := h.exists_head hts
    exact ends_of_bounds (hts t (by simp)) hb

/-- What may stand before the statements of a body may stand before the brace behind them. -/
theorem before_append {n : Node} {ts : List Token} {r : Token} (h : n.Before ts)
    (hr : r.text = "\x7d") (rest : List Token) : n.Before (ts ++ r :: rest) := by
  intro ho hs
  cases ts with
  | nil => exact absurd (hr.symm.trans hs) (by decide)
  | cons t ts => exact h ho hs

/-! ## Statements and blocks -/

/-- A statement is read by the phrase of the token that it begins with: a block or any other. -/
def IsRead (us : List Token) (n : Node) (rest : List Token) : Prop :=
  StartsWith "\x7b" us ∧ Phrase.block.run (facing (us ++ rest)) = .ok n (facing rest) ∨
    (∃ t more, us = t :: more ∧ (t.kind = .keyword ∨ t.kind = .identifier)) ∧
      Phrase.statement.run (facing (us ++ rest)) = .ok n (facing rest)

/-- A statement that a keyword begins is read as one. -/
theorem isRead_of_keyword {t : Token} {ts rest : List Token} {n : Node} (hk : t.kind = .keyword)
    (phrase : Phrase)
    (hp : phrase =
      if t.text = "return" then .returning else if t.text = "if" then .conditional
      else .declaration)
    (h : phrase.run (facing (t :: ts ++ rest)) = .ok n (facing rest)) :
    IsRead (t :: ts) n rest := by
  refine .inr ⟨⟨t, ts, rfl, .inl hk⟩, ?_⟩
  subst hp
  rw [List.cons_append] at h ⊢
  simp only [Phrase.run_statement, current_facing, if_pos hk, ← h]
  split
  · rfl
  · split <;> rfl

theorem isRead_of_identifierLed {t : Token} {ts rest : List Token} {n : Node}
    (hk : t.kind = .identifier)
    (h : Phrase.identifierLed.run (facing (t :: ts ++ rest)) = .ok n (facing rest)) :
    IsRead (t :: ts) n rest := by
  refine .inr ⟨⟨t, ts, rfl, .inr hk⟩, ?_⟩
  rw [List.cons_append] at h ⊢
  simp only [Phrase.run_statement, current_facing, hk, reduceCtorEq, if_false, if_true, h]

/-- What a conditional begins with begins a statement. -/
theorem isRead_of_condition {ts us rest : List Token} {c n : Node} (h : readable.Condition ts c)
    (hl : ∀ t ∈ ts, t.Lexical)
    (hread : Phrase.conditional.run (facing (ts ++ us ++ rest)) = .ok n (facing rest)) :
    IsRead (ts ++ us) n rest := by
  cases h with
  | @mk i _ _ _ _ hi =>
    have hk : i.kind = .keyword := (hl i (by simp)).kind_of_text hi
    exact isRead_of_keyword hk .conditional (by simp [hi]) hread

/-- A call that begins a statement is a statement. -/
theorem isRead_call {us rest : List Token} {n : Node} (h : readable.Call us n)
    (hl : ∀ t ∈ us, t.Lexical) : IsRead us n rest := by
  have hread := complete_call h hl rest
  cases h with
  | @mk t us args ht ha =>
    obtain ⟨l, more, rfl, ho⟩ : ∃ l more, us = l :: more ∧ l.text = "(" := by
      cases ha with
      | none ho => exact ⟨_, _, rfl, ho⟩
      | some ho => exact ⟨_, _, rfl, ho⟩
    have hk : l.kind = .special := (hl l (by simp)).kind_of_text ho
    apply isRead_of_identifierLed ht
    rw [List.cons_append, List.cons_append] at hread ⊢
    simp only [Phrase.run_identifierLed, current_facing, next_facing, List.head?_cons, hk,
      reduceCtorEq, if_false, ho, if_true, hread]

/-- A statement that begins with a name and an equals sign is an assignment, of a call or of an
expression as the second token behind the sign tells. -/
theorem run_statement_assignment {x e : Token} (hx : x.kind = .identifier) (he : e.kind = .assign)
    (ts : List Token) :
    Phrase.statement.run (facing (x :: e :: ts)) =
      (if (facing ts).nextReads "(" then Phrase.call.run (facing ts)
        else Phrase.expression.run (facing ts)).andThen fun value w =>
          .ok (.assignment (.identifier x.text) value) w := by
  rw [Phrase.run_statement, current_facing]
  simp only [hx, reduceCtorEq, if_false, if_true]
  rw [Phrase.run_identifierLed]
  simp only [current_facing, next_facing, List.head?_cons, he, if_true, advance_facing,
    Outcome.andThen_ok]
  rw [Phrase.run_assignment]
  simp only [current_facing, he, if_true, advance_facing, Outcome.andThen_ok]
  split
  · rfl
  · rfl

/-- An assignment is read if its value is read as the phrase that its second token calls for. -/
theorem isRead_assignment {x e : Token} {us rest : List Token} {n : Node}
    (hx : x.kind = .identifier) (hle : e.Lexical) (he : e.text = "=")
    (h : (if (facing (us ++ rest)).nextReads "(" then Phrase.call.run (facing (us ++ rest))
      else Phrase.expression.run (facing (us ++ rest))) = .ok n (facing rest)) :
    IsRead (x :: e :: us) (.assignment (.identifier x.text) n) rest := by
  have hk : e.kind = .assign := hle.kind_of_text he
  refine .inr ⟨⟨x, e :: us, rfl, .inr hx⟩, ?_⟩
  rw [List.cons_append, List.cons_append, run_statement_assignment hx hk, h, Outcome.andThen_ok]

/-- The second token of a value is a parenthesis for calls alone. -/
theorem nextReads_of_call {us rest : List Token} {n : Node} (h : readable.Call us n) :
    (facing (us ++ rest)).nextReads "(" = true := by
  cases h with
  | mk _ ha =>
    cases ha with
    | none ho => simp [ho]
    | some ho => simp [ho]

/-- The second token of an expression is a parenthesis only where the first one is one, too. -/
theorem nextReads_of_expression {G : Grammar} {us rest : List Token} {n : Node}
    (h : G.Expression .equality us n) (ho : ¬ OpensTwice us) (hr : ¬ StartsWith "(" rest) :
    (facing (us ++ rest)).nextReads "(" = false := by
  match us, h, ho with
  | [], h, _ => exact absurd rfl h.ne_nil
  | [t], _, _ =>
    cases rest with
    | nil => rfl
    | cons u rest => simpa [StartsWith] using hr
  | t :: u :: more, h, ho =>
    rw [List.cons_append, List.cons_append, nextReads_facing, decide_eq_false_iff_not]
    intro hu
    rcases h.second rfl with ht | hm
    · exact ho ⟨ht, hu⟩
    · rw [hu] at hm
      exact absurd hm (by decide)

/-- What it means for a derived list to be read. -/
def Complete : Form → List Token → List Node → Prop
  | .statement, us, [n] => ∀ rest, Ends rest → n.Before rest → IsRead us n rest
  | .block, us, [n] => ∀ rest, Phrase.block.run (facing (us ++ rest)) = .ok n (facing rest)
  | .body, us, ns => ∀ (r : Token) (rest : List Token) (read : List Node), r.Lexical →
      r.text = "\x7d" →
        (Phrase.statements read).run (facing (us ++ r :: rest)) =
          .ok (.block (read ++ ns)) (facing rest)
  | _, _, _ => True

/-- One statement more in front of the rest of a body. -/
theorem complete_next {ts us : List Token} {n : Node} {ns : List Node}
    (hts : ∀ t ∈ ts, t.Lexical) {r : Token} {rest : List Token}
    (hread : IsRead ts n (us ++ r :: rest)) {read : List Node}
    (hmore : (Phrase.statements (read ++ [n])).run (facing (us ++ r :: rest)) =
      .ok (.block (read ++ [n] ++ ns)) (facing rest)) :
    (Phrase.statements read).run (facing (ts ++ us ++ r :: rest)) =
      .ok (.block (read ++ n :: ns)) (facing rest) := by
  rw [List.append_assoc, Phrase.run_statements]
  rcases hread with ⟨ho, hread⟩ | ⟨⟨t, more, rfl, hk⟩, hread⟩
  · cases ts with
    | nil => exact ho.elim
    | cons t more =>
      simp only [StartsWith] at ho
      rw [List.cons_append] at hread ⊢
      rw [if_neg (by simp [ho]), if_neg (by simp [ho]), if_pos (by simp [ho]), hread,
        Outcome.andThen_ok, hmore, List.append_assoc, List.singleton_append]
  · have hapart := text_ne_of_word (hts t (by simp)) hk
    rw [List.cons_append] at hread ⊢
    rw [if_neg (by simp [hapart]), if_neg (by simp [hapart]), if_neg (by simp [hapart]), hread,
      Outcome.andThen_ok, hmore, List.append_assoc, List.singleton_append]

/-- Statements, blocks and bodies that are derived are read. -/
theorem complete_derives {form : Form} {us : List Token} {ns : List Node}
    (h : readable.Derives form us ns) (hl : ∀ t ∈ us, t.Lexical) : Complete form us ns := by
  induction h with
  | @returning r s ts n hr h hs =>
    intro rest _ _
    have hread : Phrase.expression.run (facing (ts ++ s :: rest)) = .ok n (facing (s :: rest)) :=
      complete_expression h (fun t ht => hl t (by simp [ht])) (stops_of_text hs (by decide))
    have hk : r.kind = .keyword := (hl r (by simp)).kind_of_text hr
    apply isRead_of_keyword hk .returning (by rw [if_pos hr])
    rw [Phrase.run_returning, List.cons_append, accept_facing hr, Outcome.andThen_ok,
      List.append_assoc, List.singleton_append, hread, Outcome.andThen_ok, accept_facing hs,
      Outcome.andThen_ok]
  | @conditional ts us c t hc _ ih =>
    intro rest _ hb
    obtain ⟨hlts, hlus⟩ := List.forall_mem_append.1 hl
    have helse : (facing rest).reads "else" = false := by
      rw [Bool.eq_false_iff, ne_eq, reads_facing_iff]
      exact hb rfl
    have hread := complete_conditional hc hlts (ih hlus rest)
    rw [helse, if_neg Bool.false_ne_true, ← List.append_assoc] at hread
    exact isRead_of_condition hc hlts hread
  | @alternative ts us vs e c t u hc _ he _ iht ihu =>
    intro rest _ _
    obtain ⟨hlts, hlus⟩ := List.forall_mem_append.1 hl
    obtain ⟨hlus, hlvs⟩ := List.forall_mem_append.1 hlus
    have hread := complete_conditional hc hlts (iht hlus (e :: (vs ++ rest)))
    rw [reads_facing, if_pos (decide_eq_true he), accept_facing he, Outcome.andThen_ok,
      ihu (List.forall_mem_cons.1 hlvs).2 rest, Outcome.andThen_ok] at hread
    apply isRead_of_condition hc hlts
    simpa using hread
  | @declaration tag ts us name body ps ht hs _ ih =>
    intro rest _ _
    obtain ⟨hltag, hlts⟩ := List.forall_mem_cons.1 hl
    obtain ⟨hlts, hlus⟩ := List.forall_mem_append.1 hlts
    have htags : ∀ text ∈ tags, Kind.ofText text.toList = .keyword ∧ text ≠ "return" ∧
        text ≠ "if" := by
      decide
    obtain ⟨hk, hr, hi⟩ := htags _ ht
    rw [← hltag.kind_of_text rfl] at hk
    apply isRead_of_keyword hk .declaration (by rw [if_neg hr, if_neg hi])
    exact complete_declaration tag hs hlts (ih hlus rest)
  | @nested ts n h ih =>
    intro rest _ _
    refine .inl ⟨?_, ih hl rest⟩
    cases h with
    | block ho => exact ho
  | @assignedCall x e ts n hx he h =>
    intro rest _ _
    have hlts : ∀ t ∈ ts, t.Lexical := fun t ht => hl t (by simp [ht])
    apply isRead_assignment hx (hl e (by simp)) he
    rw [nextReads_of_call h, if_pos rfl, complete_call h hlts rest]
  | @assignment x e ts n hx he h ho =>
    intro rest hr _
    have hlts : ∀ t ∈ ts, t.Lexical := fun t ht => hl t (by simp [ht])
    apply isRead_assignment hx (hl e (by simp)) he
    rw [nextReads_of_expression h ho hr.2, if_neg Bool.false_ne_true,
      complete_expression h hlts hr.1]
  | call h =>
    intro rest _ _
    exact isRead_call h hl
  | @expression x o ts n hx ho h =>
    intro rest hr _
    have hread := complete_expression h hl hr.1
    apply isRead_of_identifierLed hx
    simp only [List.cons_append] at hread ⊢
    simp only [Phrase.run_identifierLed, current_facing, next_facing, List.head?_cons, ho,
      reduceCtorEq, if_false, if_true, hread]
  | @block l r ts ns ho h hr ih =>
    intro rest
    have hlts : ∀ t ∈ ts, t.Lexical := fun t ht => hl t (by simp [ht])
    have hread := ih hlts r rest [] (hl r (by simp)) hr
    rw [Phrase.run_block, List.cons_append, accept_facing ho, Outcome.andThen_ok, List.append_assoc,
      List.singleton_append, hread, List.nil_append]
  | empty =>
    intro r rest read _ hr
    rw [List.nil_append, Phrase.run_statements, if_pos (by simp [hr]), accept_facing hr,
      Outcome.andThen_ok, List.append_nil]
  | @separator s ts ns hs h ih =>
    intro r rest read hlr hr
    rw [List.cons_append, Phrase.run_statements, if_neg (by simp [hs]), if_pos (by simp [hs]),
      accept_facing hs, Outcome.andThen_ok]
    exact ih (List.forall_mem_cons.1 hl).2 r rest read hlr hr
  | @next ts us n ns h hb hs iht ihs =>
    intro r rest read hlr hr
    obtain ⟨hlts, hlus⟩ := List.forall_mem_append.1 hl
    have hread := iht hlts _ (ends_body hs hlus hlr hr rest) (before_append hb hr rest)
    exact complete_next hlts hread (ihs hlus r rest (read ++ [n]) hlr hr)

/-! ## Programs -/

/-- What is derived as items begins where no statement goes on. -/
theorem ends_items {behind : Bool} {ts : List Token} {ns : List Node}
    (h : readable.Items behind ts ns) (hl : ∀ t ∈ ts, t.Lexical) : Ends ts := by
  cases h with
  | empty => exact ⟨trivial, id⟩
  | separator hs => exact ends_of_bounds (hl _ (by simp)) (.inr (.inr (by simp [hs])))
  | statement h =>
    obtain ⟨hts, _⟩ := List.forall_mem_append.1 hl
    obtain ⟨t, more, rfl, hb⟩ := h.exists_head hts
    exact ends_of_bounds (hts t (by simp)) hb
  | @declaration tag _ _ _ _ _ _ _ ht =>
    have hlt := hl tag (by simp)
    exact ends_of_bounds hlt (.inr (.inl (hlt.kind_of_text ht)))

/-- How the reading of items goes on behind one. -/
def readOn (read : List Node) (n : Node) (w : Window) : Outcome Node :=
  if n = .absent then (readItems read w).outcome else (readItems (read ++ [n]) w).outcome

theorem outcome_readItems_facing (read : List Node) (t : Token) (ts : List Token) :
    (readItems read (facing (t :: ts))).outcome =
      (t.topLevel.run (facing (t :: ts))).andThen (readOn read) := by
  rw [outcome_readItems]
  rfl

/-- Derived items are read; right behind a semicolon they are read within its sentence. -/
def CompleteItems : Bool → List Token → List Node → Prop
  | false, ts, ns => ∀ read,
      (readItems read (facing ts)).outcome = .ok (.program (read ++ ns)) (facing [])
  | true, ts, ns => ∀ read,
      (Phrase.sentence.run (facing ts)).andThen (readOn read) =
        .ok (.program (read ++ ns)) (facing [])

/-- A sentence that begins with a statement which is no block is the statement. -/
theorem run_sentence_of_isRead {t : Token} {ts : List Token} (hl : t.Lexical)
    (hk : t.kind = .keyword ∨ t.kind = .identifier) :
    Phrase.sentence.run (facing (t :: ts)) = Phrase.statement.run (facing (t :: ts)) := by
  have hapart := text_ne_of_word hl hk
  rw [Phrase.run_sentence, if_neg (by simp [hapart]), if_neg (by simp [hapart])]

/-- At the top level a statement that is no block is read as one, unless `int` begins it. -/
theorem run_topLevel_of_isRead {t : Token} {ts : List Token} (hl : t.Lexical)
    (hk : t.kind = .keyword ∨ t.kind = .identifier) (hi : t.text ≠ "int") :
    t.topLevel.run (facing (t :: ts)) = Phrase.statement.run (facing (t :: ts)) := by
  have hstatement : ∀ text ∈ ["void", "if"], t.text = text → t.kind = .keyword := by
    intro text ht hc
    have hword : ∀ text ∈ ["void", "if"], Kind.ofText text.toList = .keyword := by decide
    exact (hl.kind_of_text hc).trans (hword text ht)
  unfold Token.topLevel
  split
  · rename_i ht
    have ht := ht.resolve_right hi
    simp [Phrase.run_statement, hstatement _ (by simp) ht, ht]
  · split
    · rename_i ht
      simp [Phrase.run_statement, hstatement _ (by simp) ht, ht]
    · split
      · rename_i ht
        exact absurd ht (text_ne_of_word hl hk _ (by simp))
      · exact run_sentence_of_isRead hl hk

/-- Items that begin with a statement are read if the items behind it are. -/
theorem complete_statement {behind : Bool} {ts us : List Token} {n : Node} {ns : List Node}
    (hl : ∀ t ∈ ts, t.Lexical) (hn : n ≠ .absent) (hread : IsRead ts n us)
    (hi : behind = false → ¬ StartsWith "int" ts) (ih : CompleteItems false us ns) :
    CompleteItems behind (ts ++ us) (n :: ns) := by
  have hon : ∀ read, readOn read n (facing us) = .ok (.program (read ++ n :: ns)) (facing []) := by
    intro read
    rw [readOn, if_neg hn, ih (read ++ [n]), List.append_assoc, List.singleton_append]
  rcases hread with ⟨ho, hread⟩ | ⟨⟨t, more, rfl, hk⟩, hread⟩
  · cases ts with
    | nil => exact ho.elim
    | cons t more =>
      simp only [StartsWith] at ho
      rw [List.cons_append] at hread ⊢
      have hfalse : CompleteItems false (t :: (more ++ us)) (n :: ns) := by
        intro read
        have htop : t.topLevel = .block := by simp [Token.topLevel, ho]
        rw [outcome_readItems_facing, htop, hread, Outcome.andThen_ok, hon]
      cases behind with
      | false => exact hfalse
      | true =>
        -- a block ends the sentence of the semicolons before it
        intro read
        rw [Phrase.run_sentence, if_neg (by simp [ho]), if_pos (by simp [ho]), Outcome.andThen_ok,
          readOn, if_pos rfl]
        exact hfalse read
  · have hlt := hl t (by simp)
    rw [List.cons_append] at hread ⊢
    cases behind with
    | false =>
      intro read
      rw [outcome_readItems_facing, run_topLevel_of_isRead hlt hk (hi rfl), hread,
        Outcome.andThen_ok, hon]
    | true =>
      intro read
      rw [run_sentence_of_isRead hlt hk, hread, Outcome.andThen_ok, hon]

theorem complete_items {behind : Bool} {ts : List Token} {ns : List Node}
    (h : readable.Items behind ts ns) (hl : ∀ t ∈ ts, t.Lexical) :
    CompleteItems behind ts ns := by
  induction h with
  | @empty behind =>
    cases behind with
    | false =>
      intro read
      rw [outcome_readItems, List.append_nil]
      rfl
    | true =>
      intro read
      rw [Phrase.run_sentence, if_neg (by simp), if_pos (by simp), Outcome.andThen_ok, readOn,
        if_pos rfl, outcome_readItems, List.append_nil]
      rfl
  | @separator behind s ts ns hs _ ih =>
    have hsentence :
        Phrase.sentence.run (facing (s :: ts)) = Phrase.sentence.run (facing ts) := by
      rw [Phrase.run_sentence, if_pos (by simp [hs]), accept_facing hs, Outcome.andThen_ok]
    have hon := ih (List.forall_mem_cons.1 hl).2
    cases behind with
    | false =>
      intro read
      have htop : s.topLevel = .sentence := by simp [Token.topLevel, hs]
      rw [outcome_readItems_facing, htop, hsentence]
      exact hon read
    | true =>
      intro read
      rw [hsentence]
      exact hon read
  | @statement behind ts us n ns h hi hb hs ih =>
    obtain ⟨hlts, hlus⟩ := List.forall_mem_append.1 hl
    have hread := complete_derives h hlts us (ends_items hs hlus) hb
    exact complete_statement hlts (h.ne_absent makesExpressions_readable) hread hi (ih hlus)
  | @declaration tag ts us vs name body ps ns ht hg hb _ ih =>
    intro read
    obtain ⟨hlts, hlvs⟩ := List.forall_mem_append.1 hl
    obtain ⟨hlts, hlus⟩ := List.forall_mem_append.1 (List.forall_mem_cons.1 hlts).2
    have hread := complete_declaration tag hg hlts (complete_derives hb hlus vs)
    have htop : tag.topLevel = .declaration := by simp [Token.topLevel, ht]
    have hon := ih hlvs (read ++ [.declaration tag.text name ps body])
    rw [List.cons_append] at hread ⊢
    rw [outcome_readItems_facing, htop, hread, Outcome.andThen_ok, readOn, if_neg (by simp), hon,
      List.append_assoc, List.singleton_append]

/-- A program that is derived is read from the whole list. -/
theorem complete_program {ts : List Token} (hl : ∀ t ∈ ts, t.Lexical) {p : Node}
    (h : readable.Program ts p) : (facing ts).program = .ok p (facing []) := by
  obtain ⟨ns, rfl, h⟩ := h
  rw [Window.program_eq]
  exact complete_items h hl []

end Grammar

end MiniLang
