import MiniLang.Proofs.Replay
/-!
# Forward plans, step by step

A plan is put together from steps, and so is its completion.  `Plan.Opens` is said of a plan that is
forward and can be completed from its beginning; `Plan.Shuts` is said of one that can stand behind a
phrase, since its completion closes the phrase.

A look at the current token alone needs no more than that it takes nothing in front of closing marks
where it takes nothing at all (`Plan.forward_look`).  A look at the next token needs that both
tokens are passed, or that nothing is (`Plan.replays_look_of_two`).
-/

set_option autoImplicit false

namespace MiniLang

open Window

/-- The lexical token of a text. -/
def Token.ofText (text : String) : Token := ⟨Kind.ofText text.toList, text, .start⟩

theorem accept_ofText (text : String) (ts : List Token) :
    (facing (Token.ofText text :: ts)).accept text = .ok () (facing ts) :=
  accept_facing rfl ts

/-- A phrase that can be completed from its beginning. -/
def Phrase.Completable (p : Phrase) : Prop := ∃ ext, Completes Closes p.run [] ext

/-! ## Passing two tokens -/

/-- An outcome that has passed the two tokens in view, or else a fault at once, or one behind which
nothing can be completed. -/
def Passes {α : Type} (w : Window) (o : Outcome α) : Prop :=
  o.after.left + 2 ≤ w.left ∨ (∃ fault, o = .fail fault w) ∨
    ∃ fault w₁, o = .fail fault w₁ ∧ ¬ fault.IsMendable

theorem Passes.andThen {α β : Type} {w : Window} {o : Outcome α} {go : α → Window → Outcome β}
    (h : Passes w o) (hgo : ∀ a w₁, (go a w₁).Within 0 w₁) : Passes w (o.andThen go) := by
  rcases h with h | ⟨fault, rfl⟩ | ⟨fault, w₁, rfl, hm⟩
  · cases o with
    | ok a w₁ => exact .inl (Nat.le_trans (Nat.add_le_add_right (hgo a w₁).after_le 2) h)
    | fail fault w₁ => exact .inl h
  · exact .inr (.inl ⟨fault, rfl⟩)
  · exact .inr (.inr ⟨fault, w₁, rfl, hm⟩)

/-- Where an outcome is within what is left behind two tokens, it has passed them. -/
theorem passes_of_within {α : Type} {t u : Token} {ts : List Token} {o : Outcome α}
    (h : o.Within 0 (facing ts)) : Passes (facing (t :: u :: ts)) o := by
  have := h.after_le
  rw [left_facing] at this
  refine .inl ?_
  rw [left_facing, List.length_cons, List.length_cons]
  omega

/-- An outcome that has passed two tokens has passed two of any front that it has passed. -/
theorem Passes.two_le {α : Type} {us rest : List Token} {o : Outcome α}
    (h : Passes (facing (us ++ rest)) o) (ho : o.after = facing rest) :
    2 ≤ us.length ∨ (us = [] ∧ ∃ fault, o = .fail fault (facing (us ++ rest))) ∨
      ∃ fault w₁, o = .fail fault w₁ ∧ ¬ fault.IsMendable := by
  rcases h with h | ⟨fault, rfl⟩ | h
  · rw [ho, left_facing, left_facing, List.length_append] at h
    exact .inl (by omega)
  · have hlen := length_of_facing_eq ho
    rw [List.length_append] at hlen
    exact .inr (.inl ⟨List.length_eq_zero_iff.1 (by omega), fault, rfl⟩)
  · exact .inr (.inr h)

namespace Plan

variable {α : Type} {F : List Token → Prop}

/-! ## Taking a token -/

/-- A plan that takes a token at least. -/
def Takes (plan : Plan α) : Prop := ∀ w, (plan.run w).Within 1 w

theorem Takes.settles {plan : Plan α} (h : plan.Takes) : Settles F plan.run :=
  settles_of_within h

theorem takes_ite {c : Prop} [Decidable c] {p q : Plan α} (hp : p.Takes) (hq : q.Takes) :
    (if c then p else q).Takes := by
  split
  · exact hp
  · exact hq

theorem takes_advance {go : Plan α} (h : go.Takes) : (advance go).Takes := by
  intro w
  rw [run]
  have hw := within_advance_zero w
  cases ha : w.advance with
  | fail fault w₁ =>
    rw [ha] at hw
    exact hw
  | ok u w₁ => exact (h w₁).trans (hw.left_le ha)

theorem takes_look {go : Option Token → Option Token → Plan α}
    (h : ∀ current next, (go current next).Takes) : (look go).Takes :=
  fun w => h _ _ w

theorem takes_accept (text : String) (go : Plan α) : (accept text go).Takes := by
  intro w
  rw [run_accept]
  exact (within_accept w text).andThen fun _ w₁ => go.within_run w₁

theorem takes_identifier (go : Node → Plan α) : (identifier go).Takes := by
  intro w
  rw [run_identifier]
  exact (within_identifier w).andThen fun node w₁ => (go node).within_run w₁

theorem takes_phrase {p : Phrase} (h : p.least = 1) (go : Node → Plan α) : (phrase p go).Takes := by
  intro w
  have hp := p.within_run w
  rw [h] at hp
  exact hp.andThen fun node w₁ => (go node).within_run w₁

/-- A branch that may end at once does so with one value. -/
theorem takes_or_done_ite {c : Prop} [Decidable c] {p : Plan α} {a : α} (hp : p.Takes) :
    (if c then p else .done a).Takes ∨ (if c then p else .done a) = .done a := by
  split
  · exact .inl hp
  · exact .inr rfl

/-! ## Looks -/

/-- A look at the current token alone goes the same way where the current tokens are the same. -/
theorem run_look_of_current {go : Option Token → Option Token → Plan α}
    (hnext : ∀ current next next', go current next = go current next') {ts ts' : List Token}
    (h : ts'.head? = ts.head?) :
    (look go).run (facing ts') =
      (go ((facing ts).current.map Token.unplaced) ((facing ts).next.map Token.unplaced)).run
        (facing ts') := by
  rw [run, current_facing_eq, h, ← current_facing_eq, hnext _ _ ((facing ts).next.map _)]

theorem forward_look {go : Option Token → Option Token → Plan α}
    (hnext : ∀ current next next', go current next = go current next')
    (hs : Settles F (look go).run) (h : ∀ current next, (go current next).Forward F) :
    (look go).Forward F := by
  refine fun ts _ => ⟨h _ _, fun hgo => ?_⟩
  have hrun := @run_look_of_current _ go hnext ts
  cases hgo with
  | @ok us rest a hts hok =>
    refine .ok (a := a) hts fun rest' hr => ?_
    by_cases hus : us = []
    · subst hus hts
      rcases hr with hhead | hF
      · exact (hrun hhead).trans (hok rest' (.inl hhead))
      · exact hs _ a (hok _ (.inl rfl)) rest' hF
    · have hhead : (us ++ rest').head? = ts.head? := hts ▸ head?_append hus _ _
      exact (hrun hhead).trans (hok rest' hr)
  | @fail us rest fault hts hfail hext =>
    refine .fail hts hfail fun hm hus => ?_
    obtain ⟨ext, hl, a, ha⟩ := hext hm hus
    refine ⟨ext, hl, a, fun rest' hr => ?_⟩
    have hhead : (us ++ (ext ++ rest')).head? = ts.head? := hts ▸ head?_append hus _ _
    exact (hrun hhead).trans (ha rest' hr)

/-- A look that may end at once with one value only. -/
theorem settles_look {go : Option Token → Option Token → Plan α} {a : α}
    (h : ∀ current next, (go current next).Takes ∨ go current next = .done a)
    (hF : ∀ rest, F rest → (look go).run (facing rest) = .ok a (facing rest)) :
    Settles F (look go).run := by
  intro rest b hr rest' hrest'
  rcases h ((facing rest).current.map Token.unplaced) ((facing rest).next.map Token.unplaced) with
    ht | hd
  · have := (ht (facing rest)).left_le hr
    omega
  · rw [run, hd] at hr
    cases hr
    exact hF rest' hrest'

/-- A look at both tokens goes the same way where both have been passed. -/
theorem replays_look_of_two {go : Option Token → Option Token → Plan α} {ts : List Token}
    (h : Replays F (go ((facing ts).current.map Token.unplaced)
      ((facing ts).next.map Token.unplaced)).run ts)
    (htwo : Passes (facing ts) ((look go).run (facing ts))) :
    Replays F (look go).run ts := by
  have hrun : ∀ {us rest : List Token}, ts = us ++ rest → 2 ≤ us.length → ∀ rest',
      (look go).run (facing (us ++ rest')) =
        (go ((facing ts).current.map Token.unplaced) ((facing ts).next.map Token.unplaced)).run
          (facing (us ++ rest')) := by
    rintro (_ | ⟨t, _ | ⟨u, us⟩⟩) rest rfl hus rest'
    · cases hus
    · exact absurd hus (by simp)
    · rfl
  cases h with
  | @ok us rest a hts hok =>
    have hr : (look go).run (facing ts) = .ok a (facing rest) := hts ▸ hok rest (.inl rfl)
    rw [hr, hts] at htwo
    rcases htwo.two_le rfl with hus | ⟨-, _, hf⟩ | ⟨_, _, hf, -⟩
    · exact .ok hts fun rest' hr => (hrun hts hus rest').trans (hok rest' hr)
    · cases hf
    · cases hf
  | @fail us rest fault hts hfail hext =>
    refine .fail hts hfail fun hm hne => ?_
    have hr : (look go).run (facing ts) = .fail fault (facing rest) := hfail
    rw [hr, hts] at htwo
    obtain ⟨ext, hl, a, ha⟩ := hext hm hne
    rcases htwo.two_le rfl with hus | ⟨hnil, _⟩ | ⟨_, _, hf, hnot⟩
    · exact ⟨ext, hl, a, fun rest' hr => (hrun hts hus _).trans (ha rest' hr)⟩
    · exact absurd hnil hne
    · cases hf
      exact absurd hm hnot

/-! ## Plans that open and plans that shut -/

/-- A forward plan that can be completed from its beginning. -/
structure Opens (plan : Plan α) : Prop where
  forward : plan.Forward Closes
  completes : ∃ ext, Completes Closes plan.run [] ext

/-- A forward plan that can be completed from its beginning by a mark that closes what stands before
it, or by nothing at all. -/
structure Shuts (plan : Plan α) : Prop where
  forward : plan.Forward Closes
  completes : ∃ ext, Completes Closes plan.run [] ext ∧ Closes ext

theorem Shuts.opens {plan : Plan α} (h : plan.Shuts) : plan.Opens := by
  obtain ⟨ext, hc, _⟩ := h.completes
  exact ⟨h.forward, ext, hc⟩

theorem completes_done (a : α) : Completes F (done a).run [] [] :=
  ⟨List.forall_mem_nil _, a, fun _ _ => rfl⟩

theorem shuts_done (a : α) : (done a).Shuts := ⟨trivial, [], completes_done a, closes_nil⟩

theorem forward_advance {go : Plan α} (h : go.Opens) : (advance go).Forward Closes :=
  ⟨h.forward, .inr h.completes⟩

/-- A token that nothing can complete. -/
theorem forward_advance_digits (count : Nat) :
    (advance (complain (.digits count)) : Plan α).Forward F :=
  ⟨trivial, .inl ⟨count, rfl⟩⟩

theorem forward_ite {c : Prop} [Decidable c] {p q : Plan α} (hp : c → p.Forward F)
    (hq : ¬ c → q.Forward F) : (if c then p else q).Forward F := by
  split
  · exact hp ‹_›
  · exact hq ‹_›

theorem forward_phrase {p : Phrase} {go : Node → Plan α} (hp : p.Regular)
    (hf : p.Follow = Closes) (h : ∀ node, (go node).Shuts) : (phrase p go).Forward Closes := by
  refine ⟨hp, fun node => ⟨(h node).forward, ?_⟩⟩
  obtain ⟨ext, hc, hs⟩ := (h node).completes
  rw [hf]
  exact ⟨ext, hc, fun rest hr => ⟨hr, closes_append hs hr⟩⟩

theorem opens_phrase {p : Phrase} {go : Node → Plan α} (hp : p.Regular) (hf : p.Follow = Closes)
    (hc : p.Completable) (h : ∀ node, (go node).Shuts) : (phrase p go).Opens := by
  refine ⟨forward_phrase hp hf h, ?_⟩
  obtain ⟨ext, hl, node, hn⟩ := hc
  obtain ⟨ext', hc', hs⟩ := (h node).completes
  exact ⟨ext ++ ext', .andThen hl hn hc' fun rest hr => closes_append hs hr⟩

/-- A phrase that is read last shuts if it does. -/
theorem shuts_last {p : Phrase} (hp : p.Regular) (hf : p.Follow = Closes) {ext : List Token}
    (hc : Completes Closes p.run [] ext) (hs : Closes ext) : (phrase p .done).Shuts := by
  refine ⟨forward_phrase hp hf shuts_done, ext, ?_, hs⟩
  have hrun : (phrase p .done).run = p.run := funext fun w => andThen_ok_self (p.run w)
  rwa [hrun]

/-! ## Frequent plans -/

theorem forward_accept_of (text : String) {go : Plan α} (h : go.Forward F)
    (hc : ∃ ext, Completes F go.run [] ext) : (accept text go).Forward F := by
  refine forward_look (fun _ _ _ => rfl) (takes_accept text go).settles fun current next => ?_
  exact forward_ite (fun _ => ⟨h, .inr hc⟩) fun _ => trivial

theorem forward_accept (text : String) {go : Plan α} (h : go.Opens) :
    (accept text go).Forward Closes :=
  forward_accept_of text h.forward h.completes

/-- The token of a text completes what calls for it. -/
theorem completes_accept (text : String) (hl : (Token.ofText text).Lexical) {go : Plan α}
    {ext : List Token} (h : Completes Closes go.run [] ext) :
    Completes Closes (accept text go).run [] (Token.ofText text :: ext) := by
  obtain ⟨hext, a, ha⟩ := h
  refine ⟨List.forall_mem_cons.2 ⟨hl, hext⟩, a, fun rest hr => ?_⟩
  rw [List.nil_append, List.cons_append, run_accept, accept_ofText, Outcome.andThen_ok]
  exact ha rest hr

theorem opens_accept {text : String} (hl : (Token.ofText text).Lexical) {go : Plan α}
    (h : go.Opens) : (accept text go).Opens := by
  obtain ⟨ext, hc⟩ := h.completes
  exact ⟨forward_accept text h, _, completes_accept text hl hc⟩

theorem shuts_accept {text : String} (hl : (Token.ofText text).Lexical) (ht : text ∈ closers)
    {go : Plan α} (h : go.Opens) : (accept text go).Shuts := by
  obtain ⟨ext, hc⟩ := h.completes
  exact ⟨forward_accept text h, _, completes_accept text hl hc, closes_cons ht ext⟩

theorem forward_identifier {go : Node → Plan α} (h : ∀ node, (go node).Opens) :
    (identifier go).Forward Closes := by
  refine forward_look (fun _ _ _ => rfl) (takes_identifier go).settles ?_
  rintro (_ | t) next
  · trivial
  · exact forward_ite (fun _ => forward_advance (h _)) fun _ => trivial

theorem opens_identifier {go : Node → Plan α} (h : ∀ node, (go node).Opens) :
    (identifier go).Opens := by
  refine ⟨forward_identifier h, ?_⟩
  obtain ⟨ext, hl, a, ha⟩ := (h (.identifier "x")).completes
  refine ⟨Token.ofText "x" :: ext, List.forall_mem_cons.2 ⟨by decide, hl⟩, a, fun rest hr => ?_⟩
  rw [List.nil_append, List.cons_append, run_identifier, identifier_facing (by decide),
    Outcome.andThen_ok]
  exact ha rest hr

end Plan

end MiniLang
