import MiniLang.Proofs.Calls
import MiniLang.Proofs.Faults
/-!
# Where a fault stops reading

A fault that names a token names one that is still in view: reading complains of what it sees and
does not move any more.  `Window.Stops` says how a reading stops, and `Session.stops_of_call` that
every call stops like that, however deep in it the fault comes up.

Two complaints need more than that.  No statement begins with the current token only where there is
one, and none goes on with the next token only where a statement has begun at the current one, which
is an identifier or has been taken for one.  Which of its complaints a plan may come to is told by
the plan alone (`Plan.Wary`).
-/

set_option autoImplicit false

namespace MiniLang

/-! ## Moves that succeed -/

/-- A window comes to be another one by moves that all succeed. -/
def Window.Walks : Window → Window → Prop :=
  Relation.ReflTransGen fun w w₁ => w.advance = .ok () w₁

namespace Window.Walks

variable {w w₁ w₂ : Window}

theorem none : w.Walks w := Relation.ReflTransGen.refl

theorem trans (h : w.Walks w₁) (h' : w₁.Walks w₂) : w.Walks w₂ :=
  Relation.ReflTransGen.trans h h'

theorem move {u : Unit} (h : w.advance = .ok u w₁) : w.Walks w₁ :=
  Relation.ReflTransGen.single h

theorem of_moves {ts : List Token} (h : w.Moves ts w₁) : w.Walks w₁ := by
  induction h with
  | none => exact .none
  | cons _ ha _ ih => exact (move ha).trans ih

end Window.Walks

/-! ## Ways to stop -/

/-- How a reading from a window stops: with a fault, and with the window afterwards.  A token that
the fault names is in view, and a fault of the stream has left the window as it was before the move
that met it.  `led` tells the windows where a statement that begins with an identifier has begun. -/
inductive Window.Stops (led : Window → Prop) (w : Window) : Fault → Window → Prop where
  | mismatch {expected : String} {w' : Window} : Stops led w (w'.mismatch expected) w'
  | statement {t : Token} {w' : Window} (hc : w'.current = some t) :
      Stops led w (.syntactic (.expectedStatement w'.current)) w'
  | following {t : Token} {w' : Window} (hc : w'.current = some t) (hl : led w') :
      Stops led w (.syntactic (.afterIdentifier w'.next)) w'
  | text {w' : Window} : Stops led w (.noToken .text) w'
  | digits {count : Nat} {w' : Window} : Stops led w (.tooManyDigits count) w'
  | lexical {w₁ w' : Window} {e : LexicalFault} (hw : w.Walks w₁)
      (ha : w₁.advance = .fail (.lexical e) w') : Stops led w (.lexical e) w'

namespace Window.Stops

variable {led led' : Window → Prop} {w w₁ w' : Window} {fault : Fault}

/-- Moves may come first. -/
theorem of_walks (hw : w.Walks w₁) (h : w₁.Stops led fault w') : w.Stops led fault w' := by
  cases h with
  | mismatch => exact .mismatch
  | statement hc => exact .statement hc
  | following hc hl => exact .following hc hl
  | text => exact .text
  | digits => exact .digits
  | lexical hw' ha => exact .lexical (hw.trans hw') ha

theorem mono (h : w.Stops led fault w') (hl : ∀ w, led w → led' w) : w.Stops led' fault w' := by
  cases h with
  | mismatch => exact .mismatch
  | statement hc => exact .statement hc
  | following hc hw => exact .following hc (hl _ hw)
  | text => exact .text
  | digits => exact .digits
  | lexical hw ha => exact .lexical hw ha

/-- A move fails with the fault of the stream alone. -/
theorem of_advance (ha : w.advance = .fail fault w') : w.Stops led fault w' := by
  have hfault : ∃ e, fault = .lexical e := by
    unfold advance at ha
    split at ha
    · cases ha
    · cases ha
      exact ⟨_, rfl⟩
  obtain ⟨e, rfl⟩ := hfault
  exact .lexical .none ha

theorem of_accept {text : String} (ha : w.accept text = .fail fault w') :
    w.Stops led fault w' := by
  unfold accept at ha
  split at ha
  · exact of_advance ha
  · cases ha
    exact .mismatch

end Window.Stops

/-! ## What plans complain of -/

/-- Whether a phrase is a statement that begins with an identifier. -/
def Phrase.isLed : Phrase → Bool
  | .identifierLed => true
  | _ => false

/-- A phrase that may be read wherever a window stands.  A statement that is no block is none: it is
read only behind a look at its first token. -/
def Phrase.StandsAlone : Phrase → Prop
  | .chain _ operand => operand.StandsAlone
  | .chained _ operand _ => operand.StandsAlone
  | .statement => False
  | _ => True

namespace Plan

variable {α : Type}

/-- A plan complains that no statement begins only in front of a token that it has seen, and that
none goes on only if besides it is the plan of a statement that begins with an identifier, which has
not moved yet; `seen` and `led` say so.  The phrases that it reads stand alone, but for statements
in front of a token. -/
def Wary : Plan α → (led seen : Bool) → Prop
  | .done _, _, _ => True
  | .complain complaint, led, seen =>
    (complaint = .statement → seen = true) ∧
      (complaint = .following → led = true ∧ seen = true)
  | .look go, led, seen => ∀ current next, (seen = true → current.isSome) →
    (go current next).Wary led current.isSome
  | .advance go, _, _ => go.Wary false false
  | .phrase p go, _, seen =>
    (p.StandsAlone ∨ p = .statement ∧ seen = true) ∧ ∀ node, (go node).Wary false false
  | .parameters _ go, _, _ => ∀ nodes, (go nodes).Wary false false

variable {led seen : Bool}

/-- To have seen a token forbids nothing. -/
theorem Wary.mono {plan : Plan α} (h : plan.Wary led false) : plan.Wary led seen := by
  cases plan with
  | done value => trivial
  | complain complaint =>
    exact ⟨fun hc => Bool.noConfusion (h.1 hc), fun hc => Bool.noConfusion (h.2 hc).2⟩
  | look go => exact fun current next _ => h current next Bool.noConfusion
  | advance go => exact h
  | phrase p go =>
    obtain ⟨hp | ⟨-, hs⟩, hgo⟩ := h
    · exact ⟨.inl hp, hgo⟩
    · cases hs
  | parameters read go => exact h

/-- Any other complaint may be made anywhere. -/
theorem wary_complain {complaint : Complaint} (hs : complaint ≠ .statement)
    (hf : complaint ≠ .following) : (complain complaint : Plan α).Wary led seen :=
  ⟨fun h => absurd h hs, fun h => absurd h hf⟩

theorem wary_mismatch (expected : String) :
    (complain (.mismatch expected) : Plan α).Wary led seen :=
  wary_complain (by simp) (by simp)

theorem wary_advance {go : Plan α} (h : go.Wary false false) : (Plan.advance go).Wary led seen := h

/-- A phrase that stands alone may be read anywhere. -/
theorem wary_phrase {p : Phrase} {go : Node → Plan α} (hp : p.StandsAlone)
    (h : ∀ node, (go node).Wary false false) : (Plan.phrase p go).Wary led seen :=
  ⟨.inl hp, h⟩

theorem wary_ite {c : Prop} [Decidable c] {p q : Plan α} (hp : c → p.Wary led seen)
    (hq : ¬ c → q.Wary led seen) : (if c then p else q).Wary led seen := by
  split
  · exact hp ‹_›
  · exact hq ‹_›

theorem wary_accept {text : String} {go : Plan α} (h : go.Wary false false) :
    (accept text go).Wary led seen := by
  intro current next _
  exact wary_ite (fun _ => h) fun _ => wary_mismatch text

theorem wary_identifier {go : Node → Plan α} (h : ∀ node, (go node).Wary false false) :
    (identifier go).Wary led seen := by
  intro current next _
  cases current with
  | none => exact wary_mismatch _
  | some t => exact wary_ite (fun _ => h _) fun _ => wary_mismatch _

theorem wary_allParameters {go : List Node → Plan α} (h : ∀ nodes, (go nodes).Wary false false) :
    (allParameters go).Wary false seen := by
  intro current next _
  exact wary_ite (fun _ => (h []).mono) fun _ => wary_identifier fun node => h

theorem wary_moreParameters (read : List Node) : (moreParameters read).Wary led seen := by
  intro current next _
  refine wary_ite (fun _ => wary_accept ?_) fun _ => trivial
  exact wary_identifier fun _ _ => trivial

end Plan

namespace Phrase

open Plan

/-- The plan of a phrase is wary where the phrase may be read. -/
theorem wary_plan {phrase : Phrase} {seen : Bool}
    (h : phrase.StandsAlone ∨ phrase = .statement ∧ seen = true) :
    phrase.plan.Wary phrase.isLed seen := by
  have hexpression : expression.StandsAlone := trivial
  -- a phrase that is read last
  have hlast : ∀ {p : Phrase} {led seen : Bool}, p.StandsAlone →
      (Plan.phrase p .done).Wary led seen := fun hp => wary_phrase hp fun _ => trivial
  cases phrase with
  | identifier => exact wary_identifier fun _ => trivial
  | primary =>
    rintro (_ | t) next _
    · exact wary_mismatch _
    · refine wary_advance (wary_ite (fun _ => ?_) fun _ => ?_)
      · exact wary_phrase hexpression fun node => wary_accept trivial
      · cases t.operand with
        | ok node => trivial
        | error digits => exact wary_complain (by simp) (by simp)
  | chain operators operand =>
    rcases h with h | ⟨h, -⟩
    · exact wary_phrase h fun left => hlast h
    · cases h
  | chained operators operand left =>
    rcases h with h | ⟨h, -⟩
    · rintro (_ | t) next _
      · trivial
      · refine wary_ite (fun _ => wary_advance ?_) fun _ => trivial
        exact wary_phrase h fun right => hlast h
    · cases h
  | call =>
    rw [plan]
    refine wary_identifier fun name => wary_accept ?_
    intro current next _
    refine wary_ite (fun _ => wary_accept trivial) fun _ => ?_
    exact wary_phrase hexpression fun argument => hlast trivial
  | arguments name args =>
    intro current next _
    refine wary_ite (fun _ => wary_accept ?_) fun _ => wary_accept trivial
    exact wary_phrase hexpression fun argument => hlast trivial
  | assignment target =>
    rintro (_ | t) next _
    · exact wary_mismatch _
    · refine wary_ite (fun _ => wary_advance ?_) fun _ => wary_mismatch _
      intro current next _
      exact wary_ite (fun _ => wary_phrase trivial fun _ => trivial)
        fun _ => wary_phrase hexpression fun _ => trivial
  | identifierLed =>
    -- the only plan that complains of what follows, and it has not moved when it does
    have hfollowing : ∀ t : Token,
        (complain .following : Plan Node).Wary true (some t).isSome := by
      intro t
      exact ⟨fun h => Complaint.noConfusion h, fun _ => ⟨rfl, rfl⟩⟩
    rintro (_ | t) (_ | following) _
    · exact wary_complain (by simp) (by simp)
    · exact wary_complain (by simp) (by simp)
    · exact hfollowing t
    · refine wary_ite (fun _ => wary_advance (hlast trivial)) fun _ => ?_
      refine wary_ite (fun _ => hlast hexpression) fun _ => ?_
      exact wary_ite (fun _ => hlast trivial) fun _ => hfollowing t
  | returning => exact wary_accept (wary_phrase hexpression fun node => wary_accept trivial)
  | conditional =>
    refine wary_accept (wary_accept (wary_phrase hexpression fun condition => ?_))
    refine wary_accept (wary_phrase trivial fun thenBlock => ?_)
    intro current next _
    refine wary_ite (fun _ => wary_accept ?_) fun _ => trivial
    exact wary_phrase trivial fun elseBlock => trivial
  | declaration =>
    rintro (_ | t) next _
    · exact wary_complain (by simp) (by simp)
    · refine wary_advance (wary_identifier fun name => wary_accept ?_)
      refine wary_allParameters fun parameters => wary_accept ?_
      exact wary_phrase trivial fun body => trivial
  | block => exact wary_accept (hlast trivial)
  | statements body =>
    intro current next _
    refine wary_ite (fun _ => wary_accept trivial) fun hend => ?_
    refine wary_ite (fun _ => wary_accept (hlast trivial)) fun _ => ?_
    refine wary_ite (fun _ => wary_phrase trivial fun node => hlast trivial) fun _ => ?_
    refine ⟨.inr ⟨rfl, ?_⟩, fun node => hlast trivial⟩
    rw [not_or] at hend
    simpa [Option.isSome_iff_ne_none] using hend.1
  | statement =>
    obtain rfl : seen = true := by
      rcases h with h | ⟨-, hs⟩
      · exact h.elim
      · exact hs
    rintro (_ | t) next hs
    · exact Bool.noConfusion (hs rfl)
    · refine wary_ite (fun _ => ?_) fun _ => ?_
      · refine wary_ite (fun _ => hlast trivial) fun _ => ?_
        exact wary_ite (fun _ => hlast trivial) fun _ => hlast trivial
      · refine wary_ite (fun _ => hlast trivial) fun _ => ?_
        exact ⟨fun _ => rfl, fun h => Complaint.noConfusion h⟩
  | sentence =>
    intro current next _
    refine wary_ite (fun _ => wary_accept (hlast trivial)) fun _ => ?_
    refine wary_ite (fun _ => trivial) fun hend => ⟨.inr ⟨rfl, ?_⟩, fun _ => trivial⟩
    rw [not_or] at hend
    simpa [Option.isSome_iff_ne_none] using hend.1

end Phrase

/-! ## How phrases stop -/

theorem Phrase.eq_of_isLed {p : Phrase} (h : p.isLed = true) : p = .identifierLed := by
  cases p <;> first | rfl | cases h

section

variable {α : Type} {w' : Window} {p : Phrase}

theorem Plan.not_enters_accept {text : String} {go : Plan α} (h : ∀ w, ¬ go.Enters w p w')
    (w : Window) : ¬ (accept text go).Enters w p w' := by
  intro henters
  cases henters with
  | look henters =>
    simp only at henters
    split at henters
    · cases henters with
      | advance _ henters => exact h _ henters
    · cases henters

theorem Plan.not_enters_identifier {go : Node → Plan α} (h : ∀ node w, ¬ (go node).Enters w p w')
    (w : Window) : ¬ (identifier go).Enters w p w' := by
  intro henters
  cases henters with
  | look henters =>
    cases hc : w.current with
    | none =>
      rw [hc] at henters
      cases henters
    | some t =>
      simp only [hc, Option.map_some] at henters
      split at henters
      · cases henters with
        | advance _ henters => exact h _ _ henters
      · cases henters

/-- No phrase is read to read parameters. -/
theorem Plan.not_enters_moreParameters (read : List Node) (w : Window) :
    ¬ (moreParameters read).Enters w p w' := by
  have hmore : ∀ (parameter : Node) (w : Window),
      ¬ (parameters (read ++ [parameter]) done).Enters w p w' := by
    intro parameter w henters
    cases henters with
    | parameters _ henters => cases henters
  intro henters
  cases henters with
  | look henters =>
    simp only at henters
    split at henters
    · exact not_enters_accept (not_enters_identifier hmore) w henters
    · cases henters

end

/-- A wary plan stops like this. -/
theorem Plan.Ends.stops {α : Type} {plan : Plan α} {w : Window} (he : plan.Ends w)
    {led seen : Bool} (hp : plan.Wary led seen) (hw : seen = true → w.current.isSome)
    {begun : Window → Prop} (hled : led = true → begun w)
    (hbegun : ∀ w₁, plan.Enters w .identifierLed w₁ → begun w₁) {fault : Fault} {w' : Window}
    (h : plan.run w = .fail fault w') : w.Stops begun fault w' := by
  -- the induction is on the reading, with all phrases that are read on the way
  induction he generalizing led seen w' with
  | done => cases h
  | @complain _ complaint w =>
    cases h
    cases complaint with
    | mismatch expected => exact .mismatch
    | statement =>
      obtain ⟨t, ht⟩ := Option.isSome_iff_exists.1 (hw (hp.1 rfl))
      exact .statement ht
    | following =>
      obtain ⟨hl, hs⟩ := hp.2 rfl
      obtain ⟨t, ht⟩ := Option.isSome_iff_exists.1 (hw hs)
      exact .following ht (hled hl)
    | text => exact .text
    | digits count => exact .digits
  | look _ ih =>
    exact ih (hp _ _ fun hs => by simpa using hw hs) (by simp) hled
      (fun w₁ hw₁ => hbegun w₁ (.look hw₁)) h
  | @advance _ go w hc _ ih =>
    rcases Outcome.andThen_eq_fail h with ha | ⟨_, w₁, ha, h⟩
    · exact .of_advance ha
    · have hstops := ih w₁ ha hp Bool.noConfusion Bool.noConfusion
        (fun w₂ hw₂ => hbegun w₂ (.advance ha hw₂)) h
      exact hstops.of_walks (.move ha)
  | @phrase _ p go w _ _ ihp ih =>
    rcases Outcome.andThen_eq_fail h with hr | ⟨node, w₁, hr, h⟩
    · rw [p.run_eq] at hr
      have hhere : p.isLed = true → begun w := by
        intro hl
        obtain rfl := Phrase.eq_of_isLed hl
        exact hbegun w .here
      exact ihp (Phrase.wary_plan hp.1) hw hhere (fun w₁ hw₁ => hbegun w₁ (.inside hw₁)) hr
    · obtain ⟨ts, hts⟩ := Phrase.exists_moves_of_run hr
      have hstops := ih node w₁ hr (hp.2 node) Bool.noConfusion Bool.noConfusion
        (fun w₂ hw₂ => hbegun w₂ (.behind hr hw₂)) h
      exact hstops.of_walks (.of_moves hts)
  | @parameters _ read go w hends _ ihp ih =>
    rcases Outcome.andThen_eq_fail h with hr | ⟨nodes, w₁, hr, h⟩
    · rw [← run_moreParameters] at hr
      have hwary : (moreParameters read).Wary false false := wary_moreParameters read
      exact ihp hwary Bool.noConfusion Bool.noConfusion
        (fun w₁ hw₁ => absurd hw₁ (not_enters_moreParameters read w)) hr
    · obtain ⟨ts, hts⟩ := hends.exists_moves ((run_moreParameters read w).trans hr)
      have hstops := ih nodes w₁ hr (hp nodes) Bool.noConfusion Bool.noConfusion
        (fun w₂ hw₂ => hbegun w₂ (.parameters hr hw₂)) h
      exact hstops.of_walks (.of_moves hts)

/-- A phrase that stands alone stops like this. -/
theorem Phrase.stops_of_run {p : Phrase} (hp : p.StandsAlone) {w w' : Window} {fault : Fault}
    (h : p.run w = .fail fault w') :
    w.Stops ((Plan.phrase p .done).Enters w .identifierLed) fault w' := by
  have hends : (Plan.phrase p .done).Ends w := .phrase (p.ends w) fun _ _ _ => .done
  have hwary : (Plan.phrase p .done).Wary false false := Plan.wary_phrase hp fun _ => trivial
  refine hends.stops hwary Bool.noConfusion Bool.noConfusion (fun _ hw => hw) ?_
  rw [Plan.run, h]
  rfl

/-! ## How programs stop -/

theorem Token.standsAlone_topLevel (t : Token) : t.topLevel.StandsAlone :=
  t.topLevel_cases trivial trivial trivial trivial

/-- Items stop like this as well. -/
theorem stops_of_readItems {items : List Node} {w w' : Window} {fault : Fault}
    (h : (readItems items w).outcome = .fail fault w') :
    w.Stops (w.Enters .identifierLed) fault w' := by
  obtain ⟨ts, w₁, t, hts, -, hr, henters⟩ := exists_item_of_fail h
  have hstops := Phrase.stops_of_run t.standsAlone_topLevel hr
  exact (hstops.mono (henters .identifierLed)).of_walks (.of_moves hts)

/-- A program that is read has only been moved through. -/
theorem Window.walks_of_program {w w₁ : Window} {program : Node}
    (h : w.program = .ok program w₁) : w.Walks w₁ := by
  have hagree : (moving w).Agree w.program w.program := Lockstep.run_program ⟨rfl, [], .none⟩
  rw [h] at hagree
  cases hagree with
  | level hl =>
    obtain ⟨-, ts, hts⟩ := hl
    exact .of_moves hts
  | apart ha =>
    obtain ⟨_, _, hf⟩ := ha
    cases hf

/-! ## How calls stop -/

/-- A call that asks for no outline and reads no phrase but one that stands alone. -/
def Call.IsReading : Call → Prop
  | .read p => p.StandsAlone
  | .outline => False
  | .repeated _ operand => operand.IsReading
  | _ => True

namespace Session

/-- A phrase is read from a window in the course of a call. -/
def comesTo (p : Phrase) (w : Window) (c : Call) (session : Session) : Prop :=
  match c with
  | .read q => (Plan.phrase q .done).Enters session.window p w
  | .parse => session.window.Enters p w
  | .program => session.window.Enters p w
  | .repeated operators operand =>
    ∃ turn ∈ turns operators (reply operand) session, comesTo p w operand turn
  | _ => False

/-- The reply of a session that has only been moved: if the call has failed, it has stopped. -/
def Settles (led : Window → Prop) (session : Session) (reply : Except Fault Answer × Session) :
    Prop :=
  match reply.1 with
  | .ok _ => session.window.Walks reply.2.window
  | .error fault => session.window.Stops led fault reply.2.window

namespace Settles

variable {led led' : Window → Prop} {session after : Session}
  {reply : Except Fault Answer × Session}

theorem of_outcome {α : Type} {outcome : Outcome α}
    (hok : ∀ a w, outcome = .ok a w → session.window.Walks w)
    (hfail : ∀ fault w, outcome = .fail fault w → session.window.Stops led fault w)
    (answer : α → Answer) (remembered : Option Node) :
    Settles led session (outcome.result.map answer, ⟨outcome.after, remembered⟩) := by
  cases outcome with
  | ok a w => exact hok a w rfl
  | fail fault w => exact hfail fault w rfl

theorem of_walks (hw : session.window.Walks after.window) (h : Settles led after reply) :
    Settles led session reply := by
  obtain ⟨_ | answer, last⟩ := reply
  · exact Window.Stops.of_walks hw h
  · exact hw.trans h

theorem mono (h : Settles led session reply) (hl : ∀ w, led w → led' w) :
    Settles led' session reply := by
  obtain ⟨_ | answer, last⟩ := reply
  · exact Window.Stops.mono h hl
  · exact h

end Settles

section

variable {operators : List String} {operand : (session : Session) → Reply session}
  {found : Session → Window → Prop} {led : Window → Prop}

/-- A repetition stops like its operand, or between two turns. -/
theorem settles_repeatWhile
    (hoperand : ∀ session : Session, Settles (found session) session (operand session).val)
    (left : Answer) (session : Session)
    (hled : ∀ turn ∈ turnsWhile operators operand session, ∀ w, found turn w → led w) :
    Settles led session (repeatWhile operators operand left session).val := by
  fun_induction repeatWhile operators operand left session with
  | case1 left session hc => exact Window.Walks.none
  | case2 left session token hc ho hw fault w ha => exact Window.Stops.of_advance ha
  | case3 left session token hc ho hw _ w ha hlt fault after h hturn =>
    have hturns := hoperand ⟨w, session.remembered⟩
    rw [hturn] at hturns
    rw [turnsWhile_eq, hc] at hled
    simp only [ho, ↓reduceIte, ha, hturn] at hled
    exact (hturns.mono (hled _ List.mem_cons_self)).of_walks (.move ha)
  | case4 left session token hc ho hw _ w ha hlt right after h hturn _ reply ih =>
    have hturns := hoperand ⟨w, session.remembered⟩
    rw [hturn] at hturns
    rw [turnsWhile_eq, hc] at hled
    simp only [ho, ↓reduceIte, ha, hturn] at hled
    have hlater := ih fun turn hmem => hled turn (List.mem_cons_of_mem _ hmem)
    have hwalks : session.window.Walks after.window := (Window.Walks.move ha).trans hturns
    exact hlater.of_walks hwalks
  | case5 left session token hc ho => exact Window.Walks.none

end

/-- Every call that reads moves the session, and stops where it fails. -/
theorem settles_call {c : Call} (hc : c.IsReading) (session : Session) :
    Settles (fun w => comesTo .identifierLed w c session) session (session.call c) := by
  induction c generalizing session with
  | advance =>
    refine .of_outcome (fun _ w ha => ?_) (fun fault w ha => ?_) _ _
    · exact .move ha
    · exact .of_advance ha
  | reads text => exact Window.Walks.none
  | accept text =>
    refine .of_outcome (fun _ w ha => ?_) (fun fault w ha => .of_accept ha) _ _
    unfold Window.accept at ha
    split at ha
    · exact .move ha
    · cases ha
  | read p =>
    refine .of_outcome (fun node w hr => ?_) (fun fault w hr => ?_) _ _
    · obtain ⟨ts, hts⟩ := Phrase.exists_moves_of_run hr
      exact .of_moves hts
    · exact Phrase.stops_of_run hc hr
  | parse =>
    refine .of_outcome (fun program w hp => Window.walks_of_program hp) (fun fault w hp => ?_) _ _
    rw [Window.program_eq] at hp
    exact stops_of_readItems hp
  | program =>
    refine .of_outcome (fun program w hp => Window.walks_of_program hp) (fun fault w hp => ?_) _ _
    rw [Window.program_eq] at hp
    exact stops_of_readItems hp
  | outline => exact hc.elim
  | repeated operators operand ih =>
    have hfirst := ih hc session
    simp only [call] at hfirst
    simp only [call, reply]
    rcases hr : reply operand session with ⟨⟨fault | left, after⟩, h⟩
    · rw [hr] at hfirst
      exact hfirst.mono fun w hw => ⟨session, List.mem_cons_self, hw⟩
    · rw [hr] at hfirst
      have hwalks : session.window.Walks after.window := hfirst
      refine (settles_repeatWhile (fun session => ih hc session) left after ?_).of_walks hwalks
      intro turn hturn w hw
      refine ⟨turn, ?_, hw⟩
      rw [turns, hr]
      exact List.mem_cons_of_mem _ hturn

/-- A fault tells where a call has stopped.  Whatever is asked of whatever session, the token of a
mismatch is the current one, and what was found is its text, or `null` if there is none; no
statement begins with the current token, which is there; and if no statement goes on with the next
token, one has begun at the current one and has not moved.  A fault of the stream leaves in view
what the failing move found there. -/
theorem stops_of_call {session after : Session} {c : Call} {fault : Fault} (hc : c.IsReading)
    (h : session.call c = (.error fault, after)) :
    (∀ expected found token, fault = .syntactic (.mismatch expected found token) →
      token = after.window.current ∧ (∀ t, after.window.current = some t → found = t.text) ∧
        (after.window.current = none → found = "null") ∧
        fault.message = "Incorrect syntax: expected " ++ expected ++ ", found: " ++ found) ∧
    (∀ token, fault = .syntactic (.expectedStatement token) →
      token = after.window.current ∧ token.isSome) ∧
    (∀ token, fault = .syntactic (.afterIdentifier token) →
      token = after.window.next ∧ after.window.current.isSome ∧
        comesTo .identifierLed after.window c session) ∧
    ∀ e, fault = .lexical e → ∃ w, session.window.Walks w ∧
      w.advance = .fail (.lexical e) after.window ∧
        after.window.current = w.current ∧ after.window.next = w.next := by
  have hstops : session.window.Stops (fun w => comesTo .identifierLed w c session) fault
      after.window := by
    have hsettles := settles_call hc session
    rwa [h] at hsettles
  refine ⟨?_, ?_, ?_, ?_⟩
  · intro expected found token hfault
    generalize after.window = w' at hstops ⊢
    cases hstops with
    | mismatch =>
      cases hfault
      refine ⟨rfl, fun t ht => ?_, fun hnone => ?_, rfl⟩
      · rw [ht]
        rfl
      · rw [hnone]
        rfl
    | _ => cases hfault
  · rintro token rfl
    cases hstops with
    | statement ht => exact ⟨rfl, Option.isSome_of_eq_some ht⟩
  · rintro token rfl
    cases hstops with
    | following ht hl => exact ⟨rfl, Option.isSome_of_eq_some ht, hl⟩
  · rintro e rfl
    cases hstops with
    | @lexical w _ _ hw ha =>
      have hview := ha
      unfold Window.advance at hview
      split at hview
      · cases hview
      · injection hview with _ hafter
        refine ⟨w, hw, ha, ?_, ?_⟩
        · rw [← hafter]
        · rw [← hafter]

/-- An expression stops at a semicolon, a sentence at a brace behind semicolons, the second of two
blocks at its name, and a program in front of a character that no token begins with. -/
theorem stops_of_call_of_blocks :
    let semicolon : Token := ⟨.special, ";", ⟨1, 8⟩⟩
    let brace : Token := ⟨.special, "\x7d", ⟨1, 5⟩⟩
    let name : Session := ⟨.facing [⟨.identifier, "x", ⟨1, 8⟩⟩, ⟨.special, "\x7d", ⟨1, 10⟩⟩], none⟩
    let expression : Session := ⟨.facing (tokenize "1 + (a ;").tokens, none⟩
    let sentence : Session := ⟨.facing (tokenize "; ; \x7d").tokens, none⟩
    let blocks : Session := ⟨.facing (tokenize "\x7b\x7d + \x7b x \x7d").tokens, none⟩
    let program : Session := ⟨.front (tokenize "f(a !").tokens (tokenize "f(a !").fault, none⟩
    (∃ after found, expression.call (.read .expression) =
        (.error (.syntactic (.mismatch ")" found (some semicolon))), after) ∧
      some semicolon = after.window.current ∧ found = ";") ∧
    (∃ after, sentence.call (.read .sentence) =
        (.error (.syntactic (.expectedStatement (some brace))), after) ∧
      some brace = after.window.current) ∧
    (blocks.call (.repeated ["+"] (.read .block)) =
        (.error (.syntactic (.afterIdentifier name.window.next)), name) ∧
      comesTo .identifierLed name.window (.repeated ["+"] (.read .block)) blocks) ∧
    ∃ w, program.window.Walks w ∧ w.current = some ⟨.special, "(", ⟨1, 2⟩⟩ ∧
      w.next = some ⟨.identifier, "a", ⟨1, 3⟩⟩ := by
  intro semicolon brace name expression sentence blocks program
  have hexpression : expression.call (.read .expression) =
      (.error (.syntactic (.mismatch ")" ";" (some semicolon))),
        ⟨.facing [semicolon], none⟩) := by
    decide +kernel
  have hsentence : sentence.call (.read .sentence) =
      (.error (.syntactic (.expectedStatement (some brace))), ⟨.facing [brace], none⟩) := by
    decide +kernel
  have hblocks : blocks.call (.repeated ["+"] (.read .block)) =
      (.error (.syntactic (.afterIdentifier name.window.next)), name) := by
    decide +kernel
  have hprogram : program.call .program =
      (.error (.lexical ⟨.unknownCharacter "!", ⟨1, 5⟩⟩),
        ⟨⟨some ⟨.special, "(", ⟨1, 2⟩⟩, some ⟨.identifier, "a", ⟨1, 3⟩⟩, .ended⟩, none⟩) := by
    decide +kernel
  have hreading : ∀ c ∈ [.read .expression, .read .sentence, .repeated ["+"] (.read .block),
      .program], Call.IsReading c := by
    simp [Call.IsReading, Phrase.StandsAlone, Phrase.expression, Phrase.comparison, Phrase.sum,
      Phrase.product]
  obtain ⟨hcurrent, hfound, -⟩ := (stops_of_call (hreading _ (by simp)) hexpression).1 _ _ _ rfl
  obtain ⟨hbrace, -⟩ := (stops_of_call (hreading _ (by simp)) hsentence).2.1 _ rfl
  obtain ⟨-, -, hled⟩ := (stops_of_call (hreading _ (by simp)) hblocks).2.2.1 _ rfl
  obtain ⟨w, hw, -, hc, hn⟩ := (stops_of_call (hreading _ (by simp)) hprogram).2.2.2 _ rfl
  exact ⟨⟨_, _, hexpression, hcurrent, hfound _ rfl⟩, ⟨_, hsentence, hbrace⟩, ⟨hblocks, hled⟩,
    w, hw, hc.symm, hn.symm⟩

end Session

end MiniLang
