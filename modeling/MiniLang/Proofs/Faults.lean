import MiniLang.Proofs.FailsAfter
import MiniLang.Proofs.FaultPlace
import MiniLang.Proofs.Overflow
import MiniLang.Proofs.Progress
import MiniLang.Proofs.Viable
/-!
# The faults of parsing

Parsing fails in three ways of its own, with the fault of the stream, and with a token that writes a
number of too many digits (`fault_of_parse`).  Nothing else can go wrong.  A phrase that takes the
text of its first token is entered only where there is a token (`Window.Enters.isSome`): whatever
enters it has looked at the token before, which `Plan.Sighted` says.  Where a program ends, the
input has ended.  What is taken for a number is one, if not one that can be converted, and no index
into the text of a literal is out of range.
-/

set_option autoImplicit false

namespace MiniLang

/-! ## What plans have seen -/

/-- Whether a phrase takes the text of the token in front of it without a look at whether there is
one. -/
def Phrase.needsToken : Phrase → Bool
  | .identifierLed => true
  | .declaration => true
  | _ => false

/-- A complaint is of no missing text, and if it is of too many digits, they are those of one of
some tokens. -/
def Complaint.Sighted (shown : Token → Prop) : Complaint → Prop
  | .text => False
  | .digits count => ∃ t, shown t ∧ t.operand = .error count
  | _ => True

namespace Plan

variable {α : Type} {shown : Token → Prop}

/-- A plan never complains of a missing text, and of too many digits only where a look has shown the
token that has them; it reads phrases that need a token only behind a look that has shown one.
`shown` holds of the tokens that looks may show, and `seen` says that there is one in front of the
plan.  It reads no chains but those of operands. -/
def Sighted (shown : Token → Prop) : Plan α → (seen : Bool) → Prop
  | .done _, _ => True
  | .complain complaint, _ => complaint.Sighted shown
  | .look go, seen => ∀ current next, (seen = true → current.isSome) →
    (∀ t ∈ current, shown t) → (go current next).Sighted shown current.isSome
  | .advance go, _ => go.Sighted shown false
  | .phrase p go, seen =>
    p.Regular ∧ (p.needsToken = true → seen = true) ∧ ∀ node, (go node).Sighted shown false
  | .parameters _ go, _ => ∀ nodes, (go nodes).Sighted shown false

theorem Sighted.mono {plan : Plan α} {seen : Bool} (h : plan.Sighted shown false) :
    plan.Sighted shown seen := by
  cases plan with
  | done value => trivial
  | complain complaint => exact h
  | look go => exact fun current next _ => h current next Bool.noConfusion
  | advance go => exact h
  | phrase p go => exact ⟨h.1, fun hp => Bool.noConfusion (h.2.1 hp), h.2.2⟩
  | parameters read go => exact h

theorem sighted_advance {go : Plan α} {seen : Bool} (h : go.Sighted shown false) :
    (Plan.advance go).Sighted shown seen := h

/-- A phrase that needs no token may be read anywhere. -/
theorem sighted_phrase {p : Phrase} {go : Node → Plan α} {seen : Bool} (hp : p.Regular)
    (hn : p.needsToken = false) (h : ∀ node, (go node).Sighted shown false) :
    (Plan.phrase p go).Sighted shown seen :=
  ⟨hp, fun ht => by rw [hn] at ht; exact Bool.noConfusion ht, h⟩

theorem sighted_accept {text : String} {go : Plan α} {seen : Bool} (h : go.Sighted shown false) :
    (accept text go).Sighted shown seen := by
  intro current next _ _
  simp only
  split
  · exact h
  · trivial

theorem sighted_identifier {go : Node → Plan α} {seen : Bool}
    (h : ∀ node, (go node).Sighted shown false) : (identifier go).Sighted shown seen := by
  intro current next _ _
  cases current with
  | none => trivial
  | some t =>
    simp only
    split
    · exact h _
    · trivial

theorem sighted_ite {c : Prop} [Decidable c] {p q : Plan α} {seen : Bool}
    (hp : c → p.Sighted shown seen) (hq : ¬ c → q.Sighted shown seen) :
    (if c then p else q).Sighted shown seen := by
  split
  · exact hp ‹_›
  · exact hq ‹_›

theorem sighted_allParameters {go : List Node → Plan α} {seen : Bool}
    (h : ∀ nodes, (go nodes).Sighted shown false) : (allParameters go).Sighted shown seen := by
  intro current next _ _
  exact sighted_ite (fun _ => (h []).mono) fun _ => sighted_identifier fun node => h

theorem sighted_moreParameters (read : List Node) (seen : Bool) :
    (moreParameters read).Sighted shown seen := by
  intro current next _ _
  exact sighted_ite (fun _ => sighted_accept (sighted_identifier fun _ _ => trivial))
    fun _ => trivial

end Plan

namespace Phrase

open Plan

theorem IsOperand.needsToken_eq {p : Phrase} (hp : p.IsOperand) : p.needsToken = false := by
  cases p <;> first | rfl | exact hp.elim

/-- The plan of a phrase that needs a token is sighted in front of one, any other plan wherever it
stands. -/
theorem sighted_plan {shown : Token → Prop} {phrase : Phrase} (hp : phrase.Regular) :
    phrase.plan.Sighted shown phrase.needsToken := by
  have hexpression : expression.Regular := isOperand_expression.regular
  -- a phrase that is read last
  have hlast : ∀ {p : Phrase} {seen : Bool}, p.Regular → p.needsToken = false →
      (Plan.phrase p .done).Sighted shown seen := fun hp hn => sighted_phrase hp hn fun _ => trivial
  cases phrase with
  | identifier => exact sighted_identifier fun _ => trivial
  | primary =>
    rintro (_ | t) next _ ht
    · trivial
    · refine sighted_ite (fun _ => sighted_phrase hexpression rfl ?_) (fun _ => ?_)
      · exact fun node => sighted_accept trivial
      · cases ho : t.operand with
        | ok node => trivial
        | error digits => exact ⟨t, ht t rfl, ho⟩
  | chain operators operand =>
    have hoperand : operand.IsOperand := hp.2
    exact sighted_phrase hoperand.regular hoperand.needsToken_eq fun left => hlast hp rfl
  | chained operators operand left =>
    have hoperand : operand.IsOperand := hp.2
    rintro (_ | t) next _ _
    · trivial
    · refine sighted_ite (fun _ => ?_) (fun _ => trivial)
      exact sighted_phrase hoperand.regular hoperand.needsToken_eq fun right => hlast hp rfl
  | call =>
    rw [plan]
    refine sighted_identifier fun name => sighted_accept ?_
    intro current next _ _
    refine sighted_ite (fun _ => sighted_accept trivial) (fun _ => ?_)
    exact sighted_phrase hexpression rfl fun argument => hlast trivial rfl
  | arguments name args =>
    intro current next _ _
    refine sighted_ite (fun _ => sighted_accept ?_) (fun _ => sighted_accept trivial)
    exact sighted_phrase hexpression rfl fun argument => hlast trivial rfl
  | assignment target =>
    rintro (_ | t) next _ _
    · trivial
    · refine sighted_ite (fun _ current next _ _ => ?_) (fun _ => trivial)
      exact sighted_ite (fun _ => sighted_phrase trivial rfl fun _ => trivial)
        (fun _ => sighted_phrase hexpression rfl fun _ => trivial)
  | identifierLed =>
    rintro (_ | t) (_ | following) hs _
    · exact Bool.noConfusion (hs rfl)
    · exact Bool.noConfusion (hs rfl)
    · trivial
    · refine sighted_ite (fun _ => hlast trivial rfl) (fun _ => ?_)
      refine sighted_ite (fun _ => hlast hexpression rfl) (fun _ => ?_)
      exact sighted_ite (fun _ => hlast trivial rfl) (fun _ => trivial)
  | returning =>
    exact sighted_accept (sighted_phrase hexpression rfl fun node => sighted_accept trivial)
  | conditional =>
    refine sighted_accept (sighted_accept (sighted_phrase hexpression rfl fun condition => ?_))
    refine sighted_accept (sighted_phrase trivial rfl fun thenBlock => ?_)
    intro current next _ _
    refine sighted_ite (fun _ => sighted_accept ?_) (fun _ => trivial)
    exact sighted_phrase trivial rfl fun elseBlock => trivial
  | declaration =>
    rintro (_ | t) next hs _
    · exact Bool.noConfusion (hs rfl)
    · refine sighted_advance (sighted_identifier fun name => sighted_accept ?_)
      refine sighted_allParameters fun parameters => sighted_accept ?_
      exact sighted_phrase trivial rfl fun body => trivial
  | block => exact sighted_accept (hlast trivial rfl)
  | statements body =>
    intro current next _ _
    refine sighted_ite (fun _ => sighted_accept trivial) (fun _ => ?_)
    refine sighted_ite (fun _ => sighted_accept (hlast trivial rfl)) (fun _ => ?_)
    exact sighted_ite (fun _ => sighted_phrase trivial rfl fun node => hlast trivial rfl)
      (fun _ => sighted_phrase trivial rfl fun node => hlast trivial rfl)
  | statement =>
    -- the only phrase that enters those that need a token, behind a look at it
    rintro (_ | t) next _ _
    · trivial
    · refine sighted_ite (fun _ => ?_) (fun _ => ?_)
      · refine sighted_ite (fun _ => hlast trivial rfl) (fun _ => ?_)
        exact sighted_ite (fun _ => hlast trivial rfl)
          (fun _ => ⟨trivial, fun _ => rfl, fun _ => trivial⟩)
      · exact sighted_ite (fun _ => ⟨trivial, fun _ => rfl, fun _ => trivial⟩)
          (fun _ => trivial)
  | sentence =>
    intro current next _ _
    refine sighted_ite (fun _ => sighted_accept (hlast trivial rfl)) (fun _ => ?_)
    exact sighted_ite (fun _ => trivial) (fun _ => hlast trivial rfl)

end Phrase

/-! ## Phrases that are entered -/

/-- A plan that is carried out from a window comes to read a phrase, in its own place or within
another one: the phrase, and the window that it is read from. -/
inductive Plan.Enters : {α : Type} → Plan α → Window → Phrase → Window → Prop where
  | look {α : Type} {go : Option Token → Option Token → Plan α} {w w' : Window} {p : Phrase}
      (h : Enters (go (w.current.map Token.unplaced) (w.next.map Token.unplaced)) w p w') :
      Enters (.look go) w p w'
  | advance {α : Type} {go : Plan α} {w w₁ w' : Window} {p : Phrase}
      (ha : w.advance = .ok () w₁) (h : Enters go w₁ p w') : Enters (.advance go) w p w'
  | here {α : Type} {go : Node → Plan α} {w : Window} {p : Phrase} : Enters (.phrase p go) w p w
  | inside {α : Type} {go : Node → Plan α} {w w' : Window} {p q : Phrase}
      (h : Enters q.plan w p w') : Enters (.phrase q go) w p w'
  | behind {α : Type} {go : Node → Plan α} {w w₁ w' : Window} {p q : Phrase} {node : Node}
      (hr : q.run w = .ok node w₁) (h : Enters (go node) w₁ p w') : Enters (.phrase q go) w p w'
  | parameters {α : Type} {read nodes : List Node} {go : List Node → Plan α} {w w₁ w' : Window}
      {p : Phrase} (hr : runMoreParameters read w = .ok nodes w₁) (h : Enters (go nodes) w₁ p w') :
      Enters (.parameters read go) w p w'

/-- A program that is read from a window comes to read a phrase. -/
inductive Window.Enters : Window → Phrase → Window → Prop where
  | item {w w' : Window} {t : Token} {p : Phrase} (hc : w.current = some t)
      (h : (Plan.phrase t.topLevel .done).Enters w p w') : Enters w p w'
  | behind {w w₁ w' : Window} {t : Token} {p : Phrase} {node : Node} (hc : w.current = some t)
      (hr : t.topLevel.run w = .ok node w₁) (h : Enters w₁ p w') : Enters w p w'

/-- A sighted plan enters a phrase that needs a token only in front of one. -/
theorem Plan.Enters.isSome {α : Type} {plan : Plan α} {w w' : Window} {p : Phrase}
    (h : plan.Enters w p w') {seen : Bool} (hs : plan.Sighted (fun _ => True) seen)
    (hw : seen = true → w.current.isSome) (hp : p.needsToken = true) : w'.current.isSome := by
  induction h generalizing seen with
  | look _ ih =>
    exact ih (hs _ _ (fun hseen => by simpa using hw hseen) fun _ _ => trivial) (by simp) hp
  | advance _ _ ih => exact ih hs Bool.noConfusion hp
  | here => exact hw (hs.2.1 hp)
  | inside _ ih => exact ih (Phrase.sighted_plan hs.1) (fun hq => hw (hs.2.1 hq)) hp
  | behind _ _ ih => exact ih (hs.2.2 _) Bool.noConfusion hp
  | parameters _ _ ih => exact ih (hs _) Bool.noConfusion hp

/-- So does a program. -/
theorem Window.Enters.isSome {w w' : Window} {p : Phrase} (h : w.Enters p w')
    (hp : p.needsToken = true) : w'.current.isSome := by
  induction h with
  | @item w _ t _ hc h =>
    have hs : (Plan.phrase t.topLevel .done).Sighted (fun _ => True) true :=
      ⟨t.regular_topLevel, fun _ => rfl, fun _ => trivial⟩
    exact h.isSome hs (fun _ => by simp [hc]) hp
  | behind _ _ _ ih => exact ih hp

/-! ## Faults of phrases -/

/-- The ways in which parsing fails of its own: something else is called for, no statement begins,
or none goes on behind its identifier. -/
def Fault.IsComplaint (fault : Fault) : Prop :=
  (∃ expected token, fault = .syntactic (.mismatched expected token)) ∨
    (∃ token, fault = .syntactic (.expectedStatement token)) ∨
      ∃ token, fault = .syntactic (.afterIdentifier token)

/-- What may come of reading from a window, where looks may show some tokens only: a complaint, the
fault of the stream behind the window, or that of a token with too many digits. -/
def Window.MayFail (shown : Token → Prop) (w : Window) (fault : Fault) : Prop :=
  fault.IsComplaint ∨ (∃ e, w.rest.fault = some e ∧ fault = .lexical e) ∨
    ∃ t, shown t ∧ fault.IsOverflowOf t

theorem Complaint.mayFail {shown : Token → Prop} {complaint : Complaint}
    (h : complaint.Sighted shown) (w : Window) : w.MayFail shown (complaint.fault w) := by
  cases complaint with
  | mismatch expected => exact .inl (.inl ⟨expected, w.current, rfl⟩)
  | statement => exact .inl (.inr (.inl ⟨w.current, rfl⟩))
  | following => exact .inl (.inr (.inr ⟨w.next, rfl⟩))
  | text => exact h.elim
  | digits count =>
    obtain ⟨t, ht, ho⟩ := h
    exact .inr (.inr ⟨t, ht, Token.isOverflow_of_operand ho⟩)

/-- A token is in view of a window, or ahead of it. -/
def Window.Holds (w : Window) (t : Token) : Prop :=
  some t ∈ w.current :: w.next :: w.rest.tokens

theorem Stream.fault_of_pull {stream stream' : Stream} {token : Option Token}
    (h : stream.pull = .ok (token, stream')) : stream'.fault = stream.fault := by
  obtain ⟨tokens, fault⟩ := stream
  match tokens, fault with
  | _ :: _, _ => cases h; rfl
  | [], none => cases h; rfl
  | [], some _ => cases h

theorem Stream.fault_of_pull_error {stream : Stream} {e : LexicalFault}
    (h : stream.pull = .error e) : stream.fault = some e := by
  obtain ⟨tokens, fault⟩ := stream
  match tokens, fault with
  | _ :: _, _ => cases h
  | [], none => cases h
  | [], some _ => cases h; rfl

theorem Window.fault_of_advance {w w₁ : Window} {u : Unit} (h : w.advance = .ok u w₁) :
    w₁.rest.fault = w.rest.fault := by
  unfold advance at h
  split at h
  · rename_i hp
    cases h
    exact Stream.fault_of_pull hp
  · cases h

theorem Window.Holds.of_advance {w w₁ : Window} {u : Unit} {t : Token} (h : w₁.Holds t)
    (ha : w.advance = .ok u w₁) : w.Holds t := by
  obtain ⟨current, next, tokens, fault⟩ := w
  match tokens, fault with
  | _ :: _, _ =>
    cases ha
    exact List.mem_cons_of_mem _ h
  | [], none =>
    cases ha
    have hnext : some t = next := by simpa [Window.Holds, Stream.ended] using h
    simp [Window.Holds, hnext]
  | [], some _ => cases ha

theorem Window.mayFail_advance {shown : Token → Prop} {w w₁ : Window} {fault : Fault}
    (h : w.advance = .fail fault w₁) : w.MayFail shown fault := by
  unfold advance at h
  split at h
  · cases h
  · rename_i hp
    cases h
    exact .inr (.inl ⟨_, Stream.fault_of_pull_error hp, rfl⟩)

namespace Window.Moves

variable {w w₁ : Window} {ts : List Token}

theorem fault_eq (h : w.Moves ts w₁) : w₁.rest.fault = w.rest.fault := by
  induction h with
  | none => rfl
  | cons _ ha _ ih => exact ih.trans (fault_of_advance ha)

/-- What is still ahead has been ahead before. -/
theorem holds (h : w.Moves ts w₁) {t : Token} (ht : w₁.Holds t) : w.Holds t := by
  induction h with
  | none => exact ht
  | cons _ ha _ ih => exact (ih ht).of_advance ha

/-- What may come of reading on may come of the whole. -/
theorem mayFail (h : w.Moves ts w₁) {shown : Token → Prop} {fault : Fault}
    (hf : w₁.MayFail shown fault) : w.MayFail shown fault := by
  rw [MayFail, ← h.fault_eq]
  exact hf

end Window.Moves

/-- A sighted plan ends in no other way.  Looks show what is ahead, without its place. -/
theorem Plan.Ends.mayFail {α : Type} {plan : Plan α} {w : Window} (he : plan.Ends w)
    {shown : Token → Prop} (hahead : ∀ t, w.Holds t → shown t.unplaced) {seen : Bool}
    (hs : plan.Sighted shown seen) (hw : seen = true → w.current.isSome) {fault : Fault}
    {w' : Window} (h : plan.run w = .fail fault w') : w.MayFail shown fault := by
  induction he generalizing seen w' with
  | done => cases h
  | @complain _ complaint w =>
    cases h
    exact Complaint.mayFail hs w
  | @look _ go w _ ih =>
    have hcurrent : ∀ t ∈ w.current.map Token.unplaced, shown t := by
      intro t ht
      obtain ⟨u, hu, rfl⟩ := Option.map_eq_some_iff.1 ht
      exact hahead u (List.mem_cons.2 (.inl hu.symm))
    exact ih hahead (hs _ _ (fun hseen => by simpa using hw hseen) hcurrent) (by simp) h
  | @advance _ go w hc _ ih =>
    rcases Outcome.andThen_eq_fail h with ha | ⟨_, w₁, ha, h⟩
    · exact Window.mayFail_advance ha
    · obtain ⟨t, ht⟩ := Option.isSome_iff_exists.1 hc
      have hmoves : w.Moves [t] w₁ := .one ht ha
      exact hmoves.mayFail (ih w₁ ha (fun u hu => hahead u (hmoves.holds hu)) hs Bool.noConfusion h)
  | @phrase _ p go w _ _ ihp ih =>
    rcases Outcome.andThen_eq_fail h with hr | ⟨node, w₁, hr, h⟩
    · rw [p.run_eq] at hr
      exact ihp hahead (Phrase.sighted_plan hs.1) (fun hp => hw (hs.2.1 hp)) hr
    · obtain ⟨ts, hts⟩ := Phrase.exists_moves_of_run hr
      have hbehind : ∀ u, w₁.Holds u → shown u.unplaced := fun u hu => hahead u (hts.holds hu)
      exact hts.mayFail (ih node w₁ hr hbehind (hs.2.2 node) Bool.noConfusion h)
  | @parameters _ read go w hends _ ihp ih =>
    rcases Outcome.andThen_eq_fail h with hr | ⟨nodes, w₁, hr, h⟩
    · rw [← run_moreParameters] at hr
      exact ihp hahead (sighted_moreParameters read false) Bool.noConfusion hr
    · obtain ⟨ts, hts⟩ := hends.exists_moves ((run_moreParameters read w).trans hr)
      have hbehind : ∀ u, w₁.Holds u → shown u.unplaced := fun u hu => hahead u (hts.holds hu)
      exact hts.mayFail (ih nodes w₁ hr hbehind (hs nodes) Bool.noConfusion h)

/-! ## Faults of programs -/

/-- Items fail with one of them, which is read where those before it have moved the window to. -/
theorem exists_item_of_fail {items : List Node} {w w' : Window} {fault : Fault}
    (h : (readItems items w).outcome = .fail fault w') :
    ∃ ts w₁ t, w.Moves ts w₁ ∧ w₁.current = some t ∧ t.topLevel.run w₁ = .fail fault w' ∧
      ∀ p w₂, (Plan.phrase t.topLevel .done).Enters w₁ p w₂ → w.Enters p w₂ := by
  induction hn : w.left using Nat.strongRecOn generalizing items w with
  | ind n ih =>
    rw [outcome_readItems] at h
    split at h
    · cases h
    · rename_i t hc
      rcases Outcome.andThen_eq_fail h with hr | ⟨node, w₁, hr, h⟩
      · exact ⟨[], w, t, .none, hc, hr, fun _ _ he => .item hc he⟩
      · have hw := (Token.within_run_topLevel hc).left_le hr
        obtain ⟨ts, hts⟩ := Phrase.exists_moves_of_run hr
        obtain ⟨items', h⟩ : ∃ items', (readItems items' w₁).outcome = .fail fault w' := by
          split at h
          · exact ⟨_, h⟩
          · exact ⟨_, h⟩
        obtain ⟨us, w₂, u, hus, hu, hfail, henters⟩ := ih w₁.left (by omega) h rfl
        exact ⟨ts ++ us, w₂, u, hts.append hus, hu, hfail,
          fun p w₃ he => .behind hc hr (henters p w₃ he)⟩

/-- Items fail with a complaint, with the fault of the stream, or with that of a token that is still
to be read. -/
theorem fault_of_readItems {items : List Node} {w w' : Window} {fault : Fault}
    (h : (readItems items w).outcome = .fail fault w') :
    fault.IsComplaint ∨ (∃ e, w.rest.fault = some e ∧ fault = .lexical e) ∨
      ∃ t, w.Holds t ∧ fault.IsOverflowOf t := by
  obtain ⟨ts, w₁, t, hts, hc, hr, -⟩ := exists_item_of_fail h
  rw [t.topLevel.run_eq] at hr
  have hfail : w₁.MayFail (fun u => ∃ v, w.Holds v ∧ v.unplaced = u) fault :=
    (t.topLevel.ends w₁).mayFail (fun u hu => ⟨u, hts.holds hu, rfl⟩)
      (Phrase.sighted_plan t.regular_topLevel) (fun _ => by simp [hc]) hr
  refine (hts.mayFail hfail).imp_right (Or.imp_right ?_)
  rintro ⟨_, ⟨v, hv, rfl⟩, hoverflow⟩
  exact ⟨v, hv, hoverflow⟩

/-- The window at the front of a stream has the fault of the stream behind it. -/
theorem Window.fault_of_start {stream : Stream} {w : Window} (h : start stream = .ok w) :
    w.rest.fault = stream.fault := by
  unfold start at h
  split at h
  · cases h
  · rename_i h₁
    split at h
    · cases h
    · rename_i h₂
      cases h
      exact (Stream.fault_of_pull h₂).trans (Stream.fault_of_pull h₁)

theorem Window.fault_of_start_error {stream : Stream} {e : LexicalFault}
    (h : start stream = .error e) : stream.fault = some e := by
  unfold start at h
  split at h
  · rename_i h₁
    cases h
    exact Stream.fault_of_pull_error h₁
  · rename_i h₁
    split at h
    · rename_i h₂
      cases h
      rw [← Stream.fault_of_pull h₁]
      exact Stream.fault_of_pull_error h₂
    · cases h

theorem Window.mem_of_start {stream : Stream} {w : Window} (h : start stream = .ok w) {t : Token}
    (ht : w.Holds t) : some t ∈ stream.tokens := by
  obtain ⟨tokens, fault⟩ := stream
  match tokens, fault with
  | [], none =>
    cases h
    simp [Holds, Stream.ended] at ht
  | [], some _ => cases h
  | [_], none =>
    cases h
    simpa [Holds, Stream.ended] using ht
  | [_], some _ => cases h
  | _ :: _ :: _, _ =>
    cases h
    exact ht

/-- A stream is parsed, or there is a complaint, or the fault of the stream comes out, or that of a
token with too many digits. -/
theorem fault_of_parse {stream : Stream} {fault : Fault} (h : parse stream = .error fault) :
    fault.IsComplaint ∨ (∃ e, stream.fault = some e ∧ fault = .lexical e) ∨
      ∃ t, some t ∈ stream.tokens ∧ fault.IsOverflowOf t := by
  unfold parse at h
  split at h
  · rename_i e hs
    cases h
    exact .inr (.inl ⟨e, Window.fault_of_start_error hs, rfl⟩)
  · rename_i w hs
    cases hp : w.program with
    | ok node w₁ =>
      rw [hp] at h
      cases h
    | fail fault' w₁ =>
      rw [hp] at h
      cases h
      have hfail := fault_of_readItems (Window.program_eq w ▸ hp)
      rw [Window.fault_of_start hs] at hfail
      refine hfail.imp_right (Or.imp_right ?_)
      exact fun ⟨t, ht, hoverflow⟩ => ⟨t, Window.mem_of_start hs ht, hoverflow⟩

/-- The fault of a source text has one of four causes. -/
theorem cause_of_tokenize {source : String} {fault : LexicalFault}
    (h : (tokenize source).fault = some fault) :
    fault.cause = .unterminatedString ∨ ∃ c, fault.cause.Names c := by
  by_cases hc : fault.cause = .unterminatedString
  · exact .inl hc
  · obtain ⟨p, hat⟩ := exists_faultAt placeAfter_nil.symm h hc
    obtain ⟨c, _, hnames⟩ := hat.names
    exact .inr ⟨c, hnames⟩

/-- Reads items up to the end of the input and puts them into a program, unless a token is left. -/
def Window.programToEnd (w : Window) : Outcome Node :=
  let reading := readItems [] w
  reading.ending.andThen fun _ w₁ =>
    if w₁.current.isSome then .fail (.expectedEnd w₁.current) w₁
    else .ok (.program reading.items) w₁

/-- No token is left. -/
theorem Window.programToEnd_eq (w : Window) : w.programToEnd = w.program := by
  unfold programToEnd program
  cases h : (readItems [] w).ending with
  | fail fault w₁ => simp only [h, Outcome.andThen_fail]
  | ok u w₁ =>
    have hend : (readItems [] w).outcome = .ok (.program (readItems [] w).items) w₁ := by
      rw [ItemsReading.outcome, h]
      rfl
    have hc := current_of_readItems hend
    simp only [h, Outcome.andThen_ok, hc, Option.isSome_none, if_neg Bool.false_ne_true]

/-! ## Conversions and indices -/

/-- The value of decimal digits behind those of a given value, or nothing if one of them is no
digit. -/
def digits? (value : Nat) : List Char → Option Nat
  | [] => some value
  | c :: cs => if c.isDigit then digits? (10 * value + (c.toNat - '0'.toNat)) cs else none

/-- The number that a text of digits stands for, after a minus sign or none, or nothing if it is no
such text. -/
def converted? : List Char → Option Int
  | [] => none
  | c :: cs =>
    if c = '-' then if cs.isEmpty then none else (digits? 0 cs).map fun value => -(value : Int)
    else (digits? 0 (c :: cs)).map fun value => (value : Int)

/-- The operand that one token makes, or how many digits it has too many, or nothing if a text that
is taken for a number is none. -/
def Token.operand? (t : Token) : Option (Except Nat Node) :=
  if isDecimal t.text.toList then
    (converted? t.text.toList).map fun value =>
      if Text.digitLimit < Text.digitCount t.text.toList then
        .error (Text.digitCount t.text.toList)
      else .ok (.integer value)
  else some (.ok (if t.kind = .identifier then .identifier t.text else .string t.text))

theorem digits?_eq {cs : List Char} (h : cs.all Char.isDigit = true) (value : Nat) :
    digits? value cs = some (Nat.ofDigitChars 10 cs value) := by
  induction cs generalizing value with
  | nil => rfl
  | cons c cs ih =>
    rw [List.all_cons, Bool.and_eq_true] at h
    rw [digits?, if_pos h.1, ih h.2]
    rfl

theorem converted?_eq {text : List Char} (h : isDecimal text = true) :
    converted? text = integer? text := by
  have hs := splitInteger_of_isDecimal h
  cases text with
  | nil => cases h
  | cons c cs =>
    rw [isDecimal] at h
    rw [converted?, integer?, hs]
    split at h
    · rename_i hc
      rw [Bool.and_eq_true, Bool.not_eq_true'] at h
      subst hc
      rw [if_pos rfl, h.1, if_neg Bool.false_ne_true, digits?_eq h.2]
      rfl
    · rename_i hc
      rw [if_neg hc, digits?_eq (List.all_cons ▸ h)]
      split
      · rename_i hdigits
        cases hdigits
        exact absurd rfl hc
      · rename_i hdigits
        cases hdigits
        rfl
      · rename_i hnot
        exact absurd rfl (hnot (c :: cs))

/-- What is taken for a number is one. -/
theorem Token.operand?_eq (t : Token) : t.operand? = some t.operand := by
  unfold operand? operand
  by_cases h : isDecimal t.text.toList = true
  · rw [if_pos h, converted?_eq h, integer?_eq, number?_eq, if_pos h, if_pos h, Option.map_some]
    split <;> rfl
  · rw [if_neg h, number?_eq, if_neg h]

namespace Escape

/-- Resolves the escapes of a literal `raw` that opens at `opening`, from an index on up to the last
character, or comes to nothing where an index is out of range. -/
def walk? (opening : Position) (raw : List Char) (i : Nat) :
    Option (Except LexicalFault (List Char)) :=
  if i + 1 < raw.length then
    match raw[i]? with
    | none => none
    | some c =>
      if c = '\\' then
        match raw[i + 1]? with
        | none => none
        | some symbol =>
          match meaning? symbol with
          | none => some (.error (invalid (opening.right (i + 1)) symbol))
          | some e => (walk? opening raw (i + 2)).map fun inner => inner.map (e :: ·)
      else (walk? opening raw (i + 1)).map fun inner => inner.map (c :: ·)
  else some (.ok [])
termination_by raw.length - i

/-- Looks for an escape that cannot be resolved in a text `raw` that begins with the quote of a
literal which is never closed, from an index on, or comes to nothing where an index is out of
range. -/
def scan? (opening : Position) (raw : List Char) (i : Nat) : Option LexicalFault :=
  if i < raw.length then
    match raw[i]? with
    | none => none
    | some c =>
      if c = '\\' ∧ i + 1 < raw.length then
        match raw[i + 1]? with
        | none => none
        | some symbol =>
          match meaning? symbol with
          | none => some (invalid (opening.right (i + 1)) symbol)
          | some _ => scan? opening raw (i + 2)
      else scan? opening raw (i + 1)
  else some ⟨.unterminatedString, opening⟩
termination_by raw.length - i

theorem drop_eq_cons {raw : List Char} {i : Nat} {c : Char} (h : raw[i]? = some c) :
    raw.drop i = c :: raw.drop (i + 1) := by
  obtain ⟨hi, rfl⟩ := List.getElem?_eq_some_iff.1 h
  exact List.drop_eq_getElem_cons hi

/-- No index of a literal is out of range as its escapes are resolved. -/
theorem walk?_eq (opening : Position) (raw : List Char) (i : Nat) :
    walk? opening raw i = some (decode (opening.right i) (raw.drop i)) := by
  fun_induction walk? opening raw i with
  | case1 i hi hnone =>
    rw [List.getElem?_eq_none_iff] at hnone
    omega
  | case2 i hi hnone =>
    rw [List.getElem?_eq_none_iff] at hnone
    omega
  | case3 i hi symbol hs hmeaning hc =>
    rw [drop_eq_cons hc, drop_eq_cons hs, decode, if_pos rfl]
    simp only [hmeaning, Position.right_right]
  | case4 i hi symbol hs e hmeaning hc ih =>
    rw [drop_eq_cons hc, drop_eq_cons hs, decode, if_pos rfl, ih, Option.map_some]
    simp only [hmeaning, Position.right_right]
    cases decode (opening.right (i + 2)) (raw.drop (i + 2)) <;> rfl
  | case5 i hi c hc hb ih =>
    have hd : raw[i + 1]? = some raw[i + 1] := List.getElem?_eq_getElem hi
    rw [drop_eq_cons hd] at ih
    rw [drop_eq_cons hc, drop_eq_cons hd, decode, if_neg hb, Position.right_right, ih,
      Option.map_some]
    cases decode (opening.right (i + 1)) (raw[i + 1] :: raw.drop (i + 1 + 1)) <;> rfl
  | case6 i hi =>
    -- one character is left at most
    have hlen : (raw.drop i).length ≤ 1 := by
      rw [List.length_drop]
      omega
    rcases hdrop : raw.drop i with _ | ⟨c, _ | ⟨d, ds⟩⟩
    · rfl
    · rfl
    · rw [hdrop, List.length_cons, List.length_cons] at hlen
      omega

/-- Nor is one as a literal is looked through that is never closed. -/
theorem scan?_eq (opening : Position) (raw : List Char) (i : Nat) :
    scan? opening raw i = some (unclosed opening (opening.right i) (raw.drop i)) := by
  fun_induction scan? opening raw i with
  | case1 i hi hnone =>
    rw [List.getElem?_eq_none_iff] at hnone
    omega
  | case2 i hi c hc hb hnone =>
    rw [List.getElem?_eq_none_iff] at hnone
    omega
  | case3 i hi c hc hb symbol hs hmeaning =>
    rw [drop_eq_cons hc, drop_eq_cons hs, unclosed, if_pos hb.1]
    simp only [hmeaning, Position.right_right]
  | case4 i hi c hc hb symbol hs e hmeaning ih =>
    rw [drop_eq_cons hc, drop_eq_cons hs, unclosed, if_pos hb.1, ih]
    simp only [hmeaning, Position.right_right]
  | case5 i hi c hc hb ih =>
    rw [ih, drop_eq_cons hc]
    by_cases hlast : i + 1 < raw.length
    · have hd : raw[i + 1]? = some raw[i + 1] := List.getElem?_eq_getElem hlast
      rw [drop_eq_cons hd, unclosed, if_neg fun h => hb ⟨h, hlast⟩, Position.right_right]
    · rw [List.drop_eq_nil_of_le (Nat.le_of_not_lt hlast)]
      rfl
  | case6 i hi =>
    rw [List.drop_eq_nil_of_le (Nat.le_of_not_lt hi)]
    rfl

end Escape

/-- Parsing fails in its own three ways, with lexical faults of four causes, and with a number of
too many digits, and in no other way.  Tokens that are at hand are parsed, or there is a complaint,
or one of them writes such a number; of a source text its lexical fault may come out besides.  There
are texts without a lexical fault whose numbers have too many digits.  No token is left where a
program ends.  A phrase that takes the text of its first token is entered only where there is one.
Whatever is taken for a number is one.  No index is out of range as the escapes of a literal are
resolved, nor as a literal is looked through that is never closed. -/
theorem parse_faults (tokens : List (Option Token)) (source : String) :
    (∀ fault : Fault, parse (.ofTokens tokens) = .error fault →
      fault.IsComplaint ∨ ∃ t, some t ∈ tokens ∧ fault.IsOverflowOf t) ∧
    (∀ fault : Fault, parse (.ofSource source) = .error fault →
      fault.IsComplaint ∨ (∃ e, (tokenize source).fault = some e ∧ fault = .lexical e ∧
        (e.cause = .unterminatedString ∨ ∃ c, e.cause.Names c)) ∨
          ∃ t ∈ (tokenize source).tokens, t.kind = .integer ∧ fault.IsOverflowOf t) ∧
    (∀ digits gap : List Char, digits.all Char.isDigit = true → (∀ c ∈ gap, isLayout c = true) →
      Text.digitLimit < digits.length → (tokenize (assignmentText digits gap)).fault = none ∧
        parse (.ofSource (assignmentText digits gap)) = .error (.tooManyDigits digits.length)) ∧
    (∀ w : Window, w.programToEnd = w.program) ∧
    (∀ (w w' : Window) (phrase : Phrase), w.Enters phrase w' → phrase.needsToken = true →
      w'.current.isSome) ∧
    (∀ t : Token, t.operand? = some t.operand) ∧
    (∀ (opening : Position) (raw : List Char),
      (Escape.walk? opening raw 1).map (Except.map fun inner => '"' :: inner ++ ['"']) =
        some (Escape.decodeLiteral opening raw)) ∧
    ∀ (opening : Position) (cs : List Char),
      Escape.scan? opening ('"' :: cs) 1 =
        some (Escape.unclosed opening (opening.right 1) cs) := by
  refine ⟨fun fault h => ?_, fun fault h => ?_,
    fun digits gap hall hgap => parse_assignment_of_digits hall hgap, Window.programToEnd_eq,
    fun w w' phrase h hp => h.isSome hp, Token.operand?_eq, fun opening raw => ?_,
    fun opening cs => Escape.scan?_eq opening ('"' :: cs) 1⟩
  · rcases fault_of_parse h with hc | ⟨e, he, _⟩ | ⟨t, ht, hoverflow⟩
    · exact .inl hc
    · cases he
    · exact .inr ⟨t, ht, hoverflow⟩
  · rcases fault_of_parse h with hc | ⟨e, he, hfault⟩ | ⟨t, ht, hoverflow⟩
    · exact .inl hc
    · exact .inr (.inl ⟨e, he, hfault, cause_of_tokenize he⟩)
    · obtain ⟨t, ht, ⟨⟩⟩ := List.mem_map.1 ht
      have hk := (lexical_of_mem_tokenize ht).isDecimal_iff.1 hoverflow.1
      exact .inr (.inr ⟨t, ht, hk, hoverflow⟩)
  · rw [Escape.walk?_eq, Option.map_some, Escape.decodeLiteral, List.drop_one]
    cases Escape.decode (opening.right 1) raw.tail <;> rfl

/-- A gap behind an identifier, a source text with an open literal, a number with one digit too
many, and a declaration at the front of a program. -/
theorem parse_faults_of_gap :
    (parse (.ofTokens [some ⟨.identifier, "x", .start⟩, none]) =
        .error (.syntactic (.afterIdentifier none)) ∧
      (Fault.syntactic (.afterIdentifier none)).IsComplaint) ∧
    (∃ e, parse (.ofSource "x \"") = .error (.lexical e) ∧
      (tokenize "x \"").fault = some e ∧ e.cause = .unterminatedString) ∧
    parse (.ofSource (assignmentText (List.replicate 4301 '1') ['\n'])) =
      .error (.tooManyDigits 4301) ∧
    (Window.facing [⟨.keyword, "void", .start⟩]).Enters .declaration
      (.facing [⟨.keyword, "void", .start⟩]) ∧
    (Window.facing [⟨.keyword, "void", .start⟩]).current.isSome := by
  have htokens : parse (.ofTokens [some ⟨.identifier, "x", .start⟩, none]) =
      .error (.syntactic (.afterIdentifier none)) := by decide +kernel
  have hsource : parse (.ofSource "x \"") = .error (.lexical ⟨.unterminatedString, ⟨1, 3⟩⟩) := by
    decide +kernel
  have henters : (Window.facing [⟨.keyword, "void", .start⟩]).Enters .declaration
      (.facing [⟨.keyword, "void", .start⟩]) := .item rfl .here
  refine ⟨⟨htokens, ?_⟩, ⟨_, hsource, ?_, rfl⟩, ?_, henters,
    (parse_faults [] "").2.2.2.2.1 _ _ _ henters rfl⟩
  · rcases (parse_faults _ "").1 _ htokens with hc | ⟨_, _, _, _, hf⟩
    · exact hc
    · cases hf
  · rcases (parse_faults [] _).2.1 _ hsource with hc | ⟨e, he, hfault, _⟩ | ⟨_, _, _, _, _, hf⟩
    · simp [Fault.IsComplaint] at hc
    · cases hfault
      exact he
    · cases hf
  · have hall : (List.replicate 4301 '1').all Char.isDigit = true :=
      List.all_eq_true.2 fun c hc => by
        rw [List.eq_of_mem_replicate hc]
        rfl
    have hlength : (List.replicate 4301 '1').length = 4301 := List.length_replicate
    have hlimit : Text.digitLimit < (List.replicate 4301 '1').length := by
      rw [hlength]
      decide
    have hgap : ∀ c ∈ ['\n'], isLayout c = true := List.forall_mem_singleton.2 rfl
    have hparse := ((parse_faults [] "").2.2.1 _ ['\n'] hall hgap hlimit).2
    rwa [hlength] at hparse

end MiniLang
