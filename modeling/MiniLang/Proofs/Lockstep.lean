import MiniLang.Proofs.Front
import MiniLang.Proofs.Plan
/-!
# Two readings side by side

Two windows that show the same but for places make the same plans go the same way.  A `Lockstep` is
a relation of windows that one step keeps, or else ends in outcomes that are apart for good;
`Lockstep.run_phrase` says that then every phrase keeps it, and `Lockstep.run_items` that reading
the items of a program does.
-/

set_option autoImplicit false

namespace MiniLang

/-- A relation of windows that show the same, and a relation of outcomes that are apart for good. -/
structure Lockstep where
  /-- Windows that read the same from here on. -/
  level : Window → Window → Prop
  /-- Outcomes after which nothing is said of the windows any more. -/
  apart : {α : Type} → Outcome α → Outcome α → Prop
  /-- Level windows show the same tokens but for their places. -/
  same_view : ∀ {w w' : Window}, level w w' →
    w.current.map Token.unplaced = w'.current.map Token.unplaced ∧
      w.next.map Token.unplaced = w'.next.map Token.unplaced
  /-- A complaint about level windows sets them apart. -/
  complain : ∀ {α : Type} {w w' : Window}, level w w' → ∀ complaint : Complaint,
    apart (.fail (complaint.fault w) w : Outcome α) (.fail (complaint.fault w') w')
  /-- A step of level windows leads to level windows, or sets them apart. -/
  advance : ∀ {w w' : Window}, level w w' → w.current.isSome →
    (∃ w₁ w₁', w.advance = .ok () w₁ ∧ w'.advance = .ok () w₁' ∧ level w₁ w₁') ∨
      apart w.advance w'.advance
  /-- What is apart stays apart. -/
  stay : ∀ {α β : Type} {o o' : Outcome α} {go : α → Window → Outcome β}, apart o o' →
    (∀ a w, (go a w).Within 0 w) → apart (o.andThen go) (o'.andThen go)

namespace Lockstep

variable {L : Lockstep} {α β : Type}

/-- Outcomes that are the same value at level windows, or apart. -/
inductive Agree (L : Lockstep) : Outcome α → Outcome α → Prop where
  | level {a : α} {w w' : Window} (h : L.level w w') : L.Agree (.ok a w) (.ok a w')
  | apart {o o' : Outcome α} (h : L.apart o o') : L.Agree o o'

/-- Outcomes that agree agree also after going on. -/
theorem Agree.andThen {o o' : Outcome α} {go : α → Window → Outcome β} (h : L.Agree o o')
    (hw : ∀ a w, (go a w).Within 0 w)
    (hgo : ∀ a w w', o = .ok a w → L.level w w' → L.Agree (go a w) (go a w')) :
    L.Agree (o.andThen go) (o'.andThen go) := by
  cases h with
  | level hl => exact hgo _ _ _ rfl hl
  | apart ha => exact .apart (L.stay ha hw)

/-- Plans that end agree at level windows. -/
theorem run_plan {plan : Plan α} {w w' : Window} (he : plan.Ends w) (h : L.level w w') :
    L.Agree (plan.run w) (plan.run w') := by
  induction he generalizing w' with
  | done => exact .level h
  | @complain _ complaint w => exact .apart (L.complain h complaint)
  | look _ ih =>
    obtain ⟨hc, hn⟩ := L.same_view h
    have := ih h
    rw [Plan.run, Plan.run, ← hc, ← hn]
    exact this
  | advance hc _ ih =>
    rw [Plan.run, Plan.run]
    rcases L.advance h hc with ⟨w₁, w₁', hw, hw', h₁⟩ | ha
    · rw [hw, hw']
      exact ih w₁ hw h₁
    · exact .apart (L.stay ha fun _ => Plan.within_run _)
  | @phrase _ p _ w _ _ ihp ih =>
    rw [Plan.run, Plan.run]
    refine Agree.andThen ?_ (fun node => Plan.within_run _) fun node w₁ w₁' hr h₁ =>
      ih node w₁ hr h₁
    have := ihp h
    rwa [← p.run_eq, ← p.run_eq] at this
  | parameters _ _ ihp ih =>
    rw [Plan.run, Plan.run]
    refine Agree.andThen ?_ (fun nodes => Plan.within_run _) fun nodes w₁ w₁' hr h₁ =>
      ih nodes w₁ hr h₁
    have := ihp h
    rwa [Plan.run_moreParameters, Plan.run_moreParameters] at this

/-- Every phrase agrees at level windows. -/
theorem run_phrase (phrase : Phrase) {w w' : Window} (h : L.level w w') :
    L.Agree (phrase.run w) (phrase.run w') := by
  rw [phrase.run_eq, phrase.run_eq]
  exact run_plan (phrase.ends w) h

theorem within_outcome_readItems (items : List Node) (w : Window) :
    (readItems items w).outcome.Within 0 w :=
  (within_readItems items w).andThen fun _ _ => Nat.le_refl _

/-- The items of a program agree at level windows. -/
theorem run_items (items : List Node) {w w' : Window} (h : L.level w w') :
    L.Agree (readItems items w).outcome (readItems items w').outcome := by
  induction hn : w.left using Nat.strongRecOn generalizing items w w' with
  | ind n ih =>
    rw [outcome_readItems, outcome_readItems]
    obtain ⟨hview, _⟩ := L.same_view h
    cases hc : w.current with
    | none =>
      have hc' : w'.current = none := by simpa [hc] using hview.symm
      rw [hc']
      exact .level h
    | some t =>
      obtain ⟨t', hc', ht⟩ : ∃ t', w'.current = some t' ∧ t'.unplaced = t.unplaced := by
        simpa [hc] using hview.symm
      have htop : t'.topLevel = t.topLevel := by
        have h₁ : t'.unplaced.topLevel = t.unplaced.topLevel := by rw [ht]
        exact h₁
      rw [hc']
      simp only [htop]
      refine (run_phrase t.topLevel h).andThen (fun node w₁ => ?_) fun node w₁ w₁' hr h₁ => ?_
      · split
        · exact within_outcome_readItems items w₁
        · exact within_outcome_readItems _ w₁
      · have hw := (Token.within_run_topLevel hc).left_le hr
        split
        · exact ih w₁.left (by omega) items h₁ rfl
        · exact ih w₁.left (by omega) _ h₁ rfl

/-- Programs agree at level windows. -/
theorem run_program {w w' : Window} (h : L.level w w') : L.Agree w.program w'.program := by
  rw [Window.program_eq, Window.program_eq]
  exact run_items [] h

end Lockstep

/-! ## Places do not matter -/

/-- A window without regard to the places of its tokens. -/
def Window.unplaced (w : Window) : Window :=
  ⟨w.current.map Token.unplaced, w.next.map Token.unplaced,
    ⟨w.rest.tokens.map (Option.map Token.unplaced), w.rest.fault⟩⟩

/-- Reading two windows that are the same but for the places of their tokens. -/
def placing : Lockstep where
  level w w' := w.unplaced = w'.unplaced
  apart o o' := (∃ fault w, o = .fail fault w) ∧ ∃ fault w, o' = .fail fault w
  same_view h := ⟨congrArg Window.current h, congrArg Window.next h⟩
  complain _ _ := ⟨⟨_, _, rfl⟩, _, _, rfl⟩
  advance := by
    rintro ⟨current, next, tokens, fault⟩ ⟨current', next', tokens', fault'⟩ h _
    simp only [Window.unplaced, Window.mk.injEq, Stream.mk.injEq] at h
    obtain ⟨-, hnext, htokens, rfl⟩ := h
    match tokens, tokens', fault with
    | t :: ts, t' :: ts', fault =>
      rw [List.map_cons, List.map_cons, List.cons.injEq] at htokens
      refine .inl ⟨_, _, rfl, rfl, ?_⟩
      simp only [Window.unplaced, hnext, htokens]
    | [], [], none => exact .inl ⟨_, _, rfl, rfl, by simp only [Window.unplaced, hnext]⟩
    | [], [], some fault => exact .inr ⟨⟨_, _, rfl⟩, _, _, rfl⟩
    | [], _ :: _, _ => cases htokens
    | _ :: _, [], _ => cases htokens
  stay := by
    rintro α β _ _ go ⟨⟨fault, w, rfl⟩, fault', w', rfl⟩ _
    exact ⟨⟨fault, w, rfl⟩, fault', w', rfl⟩

/-- Lists of tokens that are the same but for their places show the same. -/
theorem unplaced_facing_eq {ts us : List Token}
    (h : ts.map Token.unplaced = us.map Token.unplaced) :
    (Window.facing ts).unplaced = (Window.facing us).unplaced := by
  have hfacing : ∀ ts : List Token,
      (Window.facing ts).unplaced = Window.facing (ts.map Token.unplaced) := by
    intro ts
    simp [Window.facing, Window.front, Window.unplaced, List.map_drop, Function.comp_def]
  rw [hfacing, hfacing, h]

end MiniLang
