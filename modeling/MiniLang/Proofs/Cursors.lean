import Mathlib.Control.Monad.Basic
import MiniLang.Chain
/-!
# Chains as views of a stream

A chain of cursors is a fixed view of the stream that the cursors share, in whatever order they are
looked at and advanced.  Cursor `i` shows the elements `i` and `i + 1`, its successor is cursor
`i + 1`, and each element is pulled once, when it first has to be shown (`Chain.view_of_run`).

The invariant behind this is `Chain.Stands`: of the cursors that are known only the last one has no
successor, so a cursor that has to pull an element is always the one that shows the element before
it.  The fault of a stream is therefore met by the first request for the cursor that would show it,
and by no other.
-/

set_option autoImplicit false

namespace MiniLang

/-! ## The elements of a stream -/

namespace Stream

/-- The element of a stream at a place: absent at a gap, and from the end or the fault on. -/
def element (stream : Stream) (i : Nat) : Option Token := (stream.tokens[i]?).join

theorem element_eq_none {stream : Stream} {i : Nat} (h : stream.length ≤ i) :
    stream.element i = none := by
  rw [element, List.getElem?_eq_none h]
  rfl

/-- A stream of which `n` elements have been pulled, and perhaps its fault. -/
def behind (stream : Stream) (n : Nat) (fault : Option LexicalFault) : Stream :=
  ⟨stream.tokens.drop n, fault⟩

/-- As long as there are elements a pull gives the next one. -/
theorem pull_behind {stream : Stream} {n : Nat} (h : n < stream.length)
    (fault : Option LexicalFault) :
    (stream.behind n fault).pull = .ok (stream.element n, stream.behind (n + 1) fault) := by
  have hdrop : stream.tokens.drop n = stream.element n :: stream.tokens.drop (n + 1) := by
    rw [element, List.getElem?_eq_getElem h]
    exact List.drop_eq_getElem_cons h
  rw [pull, behind, hdrop]
  rfl

theorem behind_eq_ended {stream : Stream} {n : Nat} (h : stream.length ≤ n) :
    stream.behind n none = .ended := by
  rw [behind, List.drop_eq_nil_of_le h]
  rfl

/-- Where the stream has ended, all further elements are absent. -/
theorem pull_behind_none {stream : Stream} {n : Nat} (h : stream.length ≤ n) :
    (stream.behind n none).pull = .ok (stream.element n, stream.behind (n + 1) none) := by
  rw [behind_eq_ended h, behind_eq_ended (Nat.le_succ_of_le h), element_eq_none h]
  rfl

theorem pull_behind_fault {stream : Stream} {n : Nat} (h : stream.length ≤ n)
    (fault : LexicalFault) : (stream.behind n (some fault)).pull = .error fault := by
  rw [pull, behind, List.drop_eq_nil_of_le h]

/-- The cursor of a number, where so many are known. -/
def cursor (stream : Stream) (known i : Nat) : Cursor :=
  ⟨stream.element i, stream.element (i + 1), if i + 1 < known then some (i + 1) else none⟩

/-- The cursors that are known, where there are so many of them. -/
def cursors (stream : Stream) (known : Nat) : List Cursor :=
  (List.range known).map (stream.cursor known)

@[simp] theorem length_cursors (stream : Stream) (known : Nat) :
    (stream.cursors known).length = known := by
  simp [cursors]

theorem getElem?_cursors {stream : Stream} {known i : Nat} (h : i < known) :
    (stream.cursors known)[i]? = some (stream.cursor known i) := by
  simp [cursors, h]

/-- The last cursor is given a successor, and that one is the last from then on. -/
theorem cursors_succ (stream : Stream) (i : Nat) :
    (stream.cursors (i + 1)).set i ⟨stream.element i, stream.element (i + 1), some (i + 1)⟩
      ++ [⟨stream.element (i + 1), stream.element (i + 2), none⟩] = stream.cursors (i + 2) := by
  have hfront : (List.range i).map (stream.cursor (i + 1))
      = (List.range i).map (stream.cursor (i + 2)) := by
    refine List.map_congr_left fun j hj => ?_
    have hj : j < i := List.mem_range.mp hj
    simp [cursor, hj, Nat.lt_succ_of_lt hj]
  simp [cursors, List.range_succ, hfront, cursor]

end Stream

/-! ## Steps -/

namespace Chain

/-- What can be asked of a chain. -/
inductive Step where
  /-- What a cursor shows. -/
  | look (i : Nat)
  /-- The number of the successor of a cursor. -/
  | advance (i : Nat)
  deriving DecidableEq, Repr

/-- The cursor that is asked. -/
def Step.cursor : Step → Nat
  | .look i => i
  | .advance i => i

/-- What a chain answers. -/
inductive Answer where
  | shows (current next : Option Token)
  | successor (i : Nat)
  | fault (fault : LexicalFault)
  deriving DecidableEq, Repr

/-- The answer to a step and the chain afterwards; nothing where there is no such cursor. -/
def step (chain : Chain) : Step → Option (Answer × Chain)
  | .look i => (chain.get? i).map fun cursor => (.shows cursor.current cursor.next, chain)
  | .advance i =>
    match chain.advance i with
    | none => none
    | some (.ok j, after) => some (.successor j, after)
    | some (.error fault, after) => some (.fault fault, after)

/-- The elements that a step pulls off the stream: one if the cursor has no successor yet, and it is
there. -/
def pulledBy (chain : Chain) (step : Step) : List (Option Token) :=
  match step with
  | .look _ => []
  | .advance i =>
    match chain.get? i with
    | some ⟨_, _, none⟩ =>
      match chain.rest.pull with
      | .ok (token, _) => [token]
      | .error _ => []
    | _ => []

/-- The elements that are pulled by steps, one after the other, and the chain afterwards; nothing
where a step names a cursor that is not known yet. -/
def run (chain : Chain) : List Step → Option (List (Option Token) × Chain)
  | [] => some ([], chain)
  | step :: steps =>
    match chain.step step with
    | none => none
    | some (_, after) =>
      (after.run steps).map fun (pulled, last) => (chain.pulledBy step ++ pulled, last)

/-! ## The invariant -/

/-- The fault that a stream still has after some steps: it is gone once the cursor that would be
followed by the element in its place has been advanced. -/
def faultAfter (stream : Stream) (past : List Step) : Option LexicalFault :=
  if .advance (stream.length - 2) ∈ past then none else stream.fault

/-- A step is the first to ask for the element in whose place the stream has its fault. -/
def MeetsFault (stream : Stream) (past : List Step) (i : Nat) : Prop :=
  stream.fault.isSome ∧ i + 2 = stream.length ∧ .advance i ∉ past

theorem meetsFault_iff {stream : Stream} {past : List Step} {i : Nat} :
    MeetsFault stream past i ↔ (faultAfter stream past).isSome ∧ i + 2 = stream.length := by
  rw [MeetsFault, faultAfter]
  constructor
  · rintro ⟨hfault, hlength, hfirst⟩
    rw [← hlength]
    exact ⟨by rwa [Nat.add_sub_cancel, if_neg hfirst], rfl⟩
  · rintro ⟨hfault, hlength⟩
    rw [← hlength, Nat.add_sub_cancel] at hfault
    split at hfault
    · cases hfault
    next hfirst => exact ⟨hfault, hlength, hfirst⟩

/-- Only the step that meets the fault takes it away. -/
theorem faultAfter_append {stream : Stream} {past : List Step} {step : Step}
    (h : (faultAfter stream past).isSome → step ≠ .advance (stream.length - 2)) :
    faultAfter stream (past ++ [step]) = faultAfter stream past := by
  by_cases hmem : .advance (stream.length - 2) ∈ past
  · simp [faultAfter, hmem]
  · cases hfault : stream.fault with
    | none => simp [faultAfter, hfault]
    | some fault =>
      have hne := (h (by simp [faultAfter, hmem, hfault])).symm
      simp [faultAfter, hmem, hne]

theorem faultAfter_append_self {stream : Stream} {past : List Step} {i : Nat}
    (h : i + 2 = stream.length) : faultAfter stream (past ++ [.advance i]) = none := by
  simp [faultAfter, ← h]

/-- A chain of so many cursors after some steps.  What the stream has still to give begins with the
second element behind the last cursor, and no cursor shows what is behind a fault that has still to
be met. -/
structure Stands (stream : Stream) (past : List Step) (known : Nat) (chain : Chain) : Prop where
  cursors : chain.cursors = stream.cursors known
  rest : chain.rest = stream.behind (known + 1) (faultAfter stream past)
  bound : (faultAfter stream past).isSome → known + 1 ≤ stream.length

/-- The construction fails just where the fault stands in the place of one of the two elements that
the first cursor shows. -/
theorem start_eq (stream : Stream) :
    (∃ fault, stream.fault = some fault ∧ stream.length ≤ 1 ∧ start stream = .error fault)
      ∨ ¬ (stream.fault.isSome ∧ stream.length ≤ 1)
        ∧ start stream = .ok ⟨stream.cursors 1, stream.behind 2 stream.fault⟩ := by
  obtain ⟨tokens, fault⟩ := stream
  match tokens, fault with
  | [], some fault => exact .inl ⟨fault, rfl, Nat.zero_le 1, rfl⟩
  | [_], some fault => exact .inl ⟨fault, rfl, Nat.le_refl 1, rfl⟩
  | [], none => exact .inr ⟨by simp, rfl⟩
  | [_], none => exact .inr ⟨by simp, rfl⟩
  | _ :: _ :: _, _ => exact .inr ⟨by simp [Stream.length], rfl⟩

theorem start_eq_error_iff {stream : Stream} {fault : LexicalFault} :
    start stream = .error fault ↔ stream.fault = some fault ∧ stream.length ≤ 1 := by
  obtain ⟨_, hfault, hlength, hstart⟩ | ⟨hnot, hstart⟩ := start_eq stream
  · simp [hstart, hfault, hlength]
  · simp only [hstart, reduceCtorEq, false_iff]
    exact fun ⟨hfault, hlength⟩ => hnot ⟨by simp [hfault], hlength⟩

theorem stands_start {stream : Stream} {chain : Chain} (h : start stream = .ok chain) :
    Stands stream [] 1 chain := by
  obtain ⟨fault, -, -, herror⟩ | ⟨hlength, hok⟩ := start_eq stream
  · rw [h] at herror
    cases herror
  · obtain rfl : chain = _ := Except.ok.inj (h.symm.trans hok)
    refine ⟨rfl, by simp [faultAfter], fun hfault => ?_⟩
    exact Nat.lt_of_not_le fun hle => hlength ⟨by simpa [faultAfter] using hfault, hle⟩

namespace Stands

variable {stream : Stream} {past : List Step} {known i : Nat} {chain : Chain}

theorem length_eq (h : Stands stream past known chain) : chain.cursors.length = known := by
  rw [h.cursors, Stream.length_cursors]

theorem getElem? (h : Stands stream past known chain) (hi : i < known) :
    chain.cursors[i]? = some (stream.cursor known i) := by
  rw [h.cursors, Stream.getElem?_cursors hi]

/-- A cursor that is not known answers nothing. -/
theorem step_eq_none (h : Stands stream past known chain) {step : Step}
    (hstep : known ≤ step.cursor) : chain.step step = none := by
  have hnone : chain.cursors[step.cursor]? = none :=
    List.getElem?_eq_none (by rwa [h.length_eq])
  cases step with
  | look i => rw [Chain.step, Chain.get?, show chain.cursors[i]? = none from hnone]; rfl
  | advance i => rw [Chain.step, Chain.advance, show chain.cursors[i]? = none from hnone]

theorem step_look (h : Stands stream past known chain) (hi : i < known) :
    chain.step (.look i) = some (.shows (stream.element i) (stream.element (i + 1)), chain) := by
  rw [Chain.step, Chain.get?, h.getElem? hi]
  rfl

/-- Only the last cursor can meet the fault. -/
theorem succ_eq_of_meetsFault (h : Stands stream past known chain) (hi : i < known)
    (hmeets : MeetsFault stream past i) : i + 1 = known := by
  obtain ⟨hfault, hlength⟩ := meetsFault_iff.mp hmeets
  have hbound := h.bound hfault
  omega

/-- A cursor that has a successor names it, and nothing changes. -/
theorem step_of_lt (h : Stands stream past known chain) (hi : i + 1 < known) :
    chain.step (.advance i) = some (.successor (i + 1), chain) := by
  rw [Chain.step, Chain.advance, h.getElem? (Nat.lt_of_succ_lt hi)]
  simp [Stream.cursor, hi]

theorem pull_of_meetsFault (h : Stands stream past (i + 1) chain)
    (hmeets : MeetsFault stream past i) {fault : LexicalFault}
    (hfault : stream.fault = some fault) :
    chain.rest.pull = .error fault := by
  obtain ⟨-, hlength, hfirst⟩ := hmeets
  have hrest : chain.rest = stream.behind (i + 2) (some fault) := by
    rw [h.rest, faultAfter, ← hlength, Nat.add_sub_cancel, if_neg hfirst, hfault]
  rw [hrest, Stream.pull_behind_fault (Nat.le_of_eq hlength.symm)]

/-- Where the fault is not met, the stream gives the next element. -/
theorem pull_of_not_meetsFault (h : Stands stream past (i + 1) chain)
    (hmeets : ¬ MeetsFault stream past i) :
    chain.rest.pull
      = .ok (stream.element (i + 2), stream.behind (i + 3) (faultAfter stream past)) := by
  rw [h.rest]
  rcases Nat.lt_or_ge (i + 2) stream.length with hlt | hge
  · exact Stream.pull_behind hlt _
  · suffices hnone : faultAfter stream past = none by
      rw [hnone, Stream.pull_behind_none hge]
    by_contra hsome
    have hfault := Option.isSome_iff_ne_none.mpr hsome
    exact hmeets (meetsFault_iff.mpr ⟨hfault, Nat.le_antisymm (h.bound hfault) hge⟩)

/-- Where it meets the fault, the last cursor stays without a successor. -/
theorem step_of_meetsFault (h : Stands stream past (i + 1) chain)
    (hmeets : MeetsFault stream past i) {fault : LexicalFault}
    (hfault : stream.fault = some fault) :
    chain.step (.advance i) = some (.fault fault, ⟨chain.cursors, .ended⟩) := by
  rw [Chain.step, Chain.advance, h.getElem? (Nat.lt_succ_self i)]
  simp [Stream.cursor, h.pull_of_meetsFault hmeets hfault]

theorem step_of_not_meetsFault (h : Stands stream past (i + 1) chain)
    (hmeets : ¬ MeetsFault stream past i) :
    chain.step (.advance i) = some (.successor (i + 1),
      ⟨stream.cursors (i + 2), stream.behind (i + 3) (faultAfter stream past)⟩) := by
  rw [Chain.step, Chain.advance, h.getElem? (Nat.lt_succ_self i)]
  simp [Stream.cursor, h.pull_of_not_meetsFault hmeets, h.cursors, Stream.cursors_succ]

/-! ## What a step preserves -/

/-- A step that does not ask the last cursor pulls nothing. -/
theorem pulledBy_of_lt (h : Stands stream past known chain) (hi : i + 1 < known) :
    chain.pulledBy (.advance i) = [] := by
  rw [pulledBy, Chain.get?, h.getElem? (Nat.lt_of_succ_lt hi)]
  simp [Stream.cursor, hi]

theorem pulledBy_last (h : Stands stream past (i + 1) chain) :
    chain.pulledBy (.advance i)
      = match chain.rest.pull with
        | .ok (token, _) => [token]
        | .error _ => [] := by
  rw [pulledBy, Chain.get?, h.getElem? (Nat.lt_succ_self i)]
  simp [Stream.cursor]

/-- The elements that are behind `n` others come after them. -/
private theorem map_element_succ (stream : Stream) (n : Nat) :
    (List.range n).map stream.element ++ [stream.element n]
      = (List.range (n + 1)).map stream.element := by
  simp [List.range_succ]

/-- A step that neither adds a cursor nor meets the fault. -/
theorem unchanged (h : Stands stream past known chain) {step : Step}
    (hstep : (faultAfter stream past).isSome → step ≠ .advance (stream.length - 2)) :
    Stands stream (past ++ [step]) known chain := by
  have hkept := faultAfter_append hstep
  exact ⟨h.cursors, by rw [hkept, h.rest], by rw [hkept]; exact h.bound⟩

/-- The last cursor asked for its successor. -/
theorem step_last {answer : Answer} {after : Chain} (h : Stands stream past (i + 1) chain)
    (hstep : chain.step (.advance i) = some (answer, after)) :
    ∃ known', Stands stream (past ++ [.advance i]) known' after
      ∧ (List.range (i + 2)).map stream.element ++ chain.pulledBy (.advance i)
        = (List.range (known' + 1)).map stream.element := by
  by_cases hmeets : MeetsFault stream past i
  · obtain ⟨fault, hfault⟩ := Option.isSome_iff_exists.mp hmeets.1
    rw [h.step_of_meetsFault hmeets hfault] at hstep
    obtain rfl : _ = after := congrArg Prod.snd (Option.some.inj hstep)
    have hgone : faultAfter stream (past ++ [.advance i]) = none :=
      faultAfter_append_self hmeets.2.1
    refine ⟨i + 1, ⟨h.cursors, ?_, by simp [hgone]⟩, ?_⟩
    · rw [hgone, Stream.behind_eq_ended (Nat.le_of_eq hmeets.2.1.symm)]
    · rw [h.pulledBy_last, h.pull_of_meetsFault hmeets hfault, List.append_nil]
  · rw [h.step_of_not_meetsFault hmeets] at hstep
    obtain rfl : _ = after := congrArg Prod.snd (Option.some.inj hstep)
    have hkept : faultAfter stream (past ++ [.advance i]) = faultAfter stream past := by
      refine faultAfter_append fun hfault heq => hmeets (meetsFault_iff.mpr ⟨hfault, ?_⟩)
      have hbound := h.bound hfault
      have hi : i = stream.length - 2 := by simpa using heq
      omega
    refine ⟨i + 2, ⟨rfl, by rw [hkept], fun hfault => ?_⟩, ?_⟩
    · rw [hkept] at hfault
      refine Nat.lt_of_le_of_ne (h.bound hfault) fun hlength => ?_
      exact hmeets (meetsFault_iff.mpr ⟨hfault, hlength⟩)
    · rw [h.pulledBy_last, h.pull_of_not_meetsFault hmeets, map_element_succ]

/-- A step leaves a chain that stands, and what it pulls comes next in the stream. -/
theorem step {step : Step} {answer : Answer} {after : Chain} (h : Stands stream past known chain)
    (hstep : chain.step step = some (answer, after)) :
    ∃ known', Stands stream (past ++ [step]) known' after
      ∧ (List.range (known + 1)).map stream.element ++ chain.pulledBy step
        = (List.range (known' + 1)).map stream.element := by
  have hknown : step.cursor < known := by
    by_contra hge
    rw [h.step_eq_none (Nat.le_of_not_lt hge)] at hstep
    cases hstep
  cases step with
  | look i =>
    rw [h.step_look (show i < known from hknown)] at hstep
    obtain rfl : chain = after := congrArg Prod.snd (Option.some.inj hstep)
    exact ⟨known, h.unchanged (by simp), List.append_nil _⟩
  | advance i =>
    obtain hlt | rfl : i + 1 < known ∨ i + 1 = known := Nat.lt_or_eq_of_le hknown
    · rw [h.step_of_lt hlt] at hstep
      obtain rfl : chain = after := congrArg Prod.snd (Option.some.inj hstep)
      -- A fault that has still to be met is further on.
      have hbehind : (faultAfter stream past).isSome →
          Step.advance i ≠ .advance (stream.length - 2) := by
        intro hfault heq
        have hbound := h.bound hfault
        have hi : i = stream.length - 2 := by simpa using heq
        omega
      exact ⟨known, h.unchanged hbehind, by rw [h.pulledBy_of_lt hlt, List.append_nil]⟩
    · exact h.step_last hstep

/-- Steps, one after the other, leave a chain that stands, and what they pull comes next in the
stream, each element once. -/
theorem run {steps : List Step} {pulled : List (Option Token)} {after : Chain}
    (h : Stands stream past known chain) (hrun : chain.run steps = some (pulled, after)) :
    ∃ known', Stands stream (past ++ steps) known' after
      ∧ (List.range (known + 1)).map stream.element ++ pulled
        = (List.range (known' + 1)).map stream.element := by
  induction steps generalizing past known chain pulled with
  | nil =>
    obtain ⟨rfl, rfl⟩ : [] = pulled ∧ chain = after := Prod.mk.inj (Option.some.inj hrun)
    exact ⟨known, by rwa [List.append_nil], List.append_nil _⟩
  | cons step steps ih =>
    rw [Chain.run] at hrun
    match hstep : chain.step step with
    | none => simp [hstep] at hrun
    | some (answer, middle) =>
      simp only [hstep, Option.map_eq_some_iff, Prod.mk.injEq, Prod.exists] at hrun
      obtain ⟨later, _, hlater, rfl, rfl⟩ := hrun
      obtain ⟨between, hmiddle, hfirst⟩ := h.step hstep
      obtain ⟨known', hafter, hrest⟩ := ih hmiddle hlater
      exact ⟨known', by simpa using hafter, by rw [← List.append_assoc, hfirst, hrest]⟩

end Stands

/-! ## The view -/

/-- What a chain is after some steps that have pulled some elements. -/
structure View (stream : Stream) (past : List Step) (pulled : List (Option Token)) (chain : Chain) :
    Prop where
  /-- The cursors are numbered along one chain: cursor `i` shows the elements `i` and `i + 1`, and
  all but the last are followed by the one of the next number. -/
  cursors : chain.cursors = stream.cursors chain.cursors.length
  /-- From the end or the fault on, what they show is absent. -/
  absent : ∀ i, stream.length ≤ i → stream.element i = none
  /-- With the two that the construction pulls, the elements that have been pulled are those in
  view, each once, in their order. -/
  pulled : stream.element 0 :: stream.element 1 :: pulled
    = (List.range (chain.cursors.length + 1)).map stream.element
  /-- There is no answer from a cursor that is not known. -/
  unknown : ∀ step, chain.cursors.length ≤ step.cursor → chain.step step = none
  /-- What a known cursor shows is what it has shown from the first. -/
  shows : ∀ i < chain.cursors.length,
    chain.step (.look i) = some (.shows (stream.element i) (stream.element (i + 1)), chain)
  /-- The first step to ask for the element in the place of the fault gives the fault, changes no
  cursor, and leaves a stream that has ended. -/
  fault : ∀ i < chain.cursors.length, ∀ fault, stream.fault = some fault →
    i + 2 = stream.length → .advance i ∉ past →
    chain.step (.advance i) = some (.fault fault, ⟨chain.cursors, .ended⟩)
  /-- Every other step to a successor gives the cursor of the next number, and it changes something
  only where that one was not known. -/
  successor : ∀ i < chain.cursors.length,
    ¬ (stream.fault.isSome ∧ i + 2 = stream.length ∧ .advance i ∉ past) →
    ∃ after, chain.step (.advance i) = some (.successor (i + 1), after)
      ∧ after.cursors = stream.cursors (max chain.cursors.length (i + 2))
      ∧ (i + 1 < chain.cursors.length → after = chain)

theorem Stands.view {stream : Stream} {past : List Step} {known : Nat} {chain : Chain}
    {pulled : List (Option Token)} (h : Stands stream past known chain)
    (hpulled : (List.range 2).map stream.element ++ pulled
      = (List.range (known + 1)).map stream.element) :
    View stream past pulled chain := by
  obtain rfl := h.length_eq
  refine ⟨h.cursors, fun _ => Stream.element_eq_none, hpulled, fun _ => h.step_eq_none,
    fun _ => h.step_look, ?_, ?_⟩
  · intro i hi fault hfault hlength hfirst
    have hmeets : MeetsFault stream past i := ⟨by simp [hfault], hlength, hfirst⟩
    rw [← h.succ_eq_of_meetsFault hi hmeets] at h
    exact h.step_of_meetsFault hmeets hfault
  · intro i hi hmeets
    obtain hlt | heq := Nat.lt_or_eq_of_le (Nat.succ_le_of_lt hi)
    · refine ⟨chain, h.step_of_lt hlt, ?_, fun _ => rfl⟩
      rw [Nat.max_eq_left hlt, ← h.cursors]
    · have hlast := h
      rw [← heq] at hlast ⊢
      refine ⟨_, hlast.step_of_not_meetsFault hmeets, ?_, fun hlt => absurd hlt (Nat.lt_irrefl _)⟩
      rw [Nat.max_eq_right (Nat.le_succ _)]

/-- The construction of a chain fails where the fault of the stream stands in the place of one of
the first two elements, and only there.  Otherwise, whatever is asked of known cursors in whatever
order, the chain is a view of the stream. -/
theorem view_of_run (stream : Stream) :
    (∀ fault, start stream = .error fault ↔ stream.fault = some fault ∧ stream.length ≤ 1)
      ∧ ∀ chain steps pulled after, start stream = .ok chain →
        chain.run steps = some (pulled, after) → View stream steps pulled after := by
  refine ⟨fun _ => start_eq_error_iff, fun chain steps pulled after hstart hrun => ?_⟩
  obtain ⟨known, hstands, hpulled⟩ := (stands_start hstart).run hrun
  exact hstands.view hpulled

/-- Three tokens and a fault: cursor 1 is the first to meet it, and is followed after that by a
cursor that shows the third token and nothing behind it. -/
theorem view_of_run_of_late_fault :
    ∃ (stream : Stream) (chain after : Chain) (pulled : List (Option Token)) (steps : List Step),
      stream.fault.isSome ∧ stream.length = 3
        ∧ steps = [.advance 0, .look 0, .advance 1, .advance 0, .advance 1, .look 2]
        ∧ start stream = .ok chain ∧ chain.run steps = some (pulled, after)
        ∧ View stream steps pulled after := by
  refine ⟨⟨[some ⟨.identifier, "x", ⟨1, 1⟩⟩, some ⟨.assign, "=", ⟨1, 3⟩⟩,
    some ⟨.integer, "1", ⟨1, 5⟩⟩], some ⟨.unknownCharacter "!", ⟨1, 7⟩⟩⟩,
    _, _, _, _, rfl, rfl, rfl, rfl, rfl, ?_⟩
  exact (view_of_run _).2 _ _ _ _ rfl rfl

end Chain

end MiniLang
