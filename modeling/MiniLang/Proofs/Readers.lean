import MiniLang.Proofs.Cursors
import MiniLang.Readers
/-!
# Readers do not disturb each other

Whatever is asked of a source text and its readers, and in whatever order, the results of a reader
are those of the text that was held when its first token was asked for: the tokens in their order,
then the lexical fault once, then nothing.  All tokens, when they are asked for at once, are those
of the text that is held then (`Readers.results_of_run`).

Each state is therefore known from the steps before it alone, and `Readers.state` says which one it
is.  `step_state` is one step; `answer_of_run` and `resultsOf_run` are a run.
-/

set_option autoImplicit false

namespace MiniLang

/-! ## Pulling a stream to its end -/

/-- What the successive pulls of a text give: its tokens in their order, its fault once, and absence
ever after. -/
def Tokenized.result (tokenized : Tokenized) (n : Nat) : Except LexicalFault (Option Token) :=
  (tokenized.tokens.map (fun token => .ok (some token)) ++
    tokenized.fault.toList.map .error)[n]?.getD (.ok none)

namespace Stream

/-- What the pulls of a stream give: its tokens, its fault once, and absence ever after. -/
def result (stream : Stream) (n : Nat) : Except LexicalFault (Option Token) :=
  (stream.tokens.map .ok ++ stream.fault.toList.map .error)[n]?.getD (.ok none)

/-- A stream after so many pulls. -/
def pulled (stream : Stream) (n : Nat) : Stream :=
  stream.behind n (if n ≤ stream.length then stream.fault else none)

theorem result_ofSource (source : String) :
    (ofSource source).result = (tokenize source).result := by
  funext n
  rw [result, Tokenized.result, ofSource, List.map_map]
  rfl

theorem result_of_lt {stream : Stream} {n : Nat} (h : n < stream.length) :
    stream.result n = .ok (stream.element n) := by
  have h : n < stream.tokens.length := h
  rw [result, element, List.getElem?_append_left (by simpa using h), List.getElem?_map,
    List.getElem?_eq_getElem h]
  rfl

theorem result_length (stream : Stream) :
    stream.result stream.length = stream.fault.elim (.ok none) .error := by
  cases hf : stream.fault <;> simp [result, length, hf]

theorem result_of_gt {stream : Stream} {n : Nat} (h : stream.length < n) :
    stream.result n = .ok none := by
  have hlen : stream.fault.toList.length ≤ 1 := by cases stream.fault <;> simp
  rw [result, List.getElem?_eq_none]
  · rfl
  · simpa using Nat.le_trans (Nat.add_le_add_left hlen stream.tokens.length) h

theorem pull_pulled (stream : Stream) (n : Nat) :
    (stream.pulled n).pull = (stream.result n).map fun token => (token, stream.pulled (n + 1)) := by
  rcases Nat.lt_trichotomy n stream.length with hlt | rfl | hgt
  · have hsucc : n + 1 ≤ stream.length := hlt
    rw [result_of_lt hlt, pulled, if_pos (Nat.le_of_lt hlt), pull_behind hlt, pulled, if_pos hsucc]
    rfl
  · rw [result_length, pulled, if_pos (Nat.le_refl _), pulled, if_neg (Nat.not_succ_le_self _)]
    cases stream.fault with
    | none => rw [pull_behind_none (Nat.le_refl _), element_eq_none (Nat.le_refl _)]; rfl
    | some fault => rw [pull_behind_fault (Nat.le_refl _)]; rfl
  · have hle := Nat.le_of_lt hgt
    rw [result_of_gt hgt, pulled, if_neg (Nat.not_le_of_lt hgt), pull_behind_none hle,
      element_eq_none hle, pulled, if_neg (Nat.not_le_of_lt (Nat.lt_succ_of_lt hgt))]
    rfl

theorem pulled_succ_of_error {stream : Stream} {n : Nat} {fault : LexicalFault}
    (h : stream.result n = .error fault) : stream.pulled (n + 1) = .ended := by
  have hle : stream.length ≤ n := by
    refine Nat.le_of_not_lt fun hlt => ?_
    rw [result_of_lt hlt] at h
    cases h
  rw [pulled, if_neg (Nat.not_le_of_lt (Nat.lt_succ_of_le hle)), behind_eq_ended]
  exact Nat.le_succ_of_le hle

/-- To pull the tokens of a stream without gaps until none comes gives them all, or the fault behind
them. -/
theorem drain_map_some (tokens : List Token) (fault : Option LexicalFault) :
    (Stream.mk (tokens.map some) fault).drain = fault.elim (.ok tokens) .error := by
  induction tokens with
  | nil => cases fault <;> rw [drain] <;> rfl
  | cons token tokens ih =>
    rw [drain, List.map_cons]
    simp only [pull]
    rw [ih]
    cases fault <;> rfl

end Stream

namespace Readers

/-! ## Steps -/

/-- What can be asked of a source text and its readers. -/
inductive Step where
  /-- One more reader. -/
  | add
  /-- The next token of a reader. -/
  | next (i : Nat)
  /-- All tokens of the source text. -/
  | all
  /-- Another source text. -/
  | replace (source : String)
  deriving DecidableEq, Repr

/-- What is answered. -/
inductive Answer where
  | reader (i : Nat)
  | token (result : Except LexicalFault (Option Token))
  | tokens (result : Except LexicalFault (List Token))
  | nothing
  deriving DecidableEq, Repr

/-- The answer to a step and the readers afterwards; nothing where there is no such reader. -/
def step (readers : Readers) : Step → Option (Answer × Readers)
  | .add => some (.reader readers.add.1, readers.add.2)
  | .next i => (readers.next i).map fun (result, after) => (.token result, after)
  | .all => some (.tokens readers.all, readers)
  | .replace source => some (.nothing, readers.replace source)

/-- The answers to steps, one after the other, and the readers afterwards; nothing where a step
names a reader that is not there yet. -/
def run (readers : Readers) : List Step → Option (List Answer × Readers)
  | [] => some ([], readers)
  | step :: steps =>
    match readers.step step with
    | none => none
    | some (answer, after) =>
      (after.run steps).map fun (answers, last) => (answer :: answers, last)

/-- The successive results of a reader among the answers to steps. -/
def resultsOf (i : Nat) (steps : List Step) (answers : List Answer) :
    List (Except LexicalFault (Option Token)) :=
  (steps.zip answers).filterMap fun
    | (.next j, .token result) => if j = i then some result else none
    | _ => none

/-! ## States -/

/-- The source text that is held after some steps. -/
def held (source : String) (steps : List Step) : String :=
  steps.foldl (fun | _, .replace text => text | source, _ => source) source

/-- The source text that is held when the first token of a reader is asked for. -/
def begun (source : String) (steps : List Step) (i : Nat) : String :=
  held source (steps.takeWhile (· ≠ .next i))

/-- A reader after some steps. -/
def readerAfter (source : String) (past : List Step) (i : Nat) : Reader :=
  if .next i ∈ past then
    .running ((Stream.ofSource (begun source past i)).pulled (past.count (.next i)))
  else .fresh

/-- A source text and its readers after some steps. -/
def state (source : String) (past : List Step) : Readers :=
  ⟨held source past, (List.range (past.count .add)).map (readerAfter source past)⟩

theorem readers_state (source : String) (past : List Step) :
    (state source past).readers = (List.range (past.count .add)).map (readerAfter source past) :=
  rfl

/-- The answer to a step after others. -/
def answer (source : String) (past : List Step) : Step → Answer
  | .add => .reader (past.count .add)
  | .next i =>
    .token ((Stream.ofSource (begun source past i)).result (past.count (.next i)))
  | .all =>
    let tokenized := tokenize (held source past)
    .tokens (tokenized.fault.elim (.ok tokenized.tokens) .error)
  | .replace _ => .nothing

section

variable {source : String} {past : List Step} {i : Nat}

theorem held_append (source : String) (past steps : List Step) :
    held source (past ++ steps) = held (held source past) steps :=
  List.foldl_append

theorem takeWhile_of_not_mem (h : .next i ∉ past) (steps : List Step) :
    (past ++ steps).takeWhile (· ≠ .next i) = past ++ steps.takeWhile (· ≠ .next i) := by
  refine List.takeWhile_append_of_pos fun step hstep => ?_
  simpa using fun he : step = .next i => h (he ▸ hstep)

theorem begun_of_not_mem (h : .next i ∉ past) : begun source past i = held source past := by
  rw [begun, ← List.append_nil past, takeWhile_of_not_mem h]
  rfl

theorem begun_of_first (h : .next i ∉ past) (steps : List Step) :
    begun source (past ++ .next i :: steps) i = held source past := by
  rw [begun, takeWhile_of_not_mem h, List.takeWhile_cons_of_neg (by simp), List.append_nil]

/-- A reader that has begun keeps to its text. -/
theorem begun_append (h : .next i ∈ past) (steps : List Step) :
    begun source (past ++ steps) i = begun source past i := by
  obtain ⟨before, behind, rfl, hbefore⟩ := List.eq_append_cons_of_mem h
  rw [List.append_assoc, List.cons_append, begun_of_first hbefore, begun_of_first hbefore]

/-- A reader begins with the text that is held. -/
theorem begun_append_next (source : String) (past steps : List Step) (i : Nat) :
    begun source (past ++ .next i :: steps) i = begun source past i := by
  by_cases h : .next i ∈ past
  · exact begun_append h _
  · rw [begun_of_first h, begun_of_not_mem h]

/-- What a reader has still to come. -/
theorem ahead_readerAfter (source : String) (past : List Step) (i : Nat) :
    (state source past).ahead (readerAfter source past i) =
      (Stream.ofSource (begun source past i)).pulled (past.count (.next i)) := by
  unfold readerAfter
  split
  · rfl
  · rename_i h
    rw [begun_of_not_mem h, List.count_eq_zero_of_not_mem h]
    rfl

/-! ## Steps and runs -/

/-- Steps that ask no reader for a token before it is there. -/
def Admissible (steps : List Step) : Prop :=
  ∀ before i behind, steps = before ++ .next i :: behind → i < before.count .add

theorem Admissible.lt_count (h : Admissible past) (hi : .next i ∈ past) :
    i < past.count .add := by
  obtain ⟨before, behind, rfl, -⟩ := List.eq_append_cons_of_mem hi
  rw [List.count_append]
  exact Nat.lt_add_right _ (h before i behind rfl)

theorem Admissible.of_append {steps : List Step} (h : Admissible (past ++ steps)) :
    Admissible past := by
  rintro before i behind rfl
  exact h before i (behind ++ steps) (by simp)

theorem admissible_append_singleton_iff {step : Step} :
    Admissible (past ++ [step]) ↔
      Admissible past ∧ ∀ i, step = .next i → i < past.count .add := by
  refine ⟨fun h => ⟨h.of_append, fun i hi => h past i [] (by rw [hi])⟩, ?_⟩
  rintro ⟨h, hstep⟩ before i behind heq
  rcases List.eq_nil_or_concat behind with rfl | ⟨behind, last, rfl⟩
  · obtain ⟨rfl, hlast⟩ := List.append_inj' heq rfl
    exact hstep i (List.head_eq_of_cons_eq hlast)
  · rw [List.concat_eq_append, ← List.cons_append, ← List.append_assoc] at heq
    obtain ⟨rfl, -⟩ := List.append_inj' heq rfl
    exact h before i behind rfl

/-- To leave a step on a reader out keeps steps admissible. -/
theorem Admissible.remove {before behind : List Step}
    (h : Admissible (before ++ .next i :: behind)) : Admissible (before ++ behind) := by
  intro front k back heq
  rcases List.append_eq_append_iff.1 heq with ⟨middle, rfl, rfl⟩ | ⟨middle, rfl, hback⟩
  · have hlt := h (before ++ .next i :: middle) k back (by simp)
    simpa [List.count_append] using hlt
  · cases middle with
    | nil =>
      have hlt := h (front ++ [.next i]) k back (by simpa using hback.symm)
      simpa [List.count_append] using hlt
    | cons step middle =>
      obtain ⟨rfl, rfl⟩ := List.cons_eq_cons.1 hback
      exact h front k (middle ++ .next i :: behind) (by simp)

theorem readerAfter_append_singleton {step : Step} (h : step ≠ .next i) :
    readerAfter source (past ++ [step]) i = readerAfter source past i := by
  by_cases hi : .next i ∈ past
  · simp [readerAfter, hi, begun_append, h]
  · simp [readerAfter, hi, h.symm]

/-- Where no reader is added or asked, they stay as they are. -/
theorem readers_state_of_ne {step : Step} (ha : step ≠ .add) (hn : ∀ i, step ≠ .next i) :
    (state source (past ++ [step])).readers = (state source past).readers := by
  have hcount : (past ++ [step]).count .add = past.count .add := by simp [ha]
  rw [readers_state, readers_state, hcount]
  exact List.map_congr_left fun i _ => readerAfter_append_singleton (hn i)

/-- A new reader has not begun. -/
theorem readers_state_add (h : Admissible past) :
    (state source (past ++ [.add])).readers = (state source past).readers ++ [.fresh] := by
  have hcount : (past ++ [Step.add]).count .add = past.count .add + 1 := by simp
  have hnew : .next (past.count .add) ∉ past ++ [.add] := by
    simpa using fun hmem => Nat.lt_irrefl _ (h.lt_count hmem)
  have hold : (List.range (past.count .add)).map (readerAfter source (past ++ [.add])) =
      (List.range (past.count .add)).map (readerAfter source past) :=
    List.map_congr_left fun i _ => readerAfter_append_singleton (by simp)
  rw [readers_state, readers_state, hcount, List.range_succ, List.map_append, List.map_singleton,
    hold, readerAfter, if_neg hnew]

/-- A reader that is asked for a token pulls its text, and no other reader does anything. -/
theorem readers_state_next (source : String) (past : List Step) (i : Nat) :
    (state source (past ++ [.next i])).readers =
      (state source past).readers.set i
        (.running ((Stream.ofSource (begun source past i)).pulled (past.count (.next i) + 1))) := by
  have hcount : (past ++ [Step.next i]).count .add = past.count .add := by simp
  rw [readers_state, readers_state, hcount]
  refine List.ext_getElem? fun j => ?_
  rcases Nat.lt_or_ge j (past.count .add) with hlt | hge
  · rw [List.getElem?_map, List.getElem?_range hlt, Option.map_some]
    by_cases hj : i = j
    · subst hj
      rw [List.getElem?_set_self (by simpa using hlt)]
      simp [readerAfter, begun_append_next]
    · rw [List.getElem?_set_ne hj, List.getElem?_map, List.getElem?_range hlt, Option.map_some,
        readerAfter_append_singleton (by simpa using hj)]
  · rw [List.getElem?_eq_none (by simpa using hge), List.getElem?_eq_none (by simpa using hge)]

theorem state_append_singleton (source : String) (past : List Step) (step : Step) :
    state source (past ++ [step]) =
      ⟨held (held source past) [step], (state source (past ++ [step])).readers⟩ := by
  rw [state, held_append]

/-- A step that names a reader that is there, if it names any, is answered from the past. -/
theorem step_state {step : Step} (h : Admissible past)
    (hstep : ∀ i, step = .next i → i < past.count .add) :
    (state source past).step step =
      some (answer source past step, state source (past ++ [step])) := by
  cases step with
  | add =>
    rw [state_append_singleton, readers_state_add h]
    simp [Readers.step, add, answer, state, held]
  | next i =>
    have hget : (state source past).readers[i]? = some (readerAfter source past i) := by
      simp [readers_state, hstep i rfl]
    rw [state_append_singleton, readers_state_next, Readers.step, next, hget]
    simp only [ahead_readerAfter, Stream.pull_pulled, answer]
    cases hr : (Stream.ofSource (begun source past i)).result (past.count (.next i)) with
    | ok token => rfl
    | error fault =>
      rw [Stream.pulled_succ_of_error hr]
      rfl
  | all =>
    have hall : (state source past).all =
        let tokenized := tokenize (held source past)
        tokenized.fault.elim (.ok tokenized.tokens) .error := Stream.drain_map_some _ _
    rw [state_append_singleton, readers_state_of_ne (by simp) (by simp), Readers.step, hall]
    rfl
  | replace text =>
    rw [state_append_singleton, readers_state_of_ne (by simp) (by simp)]
    rfl

/-- A step that names a reader that is not there has no answer. -/
theorem step_state_eq_none (h : past.count .add ≤ i) :
    (state source past).step (.next i) = none := by
  have hget : (state source past).readers[i]? = none := by simpa [readers_state] using h
  rw [Readers.step, next, hget]
  rfl

theorem resultsOf_cons {step : Step} {steps : List Step} {a : Answer} {answers : List Answer}
    (h : step ≠ .next i) :
    resultsOf i (step :: steps) (a :: answers) = resultsOf i steps answers := by
  cases step with
  | next j =>
    have hne : j ≠ i := by simpa using h
    cases a <;> simp [resultsOf, hne]
  | _ => simp [resultsOf]

theorem resultsOf_next (i : Nat) (steps : List Step) (answers : List Answer)
    (result : Except LexicalFault (Option Token)) :
    resultsOf i (.next i :: steps) (.token result :: answers) =
      result :: resultsOf i steps answers := by
  simp [resultsOf]

/-- Steps are answered if they are admissible, and only then. -/
theorem run_state_isSome_iff (h : Admissible past) (steps : List Step) :
    ((state source past).run steps).isSome ↔ Admissible (past ++ steps) := by
  induction steps generalizing past with
  | nil => simp [run, h]
  | cons step steps ih =>
    by_cases hstep : ∀ i, step = .next i → i < past.count .add
    · rw [List.append_cons, run, step_state h hstep, Option.isSome_map,
        ih (admissible_append_singleton_iff.2 ⟨h, hstep⟩)]
    · have hnone : (state source past).step step = none := by
        simp only [not_forall, Nat.not_lt] at hstep
        obtain ⟨i, rfl, hge⟩ := hstep
        exact step_state_eq_none hge
      have hnot : ¬ Admissible (past ++ step :: steps) := by
        rw [List.append_cons]
        exact fun hsteps => hstep (admissible_append_singleton_iff.1 hsteps.of_append).2
      simp [run, hnone, hnot]

/-- A run that goes on from the past answers its first step from it and the others from there. -/
theorem run_state_cons {step : Step} {steps : List Step} {answers : List Answer} {last : Readers}
    (hpast : Admissible past)
    (h : (state source past).run (step :: steps) = some (answers, last)) :
    ∃ more, answers = answer source past step :: more ∧ Admissible (past ++ [step]) ∧
      (state source (past ++ [step])).run steps = some (more, last) := by
  have hadmissible : Admissible (past ++ [step]) := by
    have hsome := (run_state_isSome_iff hpast (step :: steps)).1 (by rw [h]; rfl)
    rw [List.append_cons] at hsome
    exact hsome.of_append
  rw [run, step_state hpast (admissible_append_singleton_iff.1 hadmissible).2] at h
  obtain ⟨⟨more, last'⟩, hrun, heq⟩ := Option.map_eq_some_iff.1 h
  cases heq
  exact ⟨more, rfl, hadmissible, hrun⟩

/-- Each step of a run is answered from the steps before it. -/
theorem answer_of_run {steps : List Step} {answers : List Answer} {last : Readers}
    (hpast : Admissible past) (h : (state source past).run steps = some (answers, last))
    {before behind : List Step} {step : Step} (hsteps : steps = before ++ step :: behind) :
    answers[before.length]? = some (answer source (past ++ before) step) := by
  subst hsteps
  induction before generalizing past answers with
  | nil =>
    obtain ⟨more, rfl, -⟩ := run_state_cons hpast h
    simp
  | cons first before ih =>
    obtain ⟨more, rfl, hadmissible, hrun⟩ := run_state_cons hpast h
    have hanswer := ih hadmissible hrun
    rw [← List.append_cons] at hanswer
    simpa using hanswer

/-- The results of a reader among the answers of a run. -/
theorem resultsOf_run {steps : List Step} {answers : List Answer} {last : Readers}
    (hpast : Admissible past) (h : (state source past).run steps = some (answers, last)) (i : Nat) :
    resultsOf i steps answers = (List.range (steps.count (.next i))).map fun n =>
      (Stream.ofSource (begun source (past ++ steps) i)).result (past.count (.next i) + n) := by
  induction steps generalizing past answers with
  | nil => rfl
  | cons step steps ih =>
    obtain ⟨more, rfl, hadmissible, hrun⟩ := run_state_cons hpast h
    have hmore := ih hadmissible hrun
    rw [← List.append_cons] at hmore
    by_cases hstep : step = .next i
    · subst hstep
      have hcount : (past ++ [Step.next i]).count (.next i) = past.count (.next i) + 1 := by simp
      have hfirst := begun_append_next source past steps i
      rw [answer, resultsOf_next, hmore, hcount, List.count_cons_self, List.range_succ_eq_map,
        List.map_cons, List.map_map, ← hfirst, Nat.add_zero]
      refine congrArg _ (List.map_congr_left fun n _ => ?_)
      rw [Function.comp_apply, Nat.succ_eq_add_one, Nat.add_right_comm, Nat.add_assoc]
    · have hcount : (past ++ [step]).count (.next i) = past.count (.next i) := by simp [hstep]
      rw [resultsOf_cons hstep, hmore, hcount, List.count_cons_of_ne hstep]

end

/-! ## Runs from the beginning -/

/-- The text with which a reader begins does not depend on what other readers are asked for. -/
theorem begun_remove {i k : Nat} (h : k ≠ i) (source : String) (before behind : List Step) :
    begun source (before ++ .next i :: behind) k = begun source (before ++ behind) k := by
  by_cases hmem : .next k ∈ before
  · rw [begun_append hmem, begun_append hmem]
  · rw [begun, begun, takeWhile_of_not_mem hmem, takeWhile_of_not_mem hmem,
      List.takeWhile_cons_of_pos (by simpa using Ne.symm h), held_append, held_append]
    rfl

/-- Readers of one source text, in whatever order they are asked.  The results of a reader are the
tokens of the text that was held when it was asked first, then the fault of that text once, then
nothing; all tokens are those of the text that is held, or its fault; and a step on a reader could
be left out for all that the others notice. -/
theorem results_of_run (source : String) (steps : List Step) :
    (((ofSource source).run steps).isSome ↔ Admissible steps) ∧
    ∀ answers last, (ofSource source).run steps = some (answers, last) →
      (∀ i, resultsOf i steps answers = (List.range (steps.count (.next i))).map
        (tokenize (begun source steps i)).result) ∧
      (∀ before behind, steps = before ++ .all :: behind →
        let tokenized := tokenize (held source before)
        answers[before.length]? =
          some (.tokens (tokenized.fault.elim (.ok tokenized.tokens) .error))) ∧
      ∀ before i behind, steps = before ++ .next i :: behind →
        ∃ answers' last', (ofSource source).run (before ++ behind) = some (answers', last') ∧
          ∀ k, k ≠ i → resultsOf k (before ++ behind) answers' = resultsOf k steps answers := by
  have hnil : Admissible [] := by
    intro before i behind h
    simp at h
  have hsome : ∀ steps, ((ofSource source).run steps).isSome ↔ Admissible steps :=
    run_state_isSome_iff hnil
  refine ⟨hsome steps, fun answers last h => ?_⟩
  have hstate : (state source []).run steps = some (answers, last) := h
  have hresults := resultsOf_run hnil hstate
  simp only [List.nil_append, List.count_nil, Nat.zero_add] at hresults
  refine ⟨fun i => ?_, fun before behind hsteps => ?_, ?_⟩
  · rw [hresults, Stream.result_ofSource]
  · exact answer_of_run hnil hstate hsteps
  · rintro before i behind rfl
    have hadmissible := (hsome (before ++ .next i :: behind)).1 (Option.isSome_of_mem h)
    obtain ⟨⟨answers', last'⟩, hrun⟩ :=
      Option.isSome_iff_exists.1 ((hsome (before ++ behind)).2 hadmissible.remove)
    refine ⟨answers', last', hrun, fun k hk => ?_⟩
    have hcount : (before ++ .next i :: behind).count (.next k) =
        (before ++ behind).count (.next k) := by
      rw [List.count_append, List.count_append, List.count_cons_of_ne (by simpa using Ne.symm hk)]
    have hremoved := resultsOf_run hnil (show (state source []).run _ = _ from hrun) k
    simp only [List.nil_append, List.count_nil, Nat.zero_add] at hremoved
    rw [hremoved, hresults, hcount, begun_remove hk]

/-- A reader that has begun with one text meets its fault after the text has been replaced, and
another reader goes through the new text; neither notices the other. -/
theorem results_of_run_of_replace :
    let steps : List Step :=
      [.add, .next 0, .replace "y", .add, .next 1, .next 0, .all, .next 0, .next 1]
    let fewer : List Step :=
      [.add, .next 0, .replace "y", .add, .next 0, .all, .next 0, .next 1]
    ∃ answers last, (ofSource "x !").run steps = some (answers, last) ∧
      resultsOf 0 steps answers = [.ok (some ⟨.identifier, "x", ⟨1, 1⟩⟩),
        .error ⟨.unknownCharacter "!", ⟨1, 3⟩⟩, .ok none] ∧
      resultsOf 1 steps answers = [.ok (some ⟨.identifier, "y", ⟨1, 1⟩⟩), .ok none] ∧
      answers[6]? = some (.tokens (.ok [⟨.identifier, "y", ⟨1, 1⟩⟩])) ∧
      ∃ answers' last', (ofSource "x !").run fewer = some (answers', last') ∧
        resultsOf 0 fewer answers' = resultsOf 0 steps answers := by
  intro steps fewer
  have hsome : ((ofSource "x !").run steps).isSome := by decide +kernel
  obtain ⟨⟨answers, last⟩, hrun⟩ := Option.isSome_iff_exists.1 hsome
  obtain ⟨hresults, hall, hremove⟩ := (results_of_run "x !" steps).2 answers last hrun
  obtain ⟨answers', last', hrun', hothers⟩ :=
    hremove [.add, .next 0, .replace "y", .add] 1 [.next 0, .all, .next 0, .next 1] rfl
  refine ⟨answers, last, hrun, ?_, ?_, ?_, answers', last', hrun', hothers 0 (by decide)⟩
  · rw [hresults]
    decide +kernel
  · rw [hresults]
    decide +kernel
  · have hlist := hall [.add, .next 0, .replace "y", .add, .next 1, .next 0] _ rfl
    refine hlist.trans ?_
    decide +kernel

end Readers

end MiniLang
