import Mathlib.Control.Monad.Basic
import MiniLang.Proofs.Lockstep
import MiniLang.Proofs.WellFormed
/-!
# Progress

Whatever the stream, reading comes to an end, and it gets on.  `Phrase.runWithin` gives up after a
number of phrases one within the other, which a phrase that is read in place of the rest of another
is as well; a number that grows with what is left of the window is always enough
(`Phrase.runWithin_eq`).  `Window.Moves` says which tokens a reading has passed: one at least if a
phrase is read that is more than a sentence, and one at least in every round of a loop that goes on
(`Loop.exists_moves_of_round`).
-/

set_option autoImplicit false

namespace MiniLang

/-! ## Reading that may give up -/

/-- Goes on from an outcome, if there is one. -/
def Outcome.andThen? {α β : Type} (outcome : Option (Outcome α))
    (go : α → Window → Option (Outcome β)) : Option (Outcome β) :=
  match outcome with
  | none => none
  | some (.ok a w) => go a w
  | some (.fail fault w) => some (.fail fault w)

theorem Outcome.andThen?_eq {α β : Type} {outcome : Option (Outcome α)} {o : Outcome α}
    {go : α → Window → Option (Outcome β)} {go' : α → Window → Outcome β} (h : outcome = some o)
    (hgo : ∀ a w, o = .ok a w → go a w = some (go' a w)) :
    andThen? outcome go = some (o.andThen go') := by
  subst h
  cases o with
  | ok a w => exact hgo a w rfl
  | fail fault w => rfl

/-- Carries out a plan with given readings of phrases and of parameters, which may give up. -/
def Plan.runWith {α : Type} (phrase : Phrase → Window → Option (Outcome Node))
    (parameters : List Node → Window → Option (Outcome (List Node))) :
    Plan α → Window → Option (Outcome α)
  | .done value, w => some (.ok value w)
  | .complain complaint, w => some (.fail (complaint.fault w) w)
  | .look go, w =>
    (go (w.current.map Token.unplaced) (w.next.map Token.unplaced)).runWith phrase parameters w
  | .advance go, w =>
    Outcome.andThen? (some w.advance) fun _ w₁ => go.runWith phrase parameters w₁
  | .phrase p go, w =>
    Outcome.andThen? (phrase p w) fun node w₁ => (go node).runWith phrase parameters w₁
  | .parameters read go, w =>
    Outcome.andThen? (parameters read w) fun nodes w₁ => (go nodes).runWith phrase parameters w₁

/-- Reads the parameters behind those that have been read, but gives up after `rounds` of them. -/
def parametersWithin : (rounds : Nat) → List Node → Window → Option (Outcome (List Node))
  | 0, _, _ => none
  | rounds + 1, read, w =>
    if w.reads "," then
      Outcome.andThen? (some (w.accept ",")) fun _ w₁ =>
        Outcome.andThen? (some w₁.identifier) fun parameter w₂ =>
          parametersWithin rounds (read ++ [parameter]) w₂
    else some (.ok read w)

/-- Reads a phrase, but gives up where more than `depth` phrases would be one within the other. -/
def Phrase.runWithin : (depth : Nat) → Phrase → Window → Option (Outcome Node)
  | 0, _, _ => none
  | depth + 1, phrase, w =>
    phrase.plan.runWith (Phrase.runWithin depth) (parametersWithin (depth + 1)) w

/-- Reads the items of a program behind those that have been read, but gives up after `rounds`
items, or where one of them would be too deep. -/
def itemsWithin : (rounds : Nat) → List Node → Window → Option (Outcome Node)
  | 0, _, _ => none
  | rounds + 1, items, w =>
    match w.current with
    | none => some (.ok (.program items) w)
    | some t =>
      Outcome.andThen? (t.topLevel.runWithin rounds w) fun node w₁ =>
        itemsWithin rounds (if node = .absent then items else items ++ [node]) w₁

/-- Reads the program of a stream, but may give up. -/
def parseWithin (rounds : Nat) (stream : Stream) : Option (Except Fault Node) :=
  match Window.start stream with
  | .error fault => some (.error (.lexical fault))
  | .ok w => (itemsWithin rounds [] w).map Outcome.result

theorem parametersWithin_eq {rounds : Nat} {w : Window} (h : w.left < rounds) (read : List Node) :
    parametersWithin rounds read w = some (runMoreParameters read w) := by
  induction rounds generalizing read w with
  | zero => omega
  | succ rounds ih =>
    rw [parametersWithin, runMoreParameters_eq]
    split
    · refine Outcome.andThen?_eq rfl fun _ w₁ h₁ => ?_
      refine Outcome.andThen?_eq rfl fun parameter w₂ h₂ => ?_
      have hw₁ := (Window.within_accept w ",").left_le h₁
      have hw₂ := (Window.within_identifier w₁).left_le h₂
      exact ih (by omega) _
    · rfl

/-- A guarded plan is carried out to its end if the phrases are that are below its bound, each token
that is left counting for twelve ranks. -/
theorem Plan.runWith_eq {α : Type} {plan : Plan α} {bound measure : Nat} {seen : Bool} {w : Window}
    {phrase : Phrase → Window → Option (Outcome Node)}
    {parameters : List Node → Window → Option (Outcome (List Node))}
    (hg : plan.Guarded bound seen) (hm : 12 * w.left + bound ≤ measure)
    (hs : seen = true → w.current.isSome)
    (hphrase : ∀ (p : Phrase) (w : Window), 12 * w.left + p.rank < measure →
      phrase p w = some (p.run w))
    (hparameters : ∀ (read : List Node) (w : Window), 12 * w.left ≤ measure →
      parameters read w = some (runMoreParameters read w)) :
    plan.runWith phrase parameters w = some (plan.run w) := by
  induction plan generalizing bound seen w with
  | done value => rfl
  | complain complaint => rfl
  | look go ih => exact ih _ _ (hg _ _) hm (by simp)
  | advance go ih =>
    refine Outcome.andThen?_eq rfl fun _ w₁ hw => ih hg.2 ?_ (fun hf => Bool.noConfusion hf)
    have := (Window.within_advance (hs hg.1)).left_le hw
    omega
  | phrase p go ih =>
    have hp := hphrase p w (by have := hg.1; omega)
    refine Outcome.andThen?_eq hp fun node w₁ hr =>
      ih node (hg.2 node) ?_ (fun hf => Bool.noConfusion hf)
    have := (p.within_run w).left_le hr
    omega
  | parameters read go ih =>
    refine Outcome.andThen?_eq (hparameters read w (by omega)) fun nodes w₁ hr =>
      ih nodes (hg nodes) ?_ (fun hf => Bool.noConfusion hf)
    have := (within_runMoreParameters read w).left_le hr
    omega

/-- Reading a phrase needs no more depth than twelve for each token that is left, and its rank. -/
theorem Phrase.runWithin_eq {depth : Nat} {phrase : Phrase} {w : Window}
    (h : 12 * w.left + phrase.rank < depth) : phrase.runWithin depth w = some (phrase.run w) := by
  induction depth generalizing phrase w with
  | zero => omega
  | succ depth ih =>
    rw [runWithin, phrase.run_eq]
    exact Plan.runWith_eq phrase.guarded_plan (Nat.le_of_lt_succ h) (fun hf => Bool.noConfusion hf)
      (fun p w₁ => ih) fun read w₁ hw₁ => parametersWithin_eq (by omega) read

theorem Token.rank_topLevel_lt (t : Token) : t.topLevel.rank < 12 :=
  t.topLevel_cases (P := fun p => p.rank < 12) (by decide) (by decide) (by decide) (by decide)

theorem itemsWithin_eq {rounds : Nat} {w : Window} (h : 12 * w.left + 12 < rounds)
    (items : List Node) : itemsWithin rounds items w = some (readItems items w).outcome := by
  induction rounds generalizing items w with
  | zero => omega
  | succ rounds ih =>
    rw [itemsWithin, outcome_readItems]
    cases hc : w.current with
    | none => rfl
    | some t =>
      have ht := t.rank_topLevel_lt
      refine Outcome.andThen?_eq (Phrase.runWithin_eq (by omega)) fun node w₁ hr => ?_
      have hw := (Token.within_run_topLevel hc).left_le hr
      rw [ih (by omega)]
      split <;> rfl

/-- A window at the front of a stream has no more in view and ahead than the stream gives. -/
theorem Window.left_of_start {stream : Stream} {w : Window} (h : start stream = .ok w) :
    w.left ≤ stream.length := by
  obtain ⟨tokens, fault⟩ := stream
  match tokens, fault with
  | [], none => cases h; exact Nat.le_refl 0
  | [], some _ => cases h
  | [none], none => cases h; exact Nat.zero_le 1
  | [some _], none => cases h; exact Nat.le_refl 1
  | [_], some _ => cases h
  | t :: u :: tokens, fault =>
    cases h
    simp only [left, Stream.length, List.length_cons]
    split <;> split <;> omega

theorem parseWithin_eq {rounds : Nat} {stream : Stream} (h : 12 * stream.length + 12 < rounds) :
    parseWithin rounds stream = some (parse stream) := by
  unfold parseWithin parse
  cases hw : Window.start stream with
  | error fault => rfl
  | ok w =>
    have hleft := Window.left_of_start hw
    have hitems := itemsWithin_eq (show 12 * w.left + 12 < rounds by omega) []
    simp only [hitems, Option.map_some, Window.program_eq]

/-! ## Tokens that are passed -/

/-- A window moves past tokens, one after the other. -/
inductive Window.Moves : Window → List Token → Window → Prop where
  | none {w : Window} : Moves w [] w
  | cons {w w₁ w₂ : Window} {t : Token} {ts : List Token} (hc : w.current = some t)
      (ha : w.advance = .ok () w₁) (h : Moves w₁ ts w₂) : Moves w (t :: ts) w₂

namespace Window.Moves

variable {w w₁ w₂ : Window} {ts us : List Token}

theorem append (h : w.Moves ts w₁) (h' : w₁.Moves us w₂) : w.Moves (ts ++ us) w₂ := by
  induction h with
  | none => exact h'
  | cons hc ha _ ih => exact .cons hc ha (ih h')

theorem one {t : Token} (hc : w.current = some t) (ha : w.advance = .ok () w₁) : w.Moves [t] w₁ :=
  .cons hc ha .none

/-- Every token that is passed leaves less. -/
theorem left_le (h : w.Moves ts w₁) : w₁.left + ts.length ≤ w.left := by
  induction h with
  | none => exact Nat.le_refl _
  | @cons w _ _ t _ hc ha _ ih =>
    have hs : w.current.isSome := by simp [hc]
    have := (within_advance hs).left_le ha
    rw [List.length_cons]
    omega

/-- If less is left, some token has been passed. -/
theorem ne_nil (h : w.Moves ts w₁) (hl : w₁.left < w.left) : ts ≠ [] := by
  rintro rfl
  cases h
  exact Nat.lt_irrefl _ hl

end Window.Moves

/-- Reading moves a window past tokens as long as there is no fault. -/
def moving (w₀ : Window) : Lockstep where
  level w w' := w = w' ∧ ∃ ts, w₀.Moves ts w
  apart o _ := ∃ fault w, o = .fail fault w
  same_view := by
    rintro w _ ⟨rfl, _⟩
    exact ⟨rfl, rfl⟩
  complain := fun _ _ => ⟨_, _, rfl⟩
  advance := by
    rintro w _ ⟨rfl, ts, hts⟩ hc
    obtain ⟨t, ht⟩ := Option.isSome_iff_exists.1 hc
    cases ha : w.advance with
    | ok u w₁ => exact .inl ⟨w₁, w₁, rfl, rfl, rfl, ts ++ [t], hts.append (.one ht ha)⟩
    | fail fault w₁ => exact .inr ⟨fault, w₁, rfl⟩
  stay := by
    rintro α β o o' go ⟨fault, w, rfl⟩ _
    exact ⟨fault, w, rfl⟩

/-- A plan that ends with a value has moved the window past tokens. -/
theorem Plan.Ends.exists_moves {α : Type} {plan : Plan α} {w w₁ : Window} {a : α}
    (he : plan.Ends w) (h : plan.run w = .ok a w₁) : ∃ ts, w.Moves ts w₁ := by
  have hrun : (moving w).Agree (plan.run w) (plan.run w) :=
    Lockstep.run_plan he ⟨rfl, [], .none⟩
  rw [h] at hrun
  cases hrun with
  | level hl => exact hl.2
  | apart ha =>
    obtain ⟨_, _, hf⟩ := ha
    cases hf

namespace Phrase

/-- So has a phrase that is read. -/
theorem exists_moves_of_run {phrase : Phrase} {w w₁ : Window} {node : Node}
    (h : phrase.run w = .ok node w₁) : ∃ ts, w.Moves ts w₁ :=
  (phrase.ends w).exists_moves (phrase.run_eq w ▸ h)

/-- If less is left then, there is a token that has been passed. -/
theorem exists_moves_of_left {phrase : Phrase} {w w₁ : Window} {node : Node}
    (h : phrase.run w = .ok node w₁) (hl : w₁.left < w.left) : ∃ t ts, w.Moves (t :: ts) w₁ := by
  obtain ⟨ts, hts⟩ := exists_moves_of_run h
  obtain ⟨t, ts, rfl⟩ := List.exists_cons_of_ne_nil (hts.ne_nil hl)
  exact ⟨t, ts, hts⟩

/-- So there is if the phrase takes a token at least. -/
theorem exists_moves_of_least {phrase : Phrase} {w w₁ : Window} {node : Node}
    (h : phrase.run w = .ok node w₁) (hl : 1 ≤ phrase.least) : ∃ t ts, w.Moves (t :: ts) w₁ := by
  have hw := (phrase.within_run w).left_le h
  exact exists_moves_of_left h (by omega)

/-- Operands, and chains of expressions. -/
def IsExpression : Phrase → Prop
  | .primary => True
  | .chain _ operand => operand.IsExpression
  | _ => False

/-- Phrases that are read from their first token on, sentences aside, which may hold none.  A chain
is one of them if its operands are expressions. -/
def IsWhole : Phrase → Prop
  | .chain _ operand => operand.IsExpression
  | .chained .. => False
  | .arguments .. => False
  | .statements _ => False
  | .sentence => False
  | _ => True

theorem IsExpression.least {phrase : Phrase} (h : phrase.IsExpression) : phrase.least = 1 := by
  fun_induction IsExpression phrase with
  | case1 => rfl
  | case2 operators operand ih => exact ih h
  | case3 => exact h.elim

theorem IsWhole.least {phrase : Phrase} (h : phrase.IsWhole) : phrase.least = 1 := by
  cases phrase with
  | chain operators operand =>
    have hoperand : operand.IsExpression := h
    exact hoperand.least
  | chained => exact h.elim
  | sentence => exact h.elim
  | _ => rfl

/-- A sentence that is no node has passed semicolons alone, and no token is in view behind them or
one that opens a block. -/
theorem exists_moves_of_absent {w w₁ : Window} (h : Phrase.sentence.run w = .ok .absent w₁) :
    ∃ ts, w.Moves ts w₁ ∧ (∀ t ∈ ts, t.text = ";") ∧
      ∀ t, w₁.current = some t → t.text = "\x7b" := by
  induction hn : w.left using Nat.strongRecOn generalizing w with
  | ind n ih =>
    rw [run_sentence] at h
    split at h
    · rename_i hr
      obtain ⟨_, w₂, ha, h⟩ := Outcome.andThen_eq_ok.1 h
      have hw := (Window.within_accept w ";").left_le ha
      obtain ⟨ts, hts, hsemicolons, hc⟩ := ih w₂.left (by omega) h rfl
      obtain ⟨t, ht, htext⟩ := Window.current_of_reads hr
      rw [Window.accept, if_pos hr] at ha
      exact ⟨t :: ts, .cons ht ha hts, List.forall_mem_cons.2 ⟨htext, hsemicolons⟩, hc⟩
    · split at h
      · rename_i hc
        cases h
        refine ⟨[], .none, by simp, fun t ht => ?_⟩
        simpa [ht, Window.reads] using hc
      · exact absurd h (run_statement_ne_absent w w₁)

end Phrase

/-! ## Loops -/

/-- The loops of the reader, each with what it has read so far and the type of what it reads. -/
inductive Loop : Type → Type where
  /-- The items of a program. -/
  | items (read : List Node) : Loop Node
  /-- The statements of a block. -/
  | statements (body : List Node) : Loop Node
  /-- The semicolons in front of a sentence. -/
  | separators : Loop Node
  /-- The arguments of a call behind the first one. -/
  | arguments (name : Node) (args : List Node) : Loop Node
  /-- The parameters of a declaration behind the first one. -/
  | parameters (read : List Node) : Loop (List Node)
  /-- Operators with an operand each. -/
  | chained (operators : List String) (operand : Phrase) (left : Node) : Loop Node

namespace Loop

variable {α : Type}

/-- One round: the loop with what has been read then, or none where it does not go on. -/
def round (loop : Loop α) (w : Window) : Outcome (Option (Loop α)) :=
  match loop with
  | .items read =>
    match w.current with
    | none => .ok none w
    | some t =>
      (t.topLevel.run w).andThen fun node w₁ =>
        .ok (some (.items (if node = .absent then read else read ++ [node]))) w₁
  | .statements body =>
    if w.current.isNone ∨ w.reads "\x7d" then .ok none w
    else if w.reads ";" then w.advance.andThen fun _ w₁ => .ok (some (.statements body)) w₁
    else if w.reads "\x7b" then
      (Phrase.block.run w).andThen fun node w₁ => .ok (some (.statements (body ++ [node]))) w₁
    else
      (Phrase.sentence.run w).andThen fun node w₁ => .ok (some (.statements (body ++ [node]))) w₁
  | .separators =>
    if w.reads ";" then w.advance.andThen fun _ w₁ => .ok (some .separators) w₁ else .ok none w
  | .arguments name args =>
    if w.reads "," then
      w.advance.andThen fun _ w₁ =>
        (Phrase.expression.run w₁).andThen fun argument w₂ =>
          .ok (some (.arguments name (args ++ [argument]))) w₂
    else .ok none w
  | .parameters read =>
    if w.reads "," then
      w.advance.andThen fun _ w₁ =>
        w₁.identifier.andThen fun parameter w₂ => .ok (some (.parameters (read ++ [parameter]))) w₂
    else .ok none w
  | .chained operators operand left =>
    match w.current with
    | none => .ok none w
    | some t =>
      if t.text ∈ operators then
        w.advance.andThen fun _ w₁ =>
          (operand.run w₁).andThen fun right w₂ =>
            .ok (some (.chained operators operand (.binary left t.text right))) w₂
      else .ok none w

/-- What comes behind the last round. -/
def leave (loop : Loop α) (w : Window) : Outcome α :=
  match loop with
  | .items read => .ok (.program read) w
  | .statements body => (w.accept "\x7d").andThen fun _ w₁ => .ok (.block body) w₁
  | .separators =>
    if w.current.isNone ∨ w.reads "\x7b" then .ok .absent w else Phrase.statement.run w
  | .arguments name args => (w.accept ")").andThen fun _ w₁ => .ok (.call name args) w₁
  | .parameters read => .ok read w
  | .chained _ _ left => .ok left w

/-- What is read from the loop on. -/
def run (loop : Loop α) (w : Window) : Outcome α :=
  match loop with
  | .items read => (readItems read w).outcome
  | .statements body => (Phrase.statements body).run w
  | .separators => Phrase.sentence.run w
  | .arguments name args => (Phrase.arguments name args).run w
  | .parameters read => runMoreParameters read w
  | .chained operators operand left => (Phrase.chained operators operand left).run w

/-- What a loop reads is read round by round. -/
theorem run_eq (loop : Loop α) (w : Window) :
    loop.run w =
      (loop.round w).andThen fun next w₁ =>
        match next with
        | some loop' => loop'.run w₁
        | none => loop.leave w₁ := by
  cases loop with
  | items read =>
    rw [run, outcome_readItems, round]
    cases w.current with
    | none => rfl
    | some t =>
      rw [Outcome.andThen_assoc]
      refine congrArg (Outcome.andThen _) (funext fun node => funext fun w₁ => ?_)
      split <;> rfl
  | statements body =>
    rw [run, Phrase.run_statements_sentence, round]
    by_cases hend : w.current.isNone ∨ w.reads "\x7d"
    · simp only [if_pos hend]
      rfl
    · by_cases hsemicolon : w.reads ";" = true
      · simp only [if_neg hend, if_pos hsemicolon, Window.accept, Outcome.andThen_assoc]
        rfl
      · by_cases hblock : w.reads "\x7b" = true
        · simp only [if_neg hend, if_neg hsemicolon, if_pos hblock, Outcome.andThen_assoc]
          rfl
        · simp only [if_neg hend, if_neg hsemicolon, if_neg hblock, Outcome.andThen_assoc]
          rfl
  | separators =>
    rw [run, Phrase.run_sentence, round]
    split
    · rename_i hr
      rw [Window.accept, if_pos hr, Outcome.andThen_assoc]
      rfl
    · rfl
  | arguments name args =>
    rw [run, Phrase.run_arguments, round]
    split
    · rename_i hr
      rw [Window.accept, if_pos hr]
      simp only [Outcome.andThen_assoc]
      rfl
    · rfl
  | parameters read =>
    rw [run, runMoreParameters_eq, round]
    split
    · rename_i hr
      rw [Window.accept, if_pos hr]
      simp only [Outcome.andThen_assoc]
      rfl
    · rfl
  | chained operators operand left =>
    rw [run, Phrase.run_chained, round]
    cases w.current with
    | none => rfl
    | some t =>
      simp only
      split
      · simp only [Outcome.andThen_assoc]
        rfl
      · rfl

/-- A round that goes on has passed a token. -/
theorem exists_moves_of_round {loop loop' : Loop α} {w w₁ : Window}
    (h : loop.round w = .ok (some loop') w₁) : ∃ t ts, w.Moves (t :: ts) w₁ := by
  -- rounds that begin with an operator, or with a mark
  have hoperator : ∀ {t : Token} {u : Unit} {w₂ : Window}, w.current = some t →
      w.advance = .ok u w₂ → (∃ ts, w₂.Moves ts w₁) → ∃ t ts, w.Moves (t :: ts) w₁ :=
    fun hc ha ⟨ts, hts⟩ => ⟨_, ts, .cons hc ha hts⟩
  have hmark : ∀ {text : String} {u : Unit} {w₂ : Window}, w.reads text = true →
      w.advance = .ok u w₂ → (∃ ts, w₂.Moves ts w₁) → ∃ t ts, w.Moves (t :: ts) w₁ := by
    intro text u w₂ hr ha hmoves
    obtain ⟨t, hc, _⟩ := Window.current_of_reads hr
    exact hoperator hc ha hmoves
  cases loop with
  | items read =>
    rw [round] at h
    split at h
    · cases h
    · rename_i t hc
      obtain ⟨node, w₂, hr, h⟩ := Outcome.andThen_eq_ok.1 h
      cases h
      exact Phrase.exists_moves_of_left hr ((Token.within_run_topLevel hc).left_le hr)
  | statements body =>
    rw [round] at h
    split at h
    · cases h
    · rename_i hend
      split at h
      · rename_i hmarked
        obtain ⟨_, w₂, ha, h⟩ := Outcome.andThen_eq_ok.1 h
        cases h
        exact hmark hmarked ha ⟨[], .none⟩
      · split at h
        · obtain ⟨node, w₂, hr, h⟩ := Outcome.andThen_eq_ok.1 h
          cases h
          exact Phrase.exists_moves_of_least hr (Nat.le_refl 1)
        · rename_i hblock
          obtain ⟨node, w₂, hr, h⟩ := Outcome.andThen_eq_ok.1 h
          cases h
          cases hc : w.current with
          | none => simp [hc] at hend
          | some t =>
            have ht : t.text ≠ "\x7b" := by simpa [Window.reads, hc] using hblock
            exact Phrase.exists_moves_of_left hr ((Phrase.within_run_sentence hc ht).left_le hr)
  | separators =>
    rw [round] at h
    split at h
    · rename_i hmarked
      obtain ⟨_, w₂, ha, h⟩ := Outcome.andThen_eq_ok.1 h
      cases h
      exact hmark hmarked ha ⟨[], .none⟩
    · cases h
  | arguments name args =>
    rw [round] at h
    split at h
    · rename_i hmarked
      obtain ⟨_, w₂, ha, h⟩ := Outcome.andThen_eq_ok.1 h
      obtain ⟨argument, w₃, hr, h⟩ := Outcome.andThen_eq_ok.1 h
      cases h
      exact hmark hmarked ha (Phrase.exists_moves_of_run hr)
    · cases h
  | parameters read =>
    rw [round] at h
    split at h
    · rename_i hmarked
      obtain ⟨_, w₂, ha, h⟩ := Outcome.andThen_eq_ok.1 h
      obtain ⟨parameter, w₃, hr, h⟩ := Outcome.andThen_eq_ok.1 h
      cases h
      rw [← Phrase.run_identifier] at hr
      exact hmark hmarked ha (Phrase.exists_moves_of_run hr)
    · cases h
  | chained operators operand left =>
    rw [round] at h
    split at h
    · cases h
    · rename_i t hc
      split at h
      · obtain ⟨_, w₂, ha, h⟩ := Outcome.andThen_eq_ok.1 h
        obtain ⟨right, w₃, hr, h⟩ := Outcome.andThen_eq_ok.1 h
        cases h
        exact hoperator hc ha (Phrase.exists_moves_of_run hr)
      · cases h

end Loop

/-- Reading ends and gets on, whatever a stream holds.  Every phrase, every program and every stream
is read within a depth that grows with the tokens that are left.  A phrase that is read from its
first token on, sentences aside, passes a token.  A sentence may be no node; then it has passed
semicolons alone, and no token is in view or one that opens a block.  And what a loop reads is read
in rounds, of which each that goes on passes a token and leaves less. -/
theorem reading_progress :
    (∀ (phrase : Phrase) (w : Window) (depth : Nat), 12 * w.left + phrase.rank < depth →
      phrase.runWithin depth w = some (phrase.run w)) ∧
    (∀ (w : Window) (rounds : Nat), 12 * w.left + 12 < rounds →
      itemsWithin rounds [] w = some w.program) ∧
    (∀ (stream : Stream) (rounds : Nat), 12 * stream.length + 12 < rounds →
      parseWithin rounds stream = some (parse stream)) ∧
    (∀ (phrase : Phrase) (w w₁ : Window) (node : Node), phrase.IsWhole →
      phrase.run w = .ok node w₁ → ∃ t ts, w.Moves (t :: ts) w₁) ∧
    (∀ w w₁ : Window, Phrase.sentence.run w = .ok .absent w₁ →
      ∃ ts, w.Moves ts w₁ ∧ (∀ t ∈ ts, t.text = ";") ∧
        ∀ t, w₁.current = some t → t.text = "\x7b") ∧
    ∀ (α : Type) (loop : Loop α) (w : Window),
      (loop.run w =
        (loop.round w).andThen fun next w₁ =>
          match next with
          | some loop' => loop'.run w₁
          | none => loop.leave w₁) ∧
      ∀ (loop' : Loop α) (w₁ : Window), loop.round w = .ok (some loop') w₁ →
        (∃ t ts, w.Moves (t :: ts) w₁) ∧ w₁.left < w.left := by
  refine ⟨fun phrase w depth => Phrase.runWithin_eq, fun w rounds h => itemsWithin_eq h [],
    fun stream rounds => parseWithin_eq, fun phrase w w₁ node hp h => ?_,
    fun w w₁ => Phrase.exists_moves_of_absent,
    fun α loop w => ⟨loop.run_eq w, fun loop' w₁ h => ?_⟩⟩
  · exact Phrase.exists_moves_of_least h (Nat.le_of_eq hp.least.symm)
  · obtain ⟨t, ts, hts⟩ := Loop.exists_moves_of_round h
    have hleft := hts.left_le
    rw [List.length_cons] at hleft
    exact ⟨⟨t, ts, hts⟩, by omega⟩

/-- A stream with a gap behind a semicolon, a sentence of one semicolon, and a sum of which one
operand has been read. -/
theorem reading_progress_of_gap :
    parseWithin 49 (.ofTokens [some ⟨.special, ";", .start⟩, none,
        some ⟨.identifier, "x", .start⟩]) = some (.ok (.program [])) ∧
      (∃ ts, (Window.facing [⟨.special, ";", .start⟩]).Moves ts (.facing []) ∧
        ∀ t ∈ ts, t.text = ";") ∧
      (∃ t ts, (Window.facing [⟨.integer, "2", .start⟩]).Moves (t :: ts) (.facing [])) ∧
      ∃ loop' : Loop Node,
        (Loop.chained sumOperators .primary (.integer 1)).round
          (.facing [⟨.operation, "+", .start⟩, ⟨.integer, "2", .start⟩]) =
            .ok (some loop') (.facing []) ∧
        (Window.facing []).left <
          (Window.facing [⟨.operation, "+", .start⟩, ⟨.integer, "2", .start⟩]).left := by
  have hoperand : Phrase.primary.run (.facing [⟨.integer, "2", .start⟩]) =
      .ok (.integer 2) (.facing []) := by decide +kernel
  refine ⟨?_, ?_, ?_, ?_⟩
  · rw [reading_progress.2.2.1 _ 49 (by decide)]
    exact congrArg some (by decide +kernel)
  · obtain ⟨ts, hts, hsemicolons, _⟩ := reading_progress.2.2.2.2.1
      (.facing [⟨.special, ";", .start⟩]) (.facing []) (by decide +kernel)
    exact ⟨ts, hts, hsemicolons⟩
  · exact reading_progress.2.2.2.1 .primary _ _ _ trivial hoperand
  · have hround : (Loop.chained sumOperators .primary (.integer 1)).round
        (.facing [⟨.operation, "+", .start⟩, ⟨.integer, "2", .start⟩]) =
          .ok (some (.chained sumOperators .primary (.binary (.integer 1) "+" (.integer 2))))
            (.facing []) := by
      simp [Loop.round, sumOperators, hoperand]
    exact ⟨_, hround, ((reading_progress.2.2.2.2.2 _ _ _).2 _ _ hround).2⟩

end MiniLang
