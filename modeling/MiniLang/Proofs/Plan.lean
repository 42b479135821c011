import MiniLang.Program
/-!
# Plans

What reading a phrase does, as data: it looks at the two tokens in view, whose places it does not
see, moves on, reads phrases, and ends with a value or with a complaint about what is in view.

`Phrase.run_eq` says that reading a phrase carries out its plan.  `Plan.Ends` is the induction that
goes with it: whatever the parts of every plan hand on to the whole is true of every reading.
-/

set_option autoImplicit false

namespace MiniLang

/-! ## What plans are made of -/

/-- What reading complains of. -/
inductive Complaint where
  /-- The current token is not what is called for. -/
  | mismatch (expected : String)
  /-- No statement begins with the current token. -/
  | statement
  /-- No statement goes on with the next token after the current one. -/
  | following
  /-- There is no current token whose text could be taken. -/
  | text
  /-- The token before the current one writes a number with too many digits. -/
  | digits (count : Nat)
  deriving DecidableEq, Repr

/-- The fault of a complaint about what is in view. -/
def Complaint.fault (complaint : Complaint) (w : Window) : Fault :=
  match complaint with
  | .mismatch expected => w.mismatch expected
  | .statement => .syntactic (.expectedStatement w.current)
  | .following => .syntactic (.afterIdentifier w.next)
  | .text => .noToken .text
  | .digits count => .tooManyDigits count

/-- A token without regard to its place. -/
abbrev Token.unplaced (t : Token) : Token := { t with position := .start }

@[simp] theorem Token.operand_unplaced (t : Token) : t.unplaced.operand = t.operand := rfl

/-- What is still to be done to a value. -/
inductive Plan (α : Type) where
  | done (value : α)
  | complain (complaint : Complaint)
  /-- To go on as the two tokens in view tell. -/
  | look (go : Option Token → Option Token → Plan α)
  /-- To move on by one token. -/
  | advance (go : Plan α)
  /-- To read a phrase. -/
  | phrase (phrase : Phrase) (go : Node → Plan α)
  /-- To read the parameters behind those that have been read. -/
  | parameters (read : List Node) (go : List Node → Plan α)

namespace Plan

variable {α : Type}

/-- Carries out a plan. -/
def run : Plan α → Window → Outcome α
  | .done value, w => .ok value w
  | .complain complaint, w => .fail (complaint.fault w) w
  | .look go, w => (go (w.current.map Token.unplaced) (w.next.map Token.unplaced)).run w
  | .advance go, w => w.advance.andThen fun _ w₁ => go.run w₁
  | .phrase p go, w => (p.run w).andThen fun node w₁ => (go node).run w₁
  | .parameters read go, w => (runMoreParameters read w).andThen fun nodes w₁ => (go nodes).run w₁

/-! ## Frequent plans -/

/-- Whether a token is there and has a given text. -/
def reads (text : String) (token : Option Token) : Bool := token.any fun t => t.text = text

/-- To move past a token of a given text. -/
def accept (text : String) (go : Plan α) : Plan α :=
  .look fun current _ =>
    if reads text current then .advance go else .complain (.mismatch text)

/-- To move past an identifier. -/
def identifier (go : Node → Plan α) : Plan α :=
  .look fun current _ =>
    match current with
    | none => .complain (.mismatch "identifier")
    | some t =>
      if t.kind = .identifier then .advance (go (.identifier t.text))
      else .complain (.mismatch "identifier")

/-- The parameters behind those that have been read. -/
def moreParameters (read : List Node) : Plan (List Node) :=
  .look fun current _ =>
    if reads "," current then
      accept "," (identifier fun parameter => .parameters (read ++ [parameter]) .done)
    else .done read

/-- All parameters up to a closing parenthesis. -/
def allParameters (go : List Node → Plan α) : Plan α :=
  .look fun current _ =>
    if reads ")" current then go []
    else identifier fun parameter => .parameters [parameter] go

theorem reads_unplaced (w : Window) (text : String) :
    reads text (w.current.map Token.unplaced) = w.reads text := by
  unfold Window.reads
  cases w.current with
  | none => rfl
  | some t => rfl

theorem reads_next_unplaced (w : Window) (text : String) :
    reads text (w.next.map Token.unplaced) = w.nextReads text := by
  unfold Window.nextReads
  cases w.next with
  | none => rfl
  | some t => rfl

theorem run_ite (c : Prop) [Decidable c] (p q : Plan α) (w : Window) :
    (if c then p else q).run w = if c then p.run w else q.run w :=
  apply_ite (fun plan : Plan α => plan.run w) c p q

/-- To do nothing with a value is to leave it. -/
theorem andThen_ok_self (outcome : Outcome α) :
    (outcome.andThen fun value w => .ok value w) = outcome := by
  cases outcome <;> rfl

theorem run_accept (text : String) (go : Plan α) (w : Window) :
    (accept text go).run w = (w.accept text).andThen fun _ w₁ => go.run w₁ := by
  unfold accept Window.accept
  rw [run, reads_unplaced]
  split <;> rfl

theorem run_identifier (go : Node → Plan α) (w : Window) :
    (identifier go).run w = w.identifier.andThen fun node w₁ => (go node).run w₁ := by
  unfold identifier Window.identifier
  rw [run]
  cases w.current with
  | none => rfl
  | some t =>
    simp only [Option.map_some, run_ite, run]
    split
    · cases w.advance <;> rfl
    · rfl

theorem run_allParameters (go : List Node → Plan α) (w : Window) :
    (allParameters go).run w = (runParameters w).andThen fun nodes w₁ => (go nodes).run w₁ := by
  rw [allParameters, run, runParameters_eq, reads_unplaced]
  split
  · rfl
  · rw [run_identifier]
    cases w.identifier <;> rfl

theorem run_moreParameters (read : List Node) (w : Window) :
    (moreParameters read).run w = runMoreParameters read w := by
  rw [moreParameters, run, runMoreParameters_eq, reads_unplaced]
  split
  · simp only [run_accept, run_identifier, run, andThen_ok_self]
  · rfl

end Plan

/-! ## The plans of the phrases -/

namespace Phrase

open Plan

/-- The plan of a phrase. -/
def plan : Phrase → Plan Node
  | .identifier => Plan.identifier .done
  | .primary =>
    .look fun current _ =>
      match current with
      | none => .complain (.mismatch "expression")
      | some t =>
        .advance
          (if t.text = "(" then .phrase expression fun node => accept ")" (.done node)
          else
            match t.operand with
            | .ok node => .done node
            | .error digits => .complain (.digits digits))
  | .chain operators operand =>
    .phrase operand fun left => .phrase (.chained operators operand left) .done
  | .chained operators operand left =>
    .look fun current _ =>
      match current with
      | none => .done left
      | some t =>
        if t.text ∈ operators then
          .advance (.phrase operand fun right =>
            .phrase (.chained operators operand (.binary left t.text right)) .done)
        else .done left
  | .call =>
    Plan.identifier fun name =>
      accept "(" (.look fun current _ =>
        if reads ")" current then accept ")" (.done (.call name []))
        else .phrase expression fun argument => .phrase (.arguments name [argument]) .done)
  | .arguments name args =>
    .look fun current _ =>
      if reads "," current then
        accept "," (.phrase expression fun argument =>
          .phrase (.arguments name (args ++ [argument])) .done)
      else accept ")" (.done (.call name args))
  | .assignment target =>
    .look fun current _ =>
      match current with
      | none => .complain (.mismatch "=")
      | some t =>
        if t.kind = .assign then
          .advance (.look fun _ next =>
            if reads "(" next then .phrase .call fun value => .done (.assignment target value)
            else .phrase expression fun value => .done (.assignment target value))
        else .complain (.mismatch "=")
  | .identifierLed =>
    .look fun current next =>
      match current, next with
      | none, _ => .complain .text
      | some _, none => .complain .following
      | some t, some following =>
        if following.kind = .assign then
          .advance (.phrase (.assignment (.identifier t.text)) .done)
        else if following.kind = .operation then .phrase expression .done
        else if following.text = "(" then .phrase .call .done
        else .complain .following
  | .returning =>
    accept "return" (.phrase expression fun node => accept ";" (.done (.returning node)))
  | .conditional =>
    accept "if" (accept "(" (.phrase expression fun condition =>
      accept ")" (.phrase .block fun thenBlock =>
        .look fun current _ =>
          if reads "else" current then
            accept "else" (.phrase .block fun elseBlock =>
              .done (.conditional condition thenBlock elseBlock))
          else .done (.conditional condition thenBlock .absent))))
  | .declaration =>
    .look fun current _ =>
      match current with
      | none => .complain .text
      | some t =>
        .advance (Plan.identifier fun name =>
          accept "(" (allParameters fun parameters =>
            accept ")" (.phrase .block fun body =>
              .done (.declaration t.text name parameters body))))
  | .block => accept "\x7b" (.phrase (.statements []) .done)
  | .statements body =>
    .look fun current _ =>
      if current.isNone ∨ reads "\x7d" current then accept "\x7d" (.done (.block body))
      else if reads ";" current then accept ";" (.phrase (.statements body) .done)
      else if reads "\x7b" current then
        .phrase .block fun node => .phrase (.statements (body ++ [node])) .done
      else .phrase .statement fun node => .phrase (.statements (body ++ [node])) .done
  | .statement =>
    .look fun current _ =>
      match current with
      | none => .complain .statement
      | some t =>
        if t.kind = .keyword then
          if t.text = "return" then .phrase .returning .done
          else if t.text = "if" then .phrase .conditional .done
          else .phrase .declaration .done
        else if t.kind = .identifier then .phrase .identifierLed .done
        else .complain .statement
  | .sentence =>
    .look fun current _ =>
      if reads ";" current then accept ";" (.phrase .sentence .done)
      else if current.isNone ∨ reads "\x7b" current then .done .absent
      else .phrase .statement .done

/-- Reading a phrase carries out its plan. -/
theorem run_eq (phrase : Phrase) (w : Window) : phrase.run w = phrase.plan.run w := by
  cases phrase with
  | identifier => simp only [run_identifier, plan, Plan.run_identifier, Plan.run, andThen_ok_self]
  | primary =>
    rw [run_primary, plan, Plan.run]
    cases w.current with
    | none => rfl
    | some t =>
      simp only [Option.map_some, Plan.run, Token.operand_unplaced, run_ite, run_accept]
      cases t.operand <;> rfl
  | chain operators operand => simp only [run_chain, plan, Plan.run, andThen_ok_self]
  | chained operators operand left =>
    rw [run_chained, plan, Plan.run]
    cases w.current with
    | none => rfl
    | some t => simp only [Option.map_some, Plan.run, run_ite, andThen_ok_self]
  | call =>
    simp only [run_call, plan, Plan.run, Plan.run_identifier, run_accept, run_ite, reads_unplaced,
      andThen_ok_self]
  | arguments name args =>
    rw [run_arguments]
    simp only [plan, Plan.run, run_accept, run_ite, reads_unplaced, andThen_ok_self]
  | assignment target =>
    rw [run_assignment, plan, Plan.run]
    cases w.current with
    | none => rfl
    | some t =>
      simp only [Option.map_some, Plan.run, run_ite, reads_next_unplaced]
      rfl
  | identifierLed =>
    rw [run_identifierLed, plan, Plan.run]
    cases hc : w.current with
    | none => rfl
    | some t =>
      cases hn : w.next with
      | none => simp only [Option.map_some, Option.map_none, Plan.run, Complaint.fault, hn]
      | some following =>
        simp only [Option.map_some, Plan.run, run_ite, andThen_ok_self, Complaint.fault, hn]
  | returning => simp only [run_returning, plan, Plan.run, run_accept]
  | conditional =>
    simp only [run_conditional, plan, Plan.run, run_accept, run_ite, reads_unplaced]
  | declaration =>
    rw [run_declaration, plan, Plan.run]
    cases w.current with
    | none => rfl
    | some t =>
      simp only [Option.map_some, Plan.run, Plan.run_identifier, run_accept, run_allParameters]
  | block => simp only [run_block, plan, Plan.run, run_accept, andThen_ok_self]
  | statements body =>
    rw [run_statements]
    simp only [plan, Plan.run, run_accept, run_ite, reads_unplaced,
      Option.isNone_map, andThen_ok_self]
  | statement =>
    rw [run_statement, plan, Plan.run]
    cases hc : w.current with
    | none => simp only [Option.map_none, Plan.run, Complaint.fault, hc]
    | some t => simp only [Option.map_some, Plan.run, run_ite, andThen_ok_self, Complaint.fault, hc]
  | sentence =>
    rw [run_sentence]
    simp only [plan, Plan.run, run_accept, run_ite, reads_unplaced,
      Option.isNone_map, andThen_ok_self]

end Phrase

/-! ## What plans leave -/

theorem within_runMoreParameters (read : List Node) (w : Window) :
    (runMoreParameters read w).Within 0 w :=
  (readMoreParameters read w).property

/-- Reading a phrase never leaves more. -/
theorem Phrase.within_run_zero (p : Phrase) (w : Window) : (p.run w).Within 0 w :=
  (p.within_run w).mono (Nat.zero_le _)

/-- Carrying out a plan never leaves more. -/
theorem Plan.within_run {α : Type} (plan : Plan α) (w : Window) : (plan.run w).Within 0 w := by
  induction plan generalizing w with
  | done value => exact Nat.le_refl _
  | complain complaint => exact Nat.le_refl _
  | look go ih => exact ih _ _ w
  | advance go ih => exact (Window.within_advance_zero w).andThen fun _ w₁ => ih w₁
  | phrase p go ih =>
    exact (p.within_run_zero w).andThen fun node w₁ => ih node w₁
  | parameters read go ih =>
    exact (within_runMoreParameters read w).andThen fun nodes w₁ => ih nodes w₁

/-! ## The end of plans -/

namespace Plan

variable {α : Type}

/-- A plan moves on only past a token that it has seen, and the phrases that it reads are below a
bound, which every token that is passed raises. -/
def Guarded : Plan α → (bound : Nat) → (seen : Bool) → Prop
  | .done _, _, _ => True
  | .complain _, _, _ => True
  | .look go, bound, _ => ∀ current next, (go current next).Guarded bound current.isSome
  | .advance go, bound, seen => seen = true ∧ go.Guarded (bound + 12) false
  | .phrase p go, bound, _ =>
    p.rank < bound ∧ ∀ node, (go node).Guarded (bound + 12 * p.least) false
  | .parameters _ go, bound, _ => ∀ nodes, (go nodes).Guarded bound false

theorem Guarded.mono {plan : Plan α} {bound bound' : Nat} {seen seen' : Bool}
    (h : plan.Guarded bound seen) (hb : bound ≤ bound') (hs : seen = true → seen' = true) :
    plan.Guarded bound' seen' := by
  induction plan generalizing bound bound' seen seen' with
  | done value => trivial
  | complain complaint => trivial
  | look go ih => exact fun current next => ih current next (h current next) hb id
  | advance go ih => exact ⟨hs h.1, ih h.2 (by omega) id⟩
  | phrase p go ih =>
    exact ⟨Nat.lt_of_lt_of_le h.1 hb, fun node => ih node (h.2 node) (by omega) id⟩
  | parameters read go ih => exact fun nodes => ih nodes (h nodes) hb id

theorem guarded_accept {text : String} {go : Plan α} {bound : Nat} {seen : Bool}
    (h : go.Guarded (bound + 12) false) : (accept text go).Guarded bound seen := by
  intro current next
  cases current with
  | none => trivial
  | some t =>
    by_cases hr : reads text (some t) = true
    · simp only [hr, if_true]
      exact ⟨rfl, h⟩
    · simp only [hr]
      trivial

theorem guarded_identifier {go : Node → Plan α} {bound : Nat} {seen : Bool}
    (h : ∀ node, (go node).Guarded (bound + 12) false) : (identifier go).Guarded bound seen := by
  intro current next
  cases current with
  | none => trivial
  | some t =>
    simp only
    split
    · exact ⟨rfl, h _⟩
    · trivial

theorem guarded_allParameters {go : List Node → Plan α} {bound : Nat} {seen : Bool}
    (h : ∀ nodes, (go nodes).Guarded bound false) : (allParameters go).Guarded bound seen := by
  intro current next
  simp only
  split
  · exact (h []).mono (Nat.le_refl _) (fun hf => Bool.noConfusion hf)
  · exact guarded_identifier fun node nodes => (h nodes).mono (by omega) id

theorem guarded_ite {c : Prop} [Decidable c] {p q : Plan α} {bound : Nat} {seen : Bool}
    (hp : c → p.Guarded bound seen) (hq : ¬ c → q.Guarded bound seen) :
    (if c then p else q).Guarded bound seen := by
  split
  · exact hp ‹_›
  · exact hq ‹_›

end Plan

theorem Phrase.rank_expression : expression.rank = 4 := rfl

theorem Phrase.least_expression : expression.least = 1 := rfl

/-- The plan of a phrase is below its rank. -/
theorem Phrase.guarded_plan (phrase : Phrase) : phrase.plan.Guarded phrase.rank false := by
  -- a phrase that is read last
  have hlast : ∀ {p : Phrase} {bound : Nat} {seen : Bool}, p.rank < bound →
      (Plan.phrase p .done).Guarded bound seen := fun h => ⟨h, fun _ => trivial⟩
  cases phrase with
  | identifier => exact Plan.guarded_identifier fun _ => trivial
  | primary =>
    rintro (_ | t) next
    · trivial
    · refine ⟨rfl, Plan.guarded_ite (fun _ => ⟨by decide, fun _ => ?_⟩) (fun _ => ?_)⟩
      · exact Plan.guarded_accept trivial
      · cases t.operand <;> trivial
  | chain operators operand =>
    exact ⟨by simp [rank], fun left => hlast (by simp [rank]; omega)⟩
  | chained operators operand left =>
    rintro (_ | t) next
    · trivial
    · refine Plan.guarded_ite (fun _ => ⟨rfl, ?_⟩) (fun _ => trivial)
      exact ⟨by simp [rank], fun right => hlast (by simp [rank]; omega)⟩
  | call =>
    rw [plan]
    refine Plan.guarded_identifier fun name => Plan.guarded_accept ?_
    intro current next
    refine Plan.guarded_ite (fun _ => Plan.guarded_accept trivial) (fun _ => ⟨by decide, ?_⟩)
    exact fun argument => hlast (by simp [rank, least_expression])
  | arguments name args =>
    intro current next
    refine Plan.guarded_ite (fun _ => Plan.guarded_accept ⟨?_, ?_⟩)
      (fun _ => Plan.guarded_accept trivial)
    · simp [rank, rank_expression]
    · exact fun argument => hlast (by simp [rank, least_expression])
  | assignment target =>
    rintro (_ | t) next
    · trivial
    · refine Plan.guarded_ite (fun _ => ⟨rfl, fun current next => ?_⟩) (fun _ => trivial)
      exact Plan.guarded_ite (fun _ => ⟨by simp [rank], fun _ => trivial⟩)
        (fun _ => ⟨by simp [rank, rank_expression], fun _ => trivial⟩)
  | identifierLed =>
    rintro (_ | t) (_ | following)
    · trivial
    · trivial
    · trivial
    · refine Plan.guarded_ite (fun _ => ⟨rfl, hlast (by simp [rank])⟩) (fun _ => ?_)
      refine Plan.guarded_ite (fun _ => hlast (by decide)) (fun _ => ?_)
      exact Plan.guarded_ite (fun _ => hlast (by decide)) (fun _ => trivial)
  | returning =>
    exact Plan.guarded_accept ⟨by decide, fun _ => Plan.guarded_accept trivial⟩
  | conditional =>
    refine Plan.guarded_accept (Plan.guarded_accept ⟨by decide, fun condition => ?_⟩)
    refine Plan.guarded_accept ⟨by simp [rank], fun thenBlock current next => ?_⟩
    refine Plan.guarded_ite (fun _ => Plan.guarded_accept ?_) (fun _ => trivial)
    exact ⟨by simp [rank], fun _ => trivial⟩
  | declaration =>
    rintro (_ | t) next
    · trivial
    · refine ⟨rfl, Plan.guarded_identifier fun name => Plan.guarded_accept ?_⟩
      refine Plan.guarded_allParameters fun parameters => Plan.guarded_accept ?_
      exact ⟨by simp [rank], fun _ => trivial⟩
  | block => exact Plan.guarded_accept (hlast (by simp [rank]))
  | statements body =>
    intro current next
    refine Plan.guarded_ite (fun _ => Plan.guarded_accept trivial) (fun _ => ?_)
    refine Plan.guarded_ite (fun _ => Plan.guarded_accept (hlast (by simp [rank]))) (fun _ => ?_)
    exact Plan.guarded_ite
      (fun _ => ⟨by simp [rank], fun _ => hlast (by simp [rank, least])⟩)
      (fun _ => ⟨by simp [rank], fun _ => hlast (by simp [rank, least])⟩)
  | statement =>
    rintro (_ | t) next
    · trivial
    · refine Plan.guarded_ite (fun _ => ?_) (fun _ => ?_)
      · refine Plan.guarded_ite (fun _ => hlast (by decide)) (fun _ => ?_)
        exact Plan.guarded_ite (fun _ => hlast (by decide)) (fun _ => hlast (by decide))
      · exact Plan.guarded_ite (fun _ => hlast (by decide)) (fun _ => trivial)
  | sentence =>
    intro current next
    refine Plan.guarded_ite (fun _ => Plan.guarded_accept (hlast (by decide))) (fun _ => ?_)
    exact Plan.guarded_ite (fun _ => trivial) (fun _ => hlast (by decide))

/-- A plan that comes to an end from a window, with all the phrases that it reads on the way. -/
inductive Plan.Ends : {α : Type} → Plan α → Window → Prop where
  | done {α : Type} {value : α} {w : Window} : Ends (.done value) w
  | complain {α : Type} {complaint : Complaint} {w : Window} :
      Ends (.complain complaint : Plan α) w
  | look {α : Type} {go : Option Token → Option Token → Plan α} {w : Window}
      (h : Ends (go (w.current.map Token.unplaced) (w.next.map Token.unplaced)) w) :
      Ends (.look go) w
  | advance {α : Type} {go : Plan α} {w : Window} (hc : w.current.isSome)
      (h : ∀ w₁, w.advance = .ok () w₁ → Ends go w₁) : Ends (.advance go) w
  | phrase {α : Type} {p : Phrase} {go : Node → Plan α} {w : Window} (hp : Ends p.plan w)
      (h : ∀ node w₁, p.run w = .ok node w₁ → Ends (go node) w₁) : Ends (.phrase p go) w
  | parameters {α : Type} {read : List Node} {go : List Node → Plan α} {w : Window}
      (hp : Ends (moreParameters read) w)
      (h : ∀ nodes w₁, runMoreParameters read w = .ok nodes w₁ → Ends (go nodes) w₁) :
      Ends (.parameters read go) w

theorem Plan.ends_accept {α : Type} {text : String} {go : Plan α} {w : Window}
    (h : ∀ w₁, w₁.left < w.left → go.Ends w₁) : (accept text go).Ends w := by
  refine .look ?_
  rw [reads_unplaced]
  split
  · rename_i hr
    have hc := Window.isSome_of_reads hr
    exact .advance hc fun w₁ hw => h w₁ ((Window.within_advance hc).left_le hw)
  · exact .complain

theorem Plan.ends_identifier {α : Type} {go : Node → Plan α} {w : Window}
    (h : ∀ node w₁, w₁.left < w.left → (go node).Ends w₁) : (identifier go).Ends w := by
  refine .look ?_
  cases hc : w.current with
  | none => exact .complain
  | some t =>
    simp only [Option.map_some]
    split
    · have hs : w.current.isSome := by simp [hc]
      exact .advance hs fun w₁ hw => h _ w₁ ((Window.within_advance hs).left_le hw)
    · exact .complain

theorem Plan.ends_moreParameters (read : List Node) (w : Window) :
    (moreParameters read).Ends w := by
  induction hn : w.left using Nat.strongRecOn generalizing read w with
  | ind n ih =>
    refine .look ?_
    split
    · refine ends_accept fun w₁ h₁ => ends_identifier fun parameter w₂ h₂ => ?_
      exact .parameters (ih w₂.left (by omega) _ w₂ rfl) fun _ _ _ => .done
    · exact .done

/-- A guarded plan ends if the phrases end that are below its bound, each token that is left
counting for twelve ranks. -/
theorem Plan.ends_of_guarded {α : Type} {plan : Plan α} {bound measure : Nat} {seen : Bool}
    {w : Window} (hg : plan.Guarded bound seen) (hm : 12 * w.left + bound ≤ measure)
    (hs : seen = true → w.current.isSome)
    (ih : ∀ (p : Phrase) (w : Window), 12 * w.left + p.rank < measure → p.plan.Ends w) :
    plan.Ends w := by
  induction plan generalizing bound seen w with
  | done value => exact .done
  | complain complaint => exact .complain
  | look go ihgo =>
    exact .look (ihgo _ _ (hg _ _) hm (by simp))
  | advance go ihgo =>
    have hc := hs hg.1
    refine .advance hc fun w₁ hw => ihgo hg.2 ?_ (fun hf => Bool.noConfusion hf)
    have := (Window.within_advance hc).left_le hw
    omega
  | phrase p go ihgo =>
    refine .phrase (ih p w (by have := hg.1; omega)) fun node w₁ hr => ?_
    refine ihgo node (hg.2 node) ?_ (fun hf => Bool.noConfusion hf)
    have := (p.within_run w).left_le hr
    omega
  | parameters read go ihgo =>
    refine .parameters (ends_moreParameters read w) fun nodes w₁ hr => ?_
    refine ihgo nodes (hg nodes) ?_ (fun hf => Bool.noConfusion hf)
    have := (within_runMoreParameters read w).left_le hr
    omega

/-- Every phrase comes to an end from every window. -/
theorem Phrase.ends (phrase : Phrase) (w : Window) : phrase.plan.Ends w := by
  induction hm : 12 * w.left + phrase.rank using Nat.strongRecOn generalizing phrase w with
  | ind measure ih =>
    refine Plan.ends_of_guarded phrase.guarded_plan (Nat.le_of_eq hm)
      (fun hf => Bool.noConfusion hf) ?_
    exact fun p w₁ hlt => ih _ hlt p w₁ rfl

/-! ## What plans ensure -/

/-- What is known of the nodes that a phrase makes, and of the parameters that are read behind those
that have been read. -/
structure Contract where
  phrase : Phrase → Node → Prop
  parameters : List Node → List Node → Prop

namespace Plan

variable {α : Type} {C : Contract} {post : α → Prop}

/-- A plan ends with no value but one that a condition holds of, whatever comes into view, if the
phrases that it reads keep a contract. -/
def Ensures (C : Contract) (post : α → Prop) : Plan α → Prop
  | .done value => post value
  | .complain _ => True
  | .look go => ∀ current next, (go current next).Ensures C post
  | .advance go => go.Ensures C post
  | .phrase p go => ∀ node, C.phrase p node → (go node).Ensures C post
  | .parameters read go => ∀ nodes, C.parameters read nodes → (go nodes).Ensures C post

theorem ensures_advance {go : Plan α} (h : go.Ensures C post) :
    (Plan.advance go).Ensures C post := h

theorem ensures_accept {text : String} {go : Plan α} (h : go.Ensures C post) :
    (accept text go).Ensures C post := by
  intro current next
  simp only
  split
  · exact h
  · trivial

theorem ensures_identifier {go : Node → Plan α}
    (h : ∀ name, (go (.identifier name)).Ensures C post) : (identifier go).Ensures C post := by
  intro current next
  cases current with
  | none => trivial
  | some t =>
    simp only
    split
    · exact h t.text
    · trivial

theorem ensures_ite {c : Prop} [Decidable c] {p q : Plan α} (hp : c → p.Ensures C post)
    (hq : ¬ c → q.Ensures C post) : (if c then p else q).Ensures C post := by
  split
  · exact hp ‹_›
  · exact hq ‹_›

/-- What a plan ensures is true of every value that carrying it out comes to, if the plans of all
phrases ensure what the contract says of them. -/
theorem Ends.ensures (hphrase : ∀ p : Phrase, p.plan.Ensures C (C.phrase p))
    (hparameters : ∀ read, (moreParameters read).Ensures C (C.parameters read)) {plan : Plan α}
    {w : Window} (he : plan.Ends w) (h : plan.Ensures C post) {value : α} {w' : Window}
    (hr : plan.run w = .ok value w') : post value := by
  induction he generalizing w' with
  | done =>
    cases hr
    exact h
  | complain => cases hr
  | look _ ih => exact ih (h _ _) hr
  | @advance _ go w _ _ ih =>
    rw [run] at hr
    cases ha : w.advance with
    | fail fault w₁ => rw [ha] at hr; cases hr
    | ok u w₁ =>
      rw [ha] at hr
      exact ih w₁ ha h hr
  | @phrase _ p go w _ _ ihp ih =>
    rw [run] at hr
    cases hp : p.run w with
    | fail fault w₁ => rw [hp] at hr; cases hr
    | ok node w₁ =>
      have hnode : C.phrase p node := ihp (hphrase p) (p.run_eq w ▸ hp)
      rw [hp] at hr
      exact ih node w₁ hp (h node hnode) hr
  | @parameters _ read go w _ _ ihp ih =>
    rw [run] at hr
    cases hp : runMoreParameters read w with
    | fail fault w₁ => rw [hp] at hr; cases hr
    | ok nodes w₁ =>
      have hnodes : C.parameters read nodes :=
        ihp (hparameters read) ((run_moreParameters read w).trans hp)
      rw [hp] at hr
      exact ih nodes w₁ hp (h nodes hnodes) hr

end Plan

/-- Whatever a phrase makes keeps a contract that all plans keep. -/
theorem Phrase.keeps_of_run {C : Contract} (hphrase : ∀ p : Phrase, p.plan.Ensures C (C.phrase p))
    (hparameters : ∀ read, (Plan.moreParameters read).Ensures C (C.parameters read))
    {phrase : Phrase} {w w' : Window} {node : Node} (h : phrase.run w = .ok node w') :
    C.phrase phrase node :=
  (phrase.ends w).ensures hphrase hparameters (hphrase phrase) (phrase.run_eq w ▸ h)

end MiniLang
