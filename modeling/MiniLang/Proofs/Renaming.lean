import MiniLang.Proofs.Front
import MiniLang.Proofs.Plan
/-!
# Texts that reading compares

Reading compares the text of a token with a few words, marks and operators, and asks whether it
writes a number.  What else a token says is handed on as it is.  So to change texts before reading
is to change them in what is read (`Renaming.parse_stream`), as long as the texts that are compared
stay apart from all others and numbers keep their values.
-/

set_option autoImplicit false

namespace MiniLang

/-! ## Changes that reading takes no notice of -/

/-- The words that reading compares texts with. -/
def comparedWords : List String := ["void", "int", "if", "else", "return"]

/-- The marks that reading compares texts with. -/
def comparedMarks : List String := ["(", ")", "\x7b", "\x7d", ",", ";"]

/-- The operators between two operands. -/
def binaryOperators : List String :=
  equalityOperators ++ comparisonOperators ++ sumOperators ++ productOperators

/-- All texts that reading compares texts with. -/
def comparedTexts : List String := comparedWords ++ comparedMarks ++ binaryOperators

/-- A change of texts by which none comes to be one that is compared or ceases to be it, and none
comes to write another number. -/
structure Renaming where
  text : String → String
  compared : ∀ x ∈ comparedTexts, ∀ y, text y = x ↔ y = x
  number : ∀ y, number? (text y).toList = number? y.toList

namespace Renaming

variable (ρ : Renaming)

/-- A token whose text is changed. -/
def token (t : Token) : Token := { t with text := ρ.text t.text }

mutual

/-- A tree whose texts are changed. -/
def node : Node → Node
  | .identifier name => .identifier (ρ.text name)
  | .integer value => .integer value
  | .string value => .string (ρ.text value)
  | .binary left operator right => .binary (node left) (ρ.text operator) (node right)
  | .call name arguments => .call (node name) (nodes arguments)
  | .assignment target value => .assignment (node target) (node value)
  | .block statements => .block (nodes statements)
  | .declaration returnType name parameters body =>
    .declaration (ρ.text returnType) (node name) (nodes parameters) (node body)
  | .conditional condition thenBlock elseBlock =>
    .conditional (node condition) (node thenBlock) (node elseBlock)
  | .returning expression => .returning (node expression)
  | .program items => .program (nodes items)
  | .absent => .absent
  | .unknown kind => .unknown kind

/-- Trees whose texts are changed. -/
def nodes : List Node → List Node
  | [] => []
  | n :: ns => node n :: nodes ns

end

/-- A phrase whose texts are changed in the trees that have been read.  The operators that it looks
for stay. -/
def phrase : Phrase → Phrase
  | .chain operators operand => .chain operators (phrase operand)
  | .chained operators operand left => .chained operators (phrase operand) (ρ.node left)
  | .arguments name args => .arguments (ρ.node name) (ρ.nodes args)
  | .assignment target => .assignment (ρ.node target)
  | .statements body => .statements (ρ.nodes body)
  | p => p

/-- A stream whose texts are changed. -/
def stream (s : Stream) : Stream := ⟨s.tokens.map (Option.map ρ.token), s.fault⟩

/-- A window whose texts are changed. -/
def window (w : Window) : Window :=
  ⟨w.current.map ρ.token, w.next.map ρ.token, ρ.stream w.rest⟩

/-- A fault whose texts are changed in the token that it is about, and in what was found if that is
the text of a token. -/
def fault : Fault → Fault
  | .syntactic (.mismatch expected found token) =>
    .syntactic (.mismatch expected (if token.isSome then ρ.text found else found)
      (token.map ρ.token))
  | .syntactic (.expectedStatement token) => .syntactic (.expectedStatement (token.map ρ.token))
  | .syntactic (.afterIdentifier token) => .syntactic (.afterIdentifier (token.map ρ.token))
  | .syntactic (.expectedEnd token) => .syntactic (.expectedEnd (ρ.token token))
  | .syntactic (.other message token) => .syntactic (.other message (token.map ρ.token))
  | fault => fault

variable {α β : Type} {g : α → α} {k : β → β}

/-- An outcome whose texts are changed. -/
def outcome (g : α → α) : Outcome α → Outcome α
  | .ok a w => .ok (g a) (ρ.window w)
  | .fail fault w => .fail (ρ.fault fault) (ρ.window w)

variable {ρ}

theorem nodes_eq (ns : List Node) : ρ.nodes ns = ns.map ρ.node := by
  induction ns with
  | nil => rfl
  | cons n ns ih => rw [nodes, ih, List.map_cons]

theorem nodes_snoc (ns : List Node) (n : Node) :
    ρ.nodes (ns ++ [n]) = ρ.nodes ns ++ [ρ.node n] := by
  rw [nodes_eq, nodes_eq, List.map_append, List.map_singleton]

theorem node_eq_absent {n : Node} : ρ.node n = .absent ↔ n = .absent := by
  cases n <;> simp [node]

/-- The operand of a token with the text changed. -/
theorem operand_token (t : Token) : (ρ.token t).operand = t.operand.map ρ.node := by
  unfold Token.operand token
  simp only [ρ.number]
  match number? t.text.toList with
  | some (.ok value) => rfl
  | some (.error digits) => rfl
  | none =>
    simp only [Except.map]
    split <;> rfl

theorem mem_operators {operators : List String} (h : ∀ x ∈ operators, x ∈ comparedTexts)
    (y : String) : ρ.text y ∈ operators ↔ y ∈ operators := by
  constructor
  · intro hy
    have hsame := (ρ.compared _ (h _ hy) y).1 rfl
    rwa [← hsame] at hy
  · intro hy
    rwa [(ρ.compared y (h y hy) y).2 rfl]

theorem andThen_outcome {o : Outcome α} {go go' : α → Window → Outcome β}
    (h : ∀ a w, o = .ok a w → go' (g a) (ρ.window w) = ρ.outcome k (go a w)) :
    (ρ.outcome g o).andThen go' = ρ.outcome k (o.andThen go) := by
  cases o with
  | ok a w => exact h a w rfl
  | fail fault w => rfl

theorem advance_window (w : Window) : (ρ.window w).advance = ρ.outcome id w.advance := by
  obtain ⟨current, next, tokens, fault⟩ := w
  cases tokens with
  | cons token tokens => rfl
  | nil => cases fault <;> rfl

theorem fault_complaint (complaint : Complaint) (w : Window) :
    complaint.fault (ρ.window w) = ρ.fault (complaint.fault w) := by
  cases complaint with
  | mismatch expected =>
    obtain ⟨_ | t, next, rest⟩ := w <;> rfl
  | _ => rfl

end Renaming

/-! ## Plans -/

/-- A phrase that looks for no operators but those that are compared. -/
def Phrase.Compares : Phrase → Prop
  | .chain operators operand => (∀ x ∈ operators, x ∈ comparedTexts) ∧ operand.Compares
  | .chained operators operand _ => (∀ x ∈ operators, x ∈ comparedTexts) ∧ operand.Compares
  | _ => True

namespace Plan

variable {ρ : Renaming} {α : Type} {g : α → α}

/-- A plan does with a token what another one does with the token whose text is changed, and hands
on what is read with the texts changed. -/
inductive Follows (ρ : Renaming) {α : Type} (g : α → α) : Plan α → Plan α → Prop where
  | done {a : α} : Follows ρ g (.done a) (.done (g a))
  | complain {complaint : Complaint} : Follows ρ g (.complain complaint) (.complain complaint)
  | look {go go' : Option Token → Option Token → Plan α}
      (h : ∀ current next,
        Follows ρ g (go current next) (go' (current.map ρ.token) (next.map ρ.token))) :
      Follows ρ g (.look go) (.look go')
  | advance {go go' : Plan α} (h : Follows ρ g go go') : Follows ρ g (.advance go) (.advance go')
  | phrase {p : Phrase} {go go' : Node → Plan α} (hp : p.Compares)
      (h : ∀ n, Follows ρ g (go n) (go' (ρ.node n))) :
      Follows ρ g (.phrase p go) (.phrase (ρ.phrase p) go')
  | parameters {read : List Node} {go go' : List Node → Plan α}
      (h : ∀ ns, Follows ρ g (go ns) (go' (ρ.nodes ns))) :
      Follows ρ g (.parameters read go) (.parameters (ρ.nodes read) go')

namespace Follows

theorem ite {c c' : Prop} [Decidable c] [Decidable c'] {p p' q q' : Plan α} (hc : c' ↔ c)
    (hp : Follows ρ g p p') (hq : Follows ρ g q q') :
    Follows ρ g (if c then p else q) (if c' then p' else q') := by
  simp only [hc]
  split
  · exact hp
  · exact hq

theorem reads_iff {x : String} (hx : x ∈ comparedTexts) (token : Option Token) :
    reads x (token.map ρ.token) = true ↔ reads x token = true := by
  cases token with
  | none => rfl
  | some t =>
    simp only [reads, Option.map_some, Option.any_some, decide_eq_true_eq]
    exact ρ.compared x hx t.text

theorem accept {x : String} (hx : x ∈ comparedTexts) {p p' : Plan α} (h : Follows ρ g p p') :
    Follows ρ g (Plan.accept x p) (Plan.accept x p') :=
  .look fun current _ => ite (reads_iff hx current) (.advance h) .complain

theorem identifier {go go' : Node → Plan α} (h : ∀ n, Follows ρ g (go n) (go' (ρ.node n))) :
    Follows ρ g (Plan.identifier go) (Plan.identifier go') := by
  refine .look fun current _ => ?_
  cases current with
  | none => exact .complain
  | some t => exact ite Iff.rfl (.advance (h (.identifier t.text))) .complain

theorem moreParameters (read : List Node) :
    Follows ρ ρ.nodes (Plan.moreParameters read) (Plan.moreParameters (ρ.nodes read)) := by
  refine .look fun current _ => ite (reads_iff (by decide) current) ?_ .done
  refine accept (by decide) (identifier fun parameter => ?_)
  rw [← Renaming.nodes_snoc]
  exact .parameters fun _ => .done

theorem allParameters {go go' : List Node → Plan α}
    (h : ∀ ns, Follows ρ g (go ns) (go' (ρ.nodes ns))) :
    Follows ρ g (Plan.allParameters go) (Plan.allParameters go') := by
  refine .look fun current _ => ite (reads_iff (by decide) current) (h []) ?_
  exact identifier fun parameter => .parameters h

/-- A phrase that is read last. -/
theorem last {p : Phrase} (hp : p.Compares) :
    Follows ρ ρ.node (.phrase p .done) (.phrase (ρ.phrase p) .done) :=
  .phrase hp fun _ => .done

end Follows

end Plan

theorem Phrase.compares_expression : expression.Compares := by
  have hall : ∀ operators ∈ [equalityOperators, comparisonOperators, sumOperators,
      productOperators], ∀ x ∈ operators, x ∈ comparedTexts := by decide
  exact ⟨hall _ (by simp), hall _ (by simp), hall _ (by simp), hall _ (by simp), trivial⟩

namespace Plan

/-- The plan of a phrase follows the texts that change. -/
theorem follows_plan {ρ : Renaming} {phrase : Phrase} (h : phrase.Compares) :
    Follows ρ ρ.node phrase.plan (ρ.phrase phrase).plan := by
  have hexpression := Phrase.compares_expression
  cases phrase with
  | identifier => exact .identifier fun _ => .done
  | primary =>
    refine .look fun current _ => ?_
    cases current with
    | none => exact .complain
    | some t =>
      refine .advance (.ite (ρ.compared _ (by decide) _) (.phrase hexpression fun _ => ?_) ?_)
      · exact .accept (by decide) .done
      · rw [ρ.operand_token]
        cases t.operand with
        | ok node => exact .done
        | error digits => exact .complain
  | chain operators operand => exact .phrase h.2 fun _ => .last h
  | chained operators operand left =>
    refine .look fun current _ => ?_
    cases current with
    | none => exact .done
    | some t =>
      refine .ite (ρ.mem_operators h.1 _) (.advance (.phrase h.2 fun right => ?_)) .done
      exact .last (p := .chained operators operand (.binary left t.text right)) h
  | call =>
    show Follows ρ ρ.node Phrase.call.plan Phrase.call.plan
    rw [Phrase.plan]
    refine .identifier fun name => .accept (by decide) (.look fun current _ => ?_)
    refine .ite (Follows.reads_iff (by decide) current) ?_ ?_
    · exact .accept (by decide) .done
    · exact .phrase hexpression fun argument => .last (p := .arguments name [argument]) trivial
  | arguments name args =>
    refine .look fun current _ => .ite (Follows.reads_iff (by decide) current) ?_ ?_
    · refine .accept (by decide) (.phrase hexpression fun argument => ?_)
      rw [← ρ.nodes_snoc]
      exact .last (p := .arguments name (args ++ [argument])) trivial
    · exact .accept (by decide) .done
  | assignment target =>
    refine .look fun current _ => ?_
    cases current with
    | none => exact .complain
    | some t =>
      refine .ite Iff.rfl (.advance (.look fun _ next => ?_)) .complain
      refine .ite (Follows.reads_iff (by decide) next) (.phrase trivial fun _ => .done) ?_
      exact .phrase hexpression fun _ => .done
  | identifierLed =>
    refine .look fun current next => ?_
    cases current with
    | none => exact .complain
    | some t =>
      cases next with
      | none => exact .complain
      | some following =>
        refine .ite Iff.rfl (.advance (.last (p := .assignment (.identifier t.text)) trivial)) ?_
        refine .ite Iff.rfl (.last hexpression) ?_
        exact .ite (ρ.compared _ (by decide) _) (.last trivial) .complain
  | returning =>
    exact .accept (by decide) (.phrase hexpression fun _ => .accept (by decide) .done)
  | conditional =>
    refine .accept (by decide) (.accept (by decide) (.phrase hexpression fun condition => ?_))
    refine .accept (by decide) (.phrase trivial fun thenBlock => .look fun current _ => ?_)
    refine .ite (Follows.reads_iff (by decide) current) ?_ .done
    exact .accept (by decide) (.phrase trivial fun _ => .done)
  | declaration =>
    refine .look fun current _ => ?_
    cases current with
    | none => exact .complain
    | some t =>
      refine .advance (.identifier fun name => .accept (by decide) ?_)
      refine .allParameters fun parameters => .accept (by decide) ?_
      exact .phrase trivial fun _ => .done
  | block => exact .accept (by decide) (.last (p := .statements []) trivial)
  | statements body =>
    refine .look fun current _ => .ite ?_ (.accept (by decide) .done) (.ite ?_ ?_ (.ite ?_ ?_ ?_))
    · rw [Option.isNone_map, Follows.reads_iff (by decide)]
    · exact Follows.reads_iff (by decide) current
    · exact .accept (by decide) (.last (p := .statements body) trivial)
    · exact Follows.reads_iff (by decide) current
    · refine .phrase trivial fun n => ?_
      rw [← ρ.nodes_snoc]
      exact .last (p := .statements (body ++ [n])) trivial
    · refine .phrase trivial fun n => ?_
      rw [← ρ.nodes_snoc]
      exact .last (p := .statements (body ++ [n])) trivial
  | statement =>
    refine .look fun current _ => ?_
    cases current with
    | none => exact .complain
    | some t =>
      refine .ite Iff.rfl ?_ (.ite Iff.rfl (.last trivial) .complain)
      refine .ite (ρ.compared _ (by decide) _) (.last trivial) ?_
      exact .ite (ρ.compared _ (by decide) _) (.last trivial) (.last trivial)
  | sentence =>
    refine .look fun current _ => .ite ?_ ?_ (.ite ?_ .done (.last trivial))
    · exact Follows.reads_iff (by decide) current
    · exact .accept (by decide) (.last (p := .sentence) trivial)
    · rw [Option.isNone_map, Follows.reads_iff (by decide)]

/-- Carrying out a plan that follows the texts that change. -/
theorem Ends.run_window {ρ : Renaming} {α : Type} {g : α → α} {plan plan' : Plan α} {w : Window}
    (he : plan.Ends w) (h : Follows ρ g plan plan') :
    plan'.run (ρ.window w) = ρ.outcome g (plan.run w) := by
  induction he with
  | done =>
    cases h
    rfl
  | complain =>
    cases h
    rw [run, run, ρ.fault_complaint]
    rfl
  | @look _ go w _ ih =>
    cases h with
    | look h =>
      have hunplaced : ∀ token : Option Token, (token.map ρ.token).map Token.unplaced =
          (token.map Token.unplaced).map ρ.token := fun token => by cases token <;> rfl
      have hcurrent := hunplaced w.current
      have hnext := hunplaced w.next
      have hfollows := ih (h _ _)
      rw [← hcurrent, ← hnext] at hfollows
      exact hfollows
  | advance _ _ ih =>
    cases h with
    | advance h =>
      rw [run, run, ρ.advance_window]
      exact ρ.andThen_outcome fun _ w₁ hw => ih w₁ hw h
  | @phrase _ p _ w _ _ ihp ih =>
    cases h with
    | phrase hp h =>
      have hrun := ihp (follows_plan hp)
      rw [← Phrase.run_eq, ← Phrase.run_eq] at hrun
      rw [run, run, hrun]
      exact ρ.andThen_outcome fun n w₁ hw => ih n w₁ hw (h n)
  | @parameters _ read _ w _ _ ihp ih =>
    cases h with
    | parameters h =>
      have hrun := ihp (.moreParameters read)
      rw [run_moreParameters, run_moreParameters] at hrun
      rw [run, run, hrun]
      exact ρ.andThen_outcome fun ns w₁ hw => ih ns w₁ hw (h ns)

end Plan

/-! ## Phrases and programs -/

namespace Renaming

variable {ρ : Renaming}

/-- To change texts before a phrase is read is to change them in the node that is read and in what
is left. -/
theorem run_phrase {p : Phrase} (h : p.Compares) (w : Window) :
    (ρ.phrase p).run (ρ.window w) = ρ.outcome ρ.node (p.run w) := by
  rw [Phrase.run_eq, Phrase.run_eq]
  exact (p.ends w).run_window (Plan.follows_plan h)

/-- A token opens the same phrase with its text changed. -/
theorem topLevel_token (t : Token) : (ρ.token t).topLevel = t.topLevel := by
  have hcompared : ∀ x ∈ comparedTexts, ((ρ.token t).text = x ↔ t.text = x) :=
    fun x hx => ρ.compared x hx t.text
  unfold Token.topLevel
  simp only [hcompared "void" (by decide), hcompared "int" (by decide), hcompared "if" (by decide),
    hcompared "\x7b" (by decide)]

theorem run_topLevel (t : Token) (w : Window) :
    t.topLevel.run (ρ.window w) = ρ.outcome ρ.node (t.topLevel.run w) :=
  t.topLevel_cases (P := fun p => p.run (ρ.window w) = ρ.outcome ρ.node (p.run w))
    (run_phrase (p := .declaration) trivial w) (run_phrase (p := .conditional) trivial w)
    (run_phrase (p := .block) trivial w) (run_phrase (p := .sentence) trivial w)

theorem run_items (items : List Node) (w : Window) :
    (readItems (ρ.nodes items) (ρ.window w)).outcome =
      ρ.outcome ρ.node (readItems items w).outcome := by
  induction hn : w.left using Nat.strongRecOn generalizing items w with
  | ind n ih =>
    rw [outcome_readItems, outcome_readItems]
    cases hc : w.current with
    | none =>
      have hc' : (ρ.window w).current = none := congrArg (Option.map ρ.token) hc
      rw [hc']
      rfl
    | some t =>
      have hc' : (ρ.window w).current = some (ρ.token t) := congrArg (Option.map ρ.token) hc
      rw [hc']
      simp only [topLevel_token, run_topLevel]
      refine andThen_outcome fun node w₁ hr => ?_
      have hw := (Token.within_run_topLevel hc).left_le hr
      simp only [node_eq_absent, ← nodes_snoc]
      split
      · exact ih w₁.left (by omega) items w₁ rfl
      · exact ih w₁.left (by omega) _ w₁ rfl

theorem start_stream (s : Stream) : Window.start (ρ.stream s) = (Window.start s).map ρ.window := by
  obtain ⟨tokens, fault⟩ := s
  match tokens, fault with
  | [], none => rfl
  | [], some _ => rfl
  | [_], none => rfl
  | [_], some _ => rfl
  | _ :: _ :: _, _ => rfl

/-- To change texts before a stream is parsed is to change them in the program that is parsed, or in
the fault. -/
theorem parse_stream (s : Stream) :
    parse (ρ.stream s) = ((parse s).map ρ.node).mapError ρ.fault := by
  rw [parse, parse, start_stream]
  cases Window.start s with
  | error fault => rfl
  | ok w =>
    have hprogram := run_items (ρ := ρ) [] w
    simp only [Except.map]
    rw [Window.program_eq, Window.program_eq]
    rw [nodes] at hprogram
    rw [hprogram]
    cases (readItems [] w).outcome <;> rfl

end Renaming

end MiniLang
