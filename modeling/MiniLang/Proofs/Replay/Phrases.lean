import MiniLang.Proofs.FailsAfter
import MiniLang.Proofs.Grammar.Complete
import MiniLang.Proofs.Grammar.Sound
import MiniLang.Proofs.Replay.Plans
/-!
# The plans of the phrases are forward

Each plan goes the same way on lists that it cannot tell apart, and has a short completion wherever
it may stop (`Phrase.forward_plan`).  So every reading of a phrase replays (`Phrase.replays`).

Two plans look at the next token.  A statement that begins with a name has passed that token before
it fails or ends, since it takes its second token too (`Phrase.passes_identifierLed`).  So has what
is assigned, but for an expression that is left behind its first token.  Such an expression has
passed an opening parenthesis only (`Phrase.IsOperand.passes_of_fail`), and a number completes it.
-/

set_option autoImplicit false

namespace MiniLang

open Window

/-! ## Completions of phrases -/

theorem chained_of_closes {operators : List String} {operand : Phrase} {left : Node}
    {rest : List Token} (h : ∀ text ∈ closers, text ∉ operators) (hr : Closes rest) :
    (Phrase.chained operators operand left).run (facing rest) = .ok left (facing rest) := by
  rw [Phrase.run_chained]
  cases rest with
  | nil => rfl
  | cons t rest => simp only [current_facing, if_neg (h _ (hr t rfl))]

namespace Phrase

theorem isOperand_expression : IsOperand expression :=
  ⟨by decide, by decide, by decide, by decide, trivial⟩

theorem IsOperand.regular {p : Phrase} (hp : p.IsOperand) : p.Regular := by
  cases p <;> first | exact hp | trivial

theorem IsOperand.follow {p : Phrase} (hp : p.IsOperand) : p.Follow = Closes := by
  cases p <;> first | rfl | exact hp.elim

theorem IsOperand.least {p : Phrase} (hp : p.IsOperand) : p.least = 1 := by
  fun_induction IsOperand p with
  | case1 => rfl
  | case2 operators operand ih => exact ih hp.2
  | case3 => exact hp.elim

theorem IsOperand.run_number {p : Phrase} (hp : p.IsOperand) : ∃ n, ∀ rest, Closes rest →
    p.run (facing (Token.ofText "1" :: rest)) = .ok n (facing rest) := by
  fun_induction IsOperand p with
  | case1 =>
    refine ⟨.integer 1, fun rest _ => ?_⟩
    have hne : (Token.ofText "1").text ≠ "(" := by decide
    have hone : (Token.ofText "1").operand = .ok (.integer 1) := by decide
    simp only [run_primary, current_facing, advance_facing, Outcome.andThen_ok, if_neg hne, hone]
  | case2 operators operand ih =>
    obtain ⟨n, hn⟩ := ih hp.2
    refine ⟨n, fun rest hr => ?_⟩
    rw [run_chain, hn rest hr, Outcome.andThen_ok, chained_of_closes hp.1 hr]
  | case3 => exact hp.elim

theorem IsOperand.completable {p : Phrase} (hp : p.IsOperand) : p.Completable := by
  obtain ⟨n, hn⟩ := hp.run_number
  exact ⟨[Token.ofText "1"], by decide, n, hn⟩

theorem completes_arguments (name : Node) (args : List Node) :
    Completes Closes (Phrase.arguments name args).run [] [Token.ofText ")"] := by
  refine ⟨by decide, .call name args, fun rest _ => ?_⟩
  show (Phrase.arguments name args).run (facing (Token.ofText ")" :: rest)) = _
  rw [run_arguments, if_neg (by simp [Token.ofText]), accept_ofText, Outcome.andThen_ok]

theorem completes_statements (body : List Node) :
    Completes Closes (Phrase.statements body).run [] [Token.ofText "\x7d"] := by
  refine ⟨by decide, .block body, fun rest _ => ?_⟩
  show (Phrase.statements body).run (facing (Token.ofText "\x7d" :: rest)) = _
  rw [run_statements, if_pos (by simp [Token.ofText]), accept_ofText, Outcome.andThen_ok]

/-- A plan that opens completes its phrase. -/
theorem completable_of_opens {p : Phrase} (h : p.plan.Opens) : p.Completable := by
  obtain ⟨ext, hc⟩ := h.completes
  refine ⟨ext, ?_⟩
  rwa [show p.run = p.plan.run from funext p.run_eq]

end Phrase

/-! ## The plans -/

namespace Plan

theorem takes_plan (p : Phrase) (h : p.least = 1) : p.plan.Takes := by
  intro w
  rw [← p.run_eq, ← h]
  exact p.within_run w

open Phrase

theorem opens_expression {go : Node → Plan Node} (h : ∀ node, (go node).Shuts) :
    (phrase expression go).Opens :=
  opens_phrase isOperand_expression.regular rfl isOperand_expression.completable h

theorem shuts_arguments (name : Node) (args : List Node) :
    (phrase (.arguments name args) .done).Shuts :=
  shuts_last trivial rfl (completes_arguments name args) (closes_cons (by decide) _)

theorem shuts_statements (body : List Node) : (phrase (.statements body) .done).Shuts :=
  shuts_last trivial rfl (completes_statements body) (closes_cons (by decide) _)

theorem shuts_chained {operators : List String} {operand : Phrase}
    (hp : IsOperand (.chain operators operand)) (left : Node) :
    (phrase (.chained operators operand left) .done).Shuts :=
  shuts_last hp rfl ⟨List.forall_mem_nil _, left, fun _ hr => chained_of_closes hp.1 hr⟩ closes_nil

theorem opens_block : Phrase.block.plan.Opens :=
  opens_accept (by decide) (shuts_statements []).opens

/-- What stands between the parentheses of a call, and the closing one. -/
def callArguments (name : Node) : Plan Node :=
  .look fun current _ =>
    if reads ")" current then accept ")" (.done (.call name []))
    else .phrase expression fun argument => .phrase (.arguments name [argument]) .done

theorem opens_callArguments (name : Node) : (callArguments name).Opens := by
  refine ⟨forward_look (fun _ _ _ => rfl) (takes_look fun current _ => ?_).settles
    fun current _ => ?_, ?_⟩
  · exact takes_ite (takes_accept _ _) (takes_phrase rfl _)
  · refine forward_ite (fun _ => forward_accept ")" (shuts_done _).opens) fun _ => ?_
    exact (opens_expression fun argument => shuts_arguments name [argument]).forward
  · obtain ⟨hl, a, ha⟩ := completes_accept ")" (by decide)
      (completes_done (Node.call name []))
    exact ⟨_, hl, a, ha⟩

theorem more_of_closes (read : List Node) {rest : List Token} (hr : Closes rest) :
    runMoreParameters read (facing rest) = .ok read (facing rest) := by
  rw [runMoreParameters_eq, hr.reads_eq_false (by decide), if_neg Bool.false_ne_true]

theorem opens_parameters {α : Type} (read : List Node) {go : List Node → Plan α}
    (h : ∀ nodes, (go nodes).Shuts) : (parameters read go).Opens := by
  refine ⟨fun nodes => ⟨(h nodes).forward, ?_⟩, ?_⟩
  · obtain ⟨ext, hc, hs⟩ := (h nodes).completes
    exact ⟨ext, hc, fun rest hr => ⟨hr, closes_append hs hr⟩⟩
  · obtain ⟨ext, hc, hs⟩ := (h read).completes
    refine ⟨[] ++ ext, .andThen (List.forall_mem_nil _) (fun rest hr => ?_) hc fun rest hr =>
      closes_append hs hr⟩
    exact more_of_closes read hr

/-- All parameters, and the parenthesis behind them. -/
theorem opens_allParameters {α : Type} {go : List Node → Plan α} (h : ∀ nodes, (go nodes).Opens) :
    (allParameters fun nodes => accept ")" (go nodes)).Opens := by
  have hshut : ∀ nodes, (accept ")" (go nodes)).Shuts :=
    fun nodes => shuts_accept (by decide) (by decide) (h nodes)
  refine ⟨forward_look (fun _ _ _ => rfl) (takes_look fun current _ => ?_).settles
    fun current _ => ?_, ?_⟩
  · exact takes_ite (takes_accept _ _) (takes_identifier _)
  · refine forward_ite (fun _ => (hshut []).forward) fun _ => ?_
    exact forward_identifier fun node => opens_parameters [node] hshut
  · obtain ⟨ext, hc⟩ := (h []).completes
    obtain ⟨hl, a, ha⟩ := completes_accept ")" (by decide) hc
    exact ⟨Token.ofText ")" :: ext, hl, a, ha⟩

theorem forward_moreParameters (read : List Node) : (moreParameters read).Forward Closes := by
  have hs : Settles Closes (moreParameters read).run := by
    refine settles_look (fun current _ => takes_or_done_ite (takes_accept _ _)) fun rest hr => ?_
    exact (run_moreParameters read _).trans (more_of_closes read hr)
  refine forward_look (fun _ _ _ => rfl) hs fun current _ => ?_
  refine forward_ite (fun _ => forward_accept "," ?_) fun _ => trivial
  exact opens_identifier fun node => opens_parameters _ shuts_done

/-- What stands behind the first branch of a conditional. -/
def alternative (condition thenBlock : Node) : Plan Node :=
  .look fun current _ =>
    if reads "else" current then
      accept "else" (.phrase .block fun elseBlock =>
        .done (.conditional condition thenBlock elseBlock))
    else .done (.conditional condition thenBlock .absent)

theorem run_alternative_of_closes (condition thenBlock : Node) {rest : List Token}
    (hr : Closes rest) : (alternative condition thenBlock).run (facing rest) =
      .ok (.conditional condition thenBlock .absent) (facing rest) := by
  rw [alternative, run, reads_unplaced, hr.reads_eq_false (by decide)]
  rfl

theorem shuts_alternative (condition thenBlock : Node) :
    (alternative condition thenBlock).Shuts := by
  have hrun := fun rest (hr : Closes rest) => run_alternative_of_closes condition thenBlock hr
  have hsettles : Settles Closes (alternative condition thenBlock).run :=
    settles_look (fun current _ => takes_or_done_ite (takes_accept _ _)) hrun
  refine ⟨forward_look (fun _ _ _ => rfl) hsettles fun current _ => ?_, [],
    ⟨List.forall_mem_nil _, _, hrun⟩, closes_nil⟩
  · refine forward_ite (fun _ => forward_accept "else" ?_) fun _ => trivial
    exact opens_phrase trivial rfl (completable_of_opens opens_block) fun _ => shuts_done _

/-! ### Where the next token counts -/

end Plan

namespace Phrase

/-- A call of a name with a parenthesis behind it fails at once or behind both. -/
theorem passes_call {x l : Token} {ts : List Token} (hl : l.text = "(") :
    Passes (facing (x :: l :: ts)) (call.run (facing (x :: l :: ts))) := by
  rw [run_call]
  by_cases hx : x.kind = .identifier
  · rw [identifier_facing hx, Outcome.andThen_ok, accept_facing hl, Outcome.andThen_ok]
    refine passes_of_within ?_
    split
    · exact ((within_accept _ _).mono (Nat.zero_le _)).andThen fun _ _ => Nat.le_refl _
    · exact (within_run_zero _ _).andThen fun _ w₁ =>
        within_run_zero _ w₁
  · refine .inr (.inl ⟨(facing (x :: l :: ts)).mismatch "identifier", ?_⟩)
    simp [Window.identifier, hx]

/-- What is assigned is read within what stands behind the equals sign. -/
theorem within_run_assignment {target : Node} {e : Token} {ts : List Token}
    (he : e.kind = .assign) :
    ((Phrase.assignment target).run (facing (e :: ts))).Within 0 (facing ts) := by
  rw [run_assignment, current_facing]
  simp only [he, if_true, advance_facing, Outcome.andThen_ok]
  split
  · exact (within_run_zero _ _).andThen fun _ _ => Nat.le_refl _
  · exact (within_run_zero _ _).andThen fun _ _ => Nat.le_refl _

/-- What follows an operand fails only behind an operator. -/
theorem left_of_chained_fail {operators : List String} {operand : Phrase} {left : Node}
    {ts : List Token} {fault : Fault} {w : Window}
    (h : (Phrase.chained operators operand left).run (facing ts) = .fail fault w) :
    w.left + 1 ≤ ts.length := by
  rw [run_chained] at h
  cases ts with
  | nil => cases h
  | cons t ts =>
    simp only [current_facing, advance_facing, Outcome.andThen_ok] at h
    split at h
    · have hw : (((run operand (facing ts)).andThen fun right w₂ =>
          run (.chained operators operand (.binary left t.text right)) w₂)).Within 0 (facing ts) :=
        (within_run_zero _ _).andThen fun _ w₁ => within_run _ w₁
      rw [h] at hw
      have hle : w.left ≤ (facing ts).left := hw.after_le
      rw [left_facing] at hle
      exact Nat.succ_le_succ hle
    · cases h

/-- A chain that fails does so in its first operand, or behind an operator. -/
theorem fail_of_chain_fail {operators : List String} {operand : Phrase} {ts : List Token}
    {fault : Fault} {w : Window}
    (h : (Phrase.chain operators operand).run (facing ts) = .fail fault w) :
    operand.run (facing ts) = .fail fault w ∨ w.left + operand.least + 1 ≤ ts.length := by
  rw [run_chain] at h
  cases hr : operand.run (facing ts) with
  | fail fault' w' =>
    rw [hr] at h
    cases h
    exact .inl rfl
  | ok n w₁ =>
    rw [hr, Outcome.andThen_ok] at h
    obtain ⟨us, rest, hts, rfl⟩ := exists_rest_of_run hr
    have hleft := (operand.within_run _).left_le hr
    have hrest := left_of_chained_fail h
    rw [left_facing, left_facing] at hleft
    exact .inr (by omega)

/-- An operand that fails has passed a parenthesis, and fails within what is enclosed or behind it,
or else it is a number with too many digits. -/
theorem fail_of_primary_fail {t : Token} {ts : List Token} {fault : Fault} {w : Window}
    (h : primary.run (facing (t :: ts)) = .fail fault w) :
    t.text = "(" ∧ (expression.run (facing ts) = .fail fault w ∨ w.left + 1 ≤ ts.length) ∨
      w = facing ts ∧ ¬ fault.IsMendable := by
  rw [run_primary] at h
  simp only [current_facing, advance_facing, Outcome.andThen_ok] at h
  split at h
  · refine .inl ⟨‹_›, ?_⟩
    cases hr : expression.run (facing ts) with
    | fail fault' w' =>
      rw [hr] at h
      cases h
      exact .inl rfl
    | ok n w₁ =>
      have haccept : ((w₁.accept ")").andThen fun _ w₃ => Outcome.ok n w₃).Within 0 w₁ :=
        ((within_accept _ _).mono (Nat.zero_le _)).andThen fun _ _ => Nat.le_refl _
      rw [hr, Outcome.andThen_ok] at h
      rw [h] at haccept
      have hw : w.left ≤ w₁.left := haccept.after_le
      have hleft := (expression.within_run _).left_le hr
      rw [isOperand_expression.least, left_facing] at hleft
      exact .inr (by omega)
  · split at h
    · cases h
    · cases h
      exact .inr ⟨rfl, id⟩

/-- An expression that fails has passed its first token, if there is one. -/
theorem IsOperand.left_of_fail {p : Phrase} (hp : p.IsOperand) {t : Token} {ts : List Token}
    {fault : Fault} {w : Window} (h : p.run (facing (t :: ts)) = .fail fault w) :
    w.left ≤ ts.length := by
  fun_induction IsOperand p with
  | case1 =>
    obtain ⟨_, hr | hw⟩ | ⟨rfl, -⟩ := fail_of_primary_fail h
    · have hwithin := expression.within_run (facing ts)
      rw [hr] at hwithin
      exact (left_facing ts) ▸ hwithin.after_le
    · exact Nat.le_of_succ_le hw
    · exact Nat.le_of_eq (left_facing ts)
  | case2 operators operand ih =>
    rcases fail_of_chain_fail h with hr | hw
    · exact ih hp.2 hr
    · rw [List.length_cons] at hw
      omega
  | case3 => exact hp.elim

/-- An expression that fails has passed two tokens, unless nothing but a parenthesis is there or it
begins with a number that has too many digits. -/
theorem IsOperand.passes_of_fail {p : Phrase} (hp : p.IsOperand) {t : Token} {ts : List Token}
    {fault : Fault} {w : Window} (h : p.run (facing (t :: ts)) = .fail fault w) :
    w.left + 1 ≤ ts.length ∨ (t.text = "(" ∧ ts = []) ∨ ¬ fault.IsMendable := by
  fun_induction IsOperand p with
  | case1 =>
    obtain ⟨ht, hr | hw⟩ | ⟨-, hm⟩ := fail_of_primary_fail h
    · cases ts with
      | nil => exact .inr (.inl ⟨ht, rfl⟩)
      | cons u ts => exact .inl (Nat.succ_le_succ (isOperand_expression.left_of_fail hr))
    · exact .inl hw
    · exact .inr (.inr hm)
  | case2 operators operand ih =>
    rcases fail_of_chain_fail h with hr | hw
    · exact ih hp.2 hr
    · rw [hp.2.least, List.length_cons] at hw
      exact .inl (by omega)
  | case3 => exact hp.elim

/-- An expression that an operand and an operation begin has passed both. -/
theorem passes_expression {x o : Token} {ts : List Token} (ho : o.Lexical)
    (hk : o.kind = .operation) :
    Passes (facing (x :: o :: ts)) (expression.run (facing (x :: o :: ts))) := by
  cases hr : expression.run (facing (x :: o :: ts)) with
  | fail fault w =>
    rcases isOperand_expression.passes_of_fail hr with h | ⟨_, h⟩ | hm
    · refine .inl ?_
      simp only [Outcome.after, left_facing, List.length_cons] at h ⊢
      omega
    · cases h
    · exact .inr (.inr ⟨fault, w, rfl, hm⟩)
  | ok n w =>
    obtain ⟨us, rest, hts, rfl, he, hstops⟩ := Grammar.sound_expression _ n w hr
    refine .inl ?_
    have hlen := congrArg List.length hts
    simp only [Outcome.after, left_facing, List.length_cons, List.length_append] at hlen ⊢
    match us, he.ne_nil with
    | [u], _ =>
      cases hts
      exact absurd (Grammar.mem_reach_of_operation ho hk) hstops
    | u :: v :: us, _ =>
      simp only [List.length_cons] at hlen
      omega

/-- A statement that a name begins fails at once or behind the token that it looks at. -/
theorem passes_identifierLed {ts : List Token} (hl : ∀ t ∈ ts, t.Lexical) :
    Passes (facing ts) (identifierLed.run (facing ts)) := by
  rw [run_identifierLed]
  match ts with
  | [] => exact .inr (.inl ⟨_, rfl⟩)
  | [x] => exact .inr (.inl ⟨_, rfl⟩)
  | x :: o :: ts =>
    simp only [current_facing, next_facing, List.head?_cons, advance_facing, Outcome.andThen_ok]
    split
    · exact passes_of_within (within_run_assignment ‹_›)
    · split
      · exact passes_expression (hl o (by simp)) ‹_›
      · split
        · exact passes_call ‹_›
        · exact .inr (.inl ⟨_, rfl⟩)

end Phrase

namespace Plan

open Phrase

/-- What is assigned if it is read as a given phrase. -/
def assignedAs (p : Phrase) (target : Node) : Plan Node :=
  .phrase p fun value => .done (.assignment target value)

/-- What is assigned. -/
def assigned (target : Node) : Plan Node :=
  .look fun _ next =>
    if reads "(" next then assignedAs .call target else assignedAs expression target

theorem run_assigned (target : Node) (w : Window) :
    (assigned target).run w =
      (if w.nextReads "(" then assignedAs .call target
        else assignedAs expression target).run w := by
  rw [assigned, run, reads_next_unplaced]

/-- An expression that only a parenthesis has been passed of is completed by a number and another
parenthesis. -/
theorem completes_enclosed {l : Token} (hl : l.Lexical) (ht : l.text = "(") :
    Completes Closes expression.run [l] [Token.ofText "1", Token.ofText ")"] := by
  have hone : Grammar.readable.Expression .equality [Token.ofText "1"] (.integer 1) :=
    .single (.single (.single (.single (.operand ⟨.integer rfl, by decide⟩))))
  have hexpression : Grammar.readable.Expression .equality
      (l :: ([Token.ofText "1"] ++ [Token.ofText ")"])) (.integer 1) :=
    .single (.single (.single (.single (.enclosed ht hone rfl))))
  have hlexical : ∀ t ∈ [Token.ofText "1", Token.ofText ")"], t.Lexical := by decide
  refine ⟨hlexical, .integer 1, fun rest hr => ?_⟩
  refine Grammar.complete_expression hexpression (List.forall_mem_cons.2 ⟨hl, hlexical⟩) ?_
  cases rest with
  | nil => trivial
  | cons t rest =>
    have hclosers : ∀ text ∈ closers, text ∉ Level.equality.reach := by decide
    exact hclosers _ (hr t rfl)

/-- An expression that fails behind one token and may still be completed has passed a parenthesis
only. -/
theorem of_assignedAs_fail {target : Node} {t : Token} {rest : List Token} {fault : Fault}
    (h : (assignedAs expression target).run (facing (t :: rest)) = .fail fault (facing rest))
    (hm : fault.IsMendable) : t.text = "(" := by
  rw [assignedAs, run] at h
  cases hr : expression.run (facing (t :: rest)) with
  | ok n w =>
    rw [hr] at h
    cases h
  | fail fault' w =>
    rw [hr] at h
    cases h
    rcases isOperand_expression.passes_of_fail hr with hleft | ⟨ht, _⟩ | hnot
    · rw [left_facing] at hleft
      omega
    · exact ht
    · exact absurd hm hnot

/-- What is read as an expression is told by the token behind the first, which may not have been
passed. -/
theorem replays_assigned {target : Node} {ts : List Token} (hl : ∀ t ∈ ts, t.Lexical)
    (hn : (facing ts).nextReads "(" = false)
    (h : Replays Closes (assignedAs expression target).run ts) :
    Replays Closes (assigned target).run ts := by
  have hrun : ∀ {us : List Token}, (facing us).nextReads "(" = false →
      (assigned target).run (facing us) = (assignedAs expression target).run (facing us) :=
    fun hus => by rw [run_assigned, hus, if_neg Bool.false_ne_true]
  cases h with
  | @ok us rest a hts hok =>
    refine .ok (a := a) hts fun rest' hr => ?_
    rw [hrun, hok rest' hr]
    subst hts
    cases us with
    | nil =>
      have htakes : (assignedAs expression target).Takes := takes_phrase rfl _
      have := (htakes _).left_le (hok rest (.inl rfl))
      exact absurd this (Nat.not_succ_le_self _)
    | cons v us =>
      rw [List.cons_append, nextReads_facing_cons] at hn ⊢
      by_cases hus : us = []
      · subst hus
        rcases hr with hhead | hcloses
        · exact (reads_of_head? hhead _).trans hn
        · exact hcloses.reads_eq_false (by decide)
      · exact (reads_of_head? (head?_append hus _ _) _).trans hn
  | @fail us rest fault hts hfail hext =>
    refine .fail hts ((hrun hn).trans hfail) fun hm hne => ?_
    subst hts
    match us, hne with
    | [v], _ =>
      have ht := of_assignedAs_fail hfail hm
      obtain ⟨hlexical, n, hc⟩ := completes_enclosed (hl v (by simp)) ht
      refine ⟨_, hlexical, .assignment target n, fun rest' hr => ?_⟩
      rw [hrun rfl, assignedAs, run, hc rest' hr]
      rfl
    | v :: u :: us, hne =>
      obtain ⟨ext, hlexical, a, ha⟩ := hext hm hne
      have hnext : ∀ more, (facing (v :: u :: us ++ more)).nextReads "(" = false := fun _ => hn
      exact ⟨ext, hlexical, a, fun rest' hr => (hrun (hnext _)).trans (ha rest' hr)⟩

theorem passes_assigned {target : Node} {ts : List Token}
    (hn : (facing ts).nextReads "(" = true) :
    Passes (facing ts) ((assigned target).run (facing ts)) := by
  match ts with
  | [] => cases hn
  | [_] => cases hn
  | x :: l :: ts =>
    rw [run_assigned, hn, if_pos rfl]
    exact (passes_call (by simpa using hn)).andThen fun _ _ => Nat.le_refl _

theorem opens_assigned (target : Node) : (assigned target).Opens := by
  have hforward : ∀ p : Phrase, p.Regular → p.Follow = Closes →
      (assignedAs p target).Forward Closes :=
    fun p hp hf => forward_phrase hp hf fun value => shuts_done (Node.assignment target value)
  refine ⟨fun ts hl => ⟨?_, fun h => ?_⟩, [Token.ofText "1"], by decide, ?_⟩
  · exact forward_ite (fun _ => hforward .call trivial rfl)
      fun _ => hforward expression isOperand_expression.regular rfl
  · cases hn : (facing ts).nextReads "(" with
    | true => exact replays_look_of_two h (passes_assigned hn)
    | false =>
      simp only [reads_next_unplaced, hn, if_neg Bool.false_ne_true] at h
      exact replays_assigned hl hn h
  · obtain ⟨n, hn⟩ := isOperand_expression.run_number
    refine ⟨.assignment target n, fun rest hr => ?_⟩
    rw [List.nil_append, List.singleton_append, run_assigned, nextReads_facing_cons,
      hr.reads_eq_false (by decide), if_neg Bool.false_ne_true, assignedAs, run, hn rest hr]
    rfl

theorem completable_assignment (target : Node) : (Phrase.assignment target).Completable := by
  obtain ⟨ext, hl, n, hn⟩ := (opens_assigned target).completes
  refine ⟨Token.ofText "=" :: ext, List.forall_mem_cons.2 ⟨by decide, hl⟩, n, fun rest hr => ?_⟩
  have hassign : (Token.ofText "=").kind = .assign := by decide
  rw [Phrase.run_eq, List.nil_append, List.cons_append, Phrase.plan, run, current_facing,
    Option.map_some]
  simp only [hassign, if_true]
  rw [run, advance_facing]
  exact hn rest hr

end Plan

namespace Phrase

open Plan

/-- The plan of every phrase is forward. -/
theorem forward_plan {p : Phrase} (hp : p.Regular) : p.plan.Forward p.Follow := by
  have hdone : ∀ n : Node, (done n).Shuts := shuts_done
  cases p with
  | identifier => exact forward_identifier fun n => (hdone n).opens
  | primary =>
    refine forward_look (fun _ _ _ => rfl) (takes_plan .primary rfl).settles ?_
    rintro (_ | t) next
    · trivial
    · by_cases ht : t.text = "("
      · simp only [if_pos ht]
        refine forward_advance (opens_expression fun n => ?_)
        exact shuts_accept (by decide) (by decide) (hdone n).opens
      · simp only [if_neg ht]
        cases t.operand with
        | ok node => exact forward_advance (hdone node).opens
        | error digits => exact forward_advance_digits digits
  | chain operators operand =>
    have hoperand : operand.IsOperand := hp.2
    exact forward_phrase hoperand.regular hoperand.follow fun left => shuts_chained hp left
  | chained operators operand left =>
    have hoperand : operand.IsOperand := hp.2
    have hs : Settles Closes (Phrase.chained operators operand left).plan.run := by
      refine settles_look (a := left) ?_ fun rest hr => ?_
      · rintro (_ | t) next
        · exact .inr rfl
        · exact takes_or_done_ite (takes_advance (takes_phrase hoperand.least _))
      · exact (run_eq _ _).symm.trans (chained_of_closes hp.1 hr)
    refine forward_look (fun _ _ _ => rfl) hs ?_
    rintro (_ | t) next
    · trivial
    · refine forward_ite (fun _ => forward_advance ?_) fun _ => trivial
      exact opens_phrase hoperand.regular hoperand.follow hoperand.completable fun right =>
        shuts_chained hp _
  | call =>
    exact forward_identifier fun name => opens_accept (by decide) (opens_callArguments name)
  | arguments name args =>
    have htakes := takes_plan (.arguments name args) rfl
    refine forward_look (fun _ _ _ => rfl) htakes.settles fun current next => ?_
    refine forward_ite (fun _ => forward_accept "," ?_) fun _ => ?_
    · exact opens_expression fun argument => shuts_arguments name _
    · exact forward_accept ")" (hdone _).opens
  | assignment target =>
    refine forward_look (fun _ _ _ => rfl) (takes_plan (.assignment target) rfl).settles ?_
    rintro (_ | t) next
    · trivial
    · exact forward_ite (fun _ => forward_advance (opens_assigned target)) fun _ => trivial
  | identifierLed =>
    refine fun ts hl => ⟨?_, fun h => replays_look_of_two h ?_⟩
    · rcases (facing ts).current.map Token.unplaced with _ | t
      · trivial
      · rcases (facing ts).next.map Token.unplaced with _ | following
        · trivial
        · refine forward_ite (fun _ => forward_advance ?_) fun _ => forward_ite (fun _ => ?_)
            fun _ => forward_ite (fun _ => ?_) fun _ => trivial
          · exact opens_phrase trivial rfl (completable_assignment _) hdone
          · exact (opens_expression hdone).forward
          · exact forward_phrase trivial rfl hdone
    · have := passes_identifierLed hl
      rwa [run_eq] at this
  | returning =>
    refine forward_accept "return" (opens_expression fun n => ?_)
    exact shuts_accept (by decide) (by decide) (hdone _).opens
  | conditional =>
    refine forward_accept "if" (opens_accept (by decide) (opens_expression fun condition => ?_))
    refine shuts_accept (by decide) (by decide) ?_
    exact opens_phrase trivial rfl (completable_of_opens opens_block) (shuts_alternative condition)
  | declaration =>
    refine forward_look (fun _ _ _ => rfl) (takes_plan .declaration rfl).settles ?_
    rintro (_ | t) next
    · trivial
    · refine forward_advance (opens_identifier fun name => opens_accept (by decide) ?_)
      refine opens_allParameters fun parameters => ?_
      exact opens_phrase trivial rfl (completable_of_opens opens_block) fun body => hdone _
  | block => exact opens_block.forward
  | statements body =>
    have htakes := takes_plan (.statements body) rfl
    refine forward_look (fun _ _ _ => rfl) htakes.settles fun current next => ?_
    refine forward_ite (fun _ => forward_accept _ (hdone _).opens) fun _ => ?_
    refine forward_ite (fun _ => forward_accept _ (shuts_statements body).opens) fun _ => ?_
    exact forward_ite (fun _ => forward_phrase trivial rfl fun n => shuts_statements _)
      fun _ => forward_phrase trivial rfl fun n => shuts_statements _
  | statement =>
    refine forward_look (fun _ _ _ => rfl) (takes_plan .statement rfl).settles ?_
    have hphrase : ∀ p : Phrase, p.Regular → p.Follow = Closes →
        (phrase p .done).Forward Closes := fun p hp hf => forward_phrase hp hf hdone
    rintro (_ | t) next
    · trivial
    · refine forward_ite (fun _ => ?_) fun _ => forward_ite (fun _ => ?_) fun _ => trivial
      · refine forward_ite (fun _ => hphrase _ trivial rfl) fun _ => ?_
        exact forward_ite (fun _ => hphrase _ trivial rfl) fun _ => hphrase _ trivial rfl
      · exact hphrase _ trivial rfl
  | sentence =>
    have hnil : ∀ rest, Follow .sentence rest →
        (Phrase.sentence).plan.run (facing rest) = .ok .absent (facing rest) := by
      rintro rest rfl
      rfl
    have hs : Settles (Follow .sentence) (Phrase.sentence).plan.run := by
      refine settles_look (a := .absent) (fun current next => ?_) hnil
      by_cases hs : reads ";" current = true
      · exact .inl (by simp only [if_pos hs]; exact takes_accept _ _)
      · by_cases hb : current.isNone ∨ reads "\x7b" current
        · exact .inr (by simp only [if_neg hs, if_pos hb])
        · exact .inl (by simp only [if_neg hs, if_neg hb]; exact takes_phrase rfl _)
    refine forward_look (fun _ _ _ => rfl) hs fun current next => ?_
    refine forward_ite (fun _ => forward_accept_of _ ?_ ?_) fun _ => ?_
    · exact ⟨trivial, fun n => ⟨trivial, [], completes_done n, fun rest hr => ⟨hr, hr⟩⟩⟩
    · refine ⟨[], List.forall_mem_nil _, .absent, fun rest hr => ?_⟩
      exact (andThen_ok_self _).trans ((run_eq _ _).trans (hnil rest hr))
    · refine forward_ite (fun _ => trivial) fun _ => ⟨trivial, fun n => ⟨trivial, [],
        completes_done n, ?_⟩⟩
      rintro rest rfl
      exact ⟨closes_nil, closes_nil⟩

/-- Every reading of a phrase is worth something for other lists. -/
theorem replays {p : Phrase} (hp : p.Regular) {ts : List Token} (hl : ∀ t ∈ ts, t.Lexical) :
    Replays p.Follow p.run ts := by
  rw [show p.run = p.plan.run from funext p.run_eq]
  exact (p.ends (facing ts)).replays (fun _ => forward_plan) forward_moreParameters rfl hl
    (forward_plan hp)

end Phrase

end MiniLang
