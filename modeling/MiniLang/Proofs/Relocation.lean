import Mathlib.Data.List.Forall2
import MiniLang.Proofs.Calls
import MiniLang.Proofs.FailsAfter
/-!
# Tokens in other places

No reading takes notice of where a token stands: to take the places of all tokens away before a call
is to take them away after it (`Session.call_unplaced`).  So two streams that differ in nothing but
places answer every sequence of calls alike (`Session.run_alike`): with the same nodes, truth values
and texts, or with faults of one kind and wording about tokens that differ in their places at most.
-/

set_option autoImplicit false

namespace MiniLang

/-! ## Without places -/

/-- A syntax fault without regard to the place of its token. -/
def SyntaxFault.unplaced : SyntaxFault → SyntaxFault
  | .mismatch expected found token => .mismatch expected found (token.map Token.unplaced)
  | .expectedStatement token => .expectedStatement (token.map Token.unplaced)
  | .afterIdentifier token => .afterIdentifier (token.map Token.unplaced)
  | .expectedEnd token => .expectedEnd token.unplaced
  | .other message token => .other message (token.map Token.unplaced)

/-- A fault without regard to the place of the token that it is about.  The place of a lexical fault
is no token's. -/
def Fault.unplaced : Fault → Fault
  | .syntactic fault => .syntactic fault.unplaced
  | fault => fault

/-- An outcome without regard to the places of tokens. -/
def Outcome.unplaced {α : Type} : Outcome α → Outcome α
  | .ok a w => .ok a w.unplaced
  | .fail fault w => .fail fault.unplaced w.unplaced

/-- A stream without regard to the places of its tokens. -/
def Stream.unplaced (stream : Stream) : Stream :=
  ⟨stream.tokens.map (Option.map Token.unplaced), stream.fault⟩

/-- A session without regard to the places of the tokens that it shows or has ahead. -/
def Session.unplaced (session : Session) : Session :=
  ⟨session.window.unplaced, session.remembered⟩

/-- What a call returns and the session afterwards, without regard to the places of tokens. -/
def Session.replyUnplaced (reply : Except Fault Answer × Session) :
    Except Fault Answer × Session :=
  (reply.1.mapError Fault.unplaced, reply.2.unplaced)

theorem Token.textOrNull_unplaced (token : Option Token) :
    Token.textOrNull (token.map Token.unplaced) = Token.textOrNull token := by
  cases token <;> rfl

theorem SyntaxFault.message_unplaced (fault : SyntaxFault) :
    fault.unplaced.message = fault.message := by
  unfold unplaced message
  cases fault with
  | mismatch expected found token => rfl
  | expectedStatement token => simp only [Option.map_map, Function.comp_def]
  | afterIdentifier token => simp only [Token.textOrNull_unplaced]
  | expectedEnd token => rfl
  | other cause token => rfl

/-- No wording of a fault tells where its token stands. -/
theorem Fault.message_unplaced (fault : Fault) : fault.unplaced.message = fault.message := by
  cases fault with
  | syntactic fault => exact fault.message_unplaced
  | _ => rfl

/-! ## Windows -/

namespace Window

@[simp] theorem current_unplaced (w : Window) :
    w.unplaced.current = w.current.map Token.unplaced := rfl

@[simp] theorem next_unplaced (w : Window) : w.unplaced.next = w.next.map Token.unplaced := rfl

theorem map_unplaced_map_unplaced (token : Option Token) :
    (token.map Token.unplaced).map Token.unplaced = token.map Token.unplaced := by
  cases token <;> rfl

theorem reads_unplaced (w : Window) (text : String) : w.unplaced.reads text = w.reads text := by
  unfold reads
  rw [current_unplaced]
  cases w.current <;> rfl

theorem advance_unplaced (w : Window) : w.unplaced.advance = w.advance.unplaced := by
  obtain ⟨current, next, tokens, fault⟩ := w
  cases tokens with
  | cons token tokens => rfl
  | nil => cases fault <;> rfl

/-- What was found instead of what was called for is a text, which has no place. -/
theorem mismatch_unplaced (w : Window) (expected : String) :
    w.unplaced.mismatch expected = (w.mismatch expected).unplaced := by
  unfold mismatch SyntaxFault.mismatched
  rw [current_unplaced, Token.textOrNull_unplaced]
  rfl

theorem accept_unplaced (w : Window) (text : String) :
    w.unplaced.accept text = (w.accept text).unplaced := by
  unfold accept
  rw [reads_unplaced]
  split
  · exact advance_unplaced w
  · rw [mismatch_unplaced]
    rfl

theorem start_unplaced (stream : Stream) :
    start stream.unplaced = (start stream).map Window.unplaced := by
  obtain ⟨tokens, fault⟩ := stream
  match tokens, fault with
  | [], none => rfl
  | [], some _ => rfl
  | [_], none => rfl
  | [_], some _ => rfl
  | _ :: _ :: _, _ => rfl

end Window

theorem Complaint.fault_unplaced (complaint : Complaint) (w : Window) :
    complaint.fault w.unplaced = (complaint.fault w).unplaced := by
  cases complaint with
  | mismatch expected => exact w.mismatch_unplaced expected
  | _ => rfl

/-- Reading a window beside reading it without places. -/
def erasing : Lockstep where
  level w w' := w' = w.unplaced
  apart o o' := ∃ fault w, o = .fail fault w ∧ o' = .fail fault.unplaced w.unplaced
  same_view := by
    rintro w _ rfl
    exact ⟨(Window.map_unplaced_map_unplaced _).symm, (Window.map_unplaced_map_unplaced _).symm⟩
  complain := by
    rintro α w _ rfl complaint
    refine ⟨complaint.fault w, w, rfl, ?_⟩
    exact congrArg (Outcome.fail · w.unplaced) (complaint.fault_unplaced w)
  advance := by
    rintro w _ rfl _
    rw [Window.advance_unplaced]
    cases w.advance with
    | ok u w₁ => exact .inl ⟨w₁, w₁.unplaced, rfl, rfl, rfl⟩
    | fail fault w₁ => exact .inr ⟨fault, w₁, rfl, rfl⟩
  stay := by
    rintro α β _ _ go ⟨fault, w, rfl, rfl⟩ _
    exact ⟨fault, w, rfl, rfl⟩

theorem Lockstep.Agree.eq_unplaced {α : Type} {o o' : Outcome α} (h : erasing.Agree o o') :
    o' = o.unplaced := by
  cases h with
  | level hl =>
    subst hl
    rfl
  | apart ha =>
    obtain ⟨fault, w, rfl, rfl⟩ := ha
    rfl

/-- A phrase is read without places as it is with them. -/
theorem Phrase.run_unplaced (phrase : Phrase) (w : Window) :
    phrase.run w.unplaced = (phrase.run w).unplaced :=
  (Lockstep.run_phrase (L := erasing) phrase rfl).eq_unplaced

/-- So is a program. -/
theorem Window.program_unplaced (w : Window) : w.unplaced.program = w.program.unplaced :=
  (Lockstep.run_program (L := erasing) rfl).eq_unplaced

/-! ## Sessions -/

namespace Session

/-- The reply that an outcome makes is without places that of the outcome without places. -/
theorem settle_unplaced {α : Type} {least : Nat} {session : Session} {o o' : Outcome α}
    (ho : o' = o.unplaced) (h : o.Within least session.window)
    (h' : o'.Within least session.unplaced.window) (answer : α → Answer) :
    (session.unplaced.settle o' h' answer).val = replyUnplaced (session.settle o h answer).val := by
  subst ho
  cases o <;> rfl

/-- A repetition goes the same way without places, as far as its operand does. -/
theorem repeatWhile_unplaced {operators : List String}
    {operand : (session : Session) → Reply session}
    (hoperand : ∀ session : Session,
      (operand session.unplaced).val = replyUnplaced (operand session).val)
    (left : Answer) (session : Session) :
    (repeatWhile operators operand left session.unplaced).val =
      replyUnplaced (repeatWhile operators operand left session).val := by
  fun_induction repeatWhile operators operand left session with
  | case1 left session hc =>
    rw [val_repeatWhile]
    simp only [Session.unplaced, Window.current_unplaced, hc, Option.map_none]
    rfl
  | case2 left session token hc ho hw fault w ha =>
    rw [val_repeatWhile]
    simp only [Session.unplaced, Window.current_unplaced, hc, Option.map_some, ho, ↓reduceIte,
      Window.advance_unplaced, ha, Outcome.unplaced]
    rfl
  | case3 left session token hc ho hw _ w ha hlt fault after h hturn =>
    have hval := hoperand ⟨w, session.remembered⟩
    rw [hturn] at hval
    rw [val_repeatWhile]
    simp only [Session.unplaced, Window.current_unplaced, hc, Option.map_some, ho, ↓reduceIte,
      Window.advance_unplaced, ha, Outcome.unplaced] at hval ⊢
    simp only [hval]
    rfl
  | case4 left session token hc ho hw _ w ha hlt right after h hturn _ reply ih =>
    have hval := hoperand ⟨w, session.remembered⟩
    rw [hturn] at hval
    rw [val_repeatWhile]
    simp only [Session.unplaced, Window.current_unplaced, hc, Option.map_some, ho, ↓reduceIte,
      Window.advance_unplaced, ha, Outcome.unplaced] at hval ⊢
    simp only [hval]
    exact ih
  | case5 left session token hc ho =>
    rw [val_repeatWhile]
    simp only [Session.unplaced, Window.current_unplaced, hc, Option.map_some, ho, ↓reduceIte]
    rfl

/-- To take the places of tokens away before a call is to take them away after it. -/
theorem call_unplaced (c : Call) (session : Session) :
    session.unplaced.call c = replyUnplaced (session.call c) := by
  induction c generalizing session with
  | advance => exact settle_unplaced (Window.advance_unplaced _) _ _ _
  | reads text =>
    have hreads := Window.reads_unplaced session.window text
    simp only [call, reply, stay, Session.unplaced, hreads]
    rfl
  | accept text => exact settle_unplaced (Window.accept_unplaced _ text) _ _ _
  | read phrase => exact settle_unplaced (Phrase.run_unplaced phrase _) _ _ _
  | program => exact settle_unplaced (Window.program_unplaced _) _ _ _
  | outline =>
    obtain ⟨w, remembered⟩ := session
    cases remembered with
    | none => rfl
    | some node =>
      -- what has no outline is no token
      simp only [call, reply, Session.unplaced, Node.render_eq, Outline.text?]
      split <;> rfl
  | parse =>
    have hprogram := Window.program_unplaced session.window
    simp only [call, reply, Session.unplaced, hprogram]
    cases session.window.program <;> rfl
  | repeated operators operand ih =>
    rw [call_repeated, call_repeated, ih session]
    rcases session.call operand with ⟨_ | left, after⟩
    · rfl
    · exact repeatWhile_unplaced ih left after

/-- To take the places of tokens away before some calls is to take them away after each. -/
theorem run_unplaced (session : Session) (calls : List Call) :
    session.unplaced.run calls = (session.run calls).map replyUnplaced := by
  induction calls generalizing session with
  | nil => rfl
  | cons c calls ih =>
    rw [run, run, List.map_cons, call_unplaced]
    exact congrArg _ (ih (session.call c).2)

theorem start_unplaced (stream : Stream) :
    start stream.unplaced = (start stream).map Session.unplaced := by
  rw [start, start, Window.start_unplaced]
  cases Window.start stream <;> rfl

end Session

/-! ## Streams that differ in places -/

/-- The same value, or faults of one kind and wording that are about the same token but for its
place. -/
inductive SameResult {α : Type} : Except Fault α → Except Fault α → Prop where
  | ok (value : α) : SameResult (.ok value) (.ok value)
  | error {fault fault' : Fault} (h : fault.unplaced = fault'.unplaced)
      (hm : fault.message = fault'.message) : SameResult (.error fault) (.error fault')

theorem sameResult_of_mapError {α : Type} {result result' : Except Fault α}
    (h : result.mapError Fault.unplaced = result'.mapError Fault.unplaced) :
    SameResult result result' := by
  cases result with
  | ok value =>
    cases result' with
    | ok value' => cases h; exact .ok value
    | error fault' => cases h
  | error fault =>
    cases result' with
    | ok value' => cases h
    | error fault' =>
      have hu : fault.unplaced = fault'.unplaced := Except.error.inj h
      exact .error hu (by rw [← fault.message_unplaced, hu, fault'.message_unplaced])

/-- Kinds and texts are all that is left of tokens without places. -/
theorem ofSource_unplaced_of_contents_eq {source source' : String}
    (hf : (tokenize source).fault = (tokenize source').fault)
    (h : (tokenize source).tokens.map (fun t => (t.kind, t.text)) =
      (tokenize source').tokens.map (fun t => (t.kind, t.text))) :
    (Stream.ofSource source).unplaced = (Stream.ofSource source').unplaced := by
  have hmap := congrArg (List.map fun content : Kind × String =>
    some (⟨content.1, content.2, .start⟩ : Token)) h
  simp only [List.map_map, Function.comp_def] at hmap
  simp only [Stream.ofSource, Stream.unplaced, hf, List.map_map, Function.comp_def, Option.map_some,
    hmap]

theorem parse_unplaced (stream : Stream) :
    parse stream.unplaced = (parse stream).mapError Fault.unplaced := by
  rw [parse, parse, Window.start_unplaced]
  cases Window.start stream with
  | error fault => rfl
  | ok w =>
    simp only [Except.map, Window.program_unplaced]
    cases w.program <;> rfl

namespace Session

/-- Replies with the same result, and windows that show the same but for places. -/
structure Alike (reply reply' : Except Fault Answer × Session) : Prop where
  result : SameResult reply.1 reply'.1
  window : reply.2.window.unplaced = reply'.2.window.unplaced

theorem alike_of_replyUnplaced {reply reply' : Except Fault Answer × Session}
    (h : replyUnplaced reply = replyUnplaced reply') : Alike reply reply' where
  result := sameResult_of_mapError (congrArg Prod.fst h)
  window := congrArg (fun reply => reply.2.window) h

theorem forall₂_alike {session session' : Session} (h : session.unplaced = session'.unplaced)
    (calls : List Call) : List.Forall₂ Alike (session.run calls) (session'.run calls) := by
  have hrun : (session.run calls).map replyUnplaced = (session'.run calls).map replyUnplaced := by
    rw [← run_unplaced, ← run_unplaced, h]
  rw [← List.forall₂_eq_eq_eq, List.forall₂_map_left_iff, List.forall₂_map_right_iff] at hrun
  exact hrun.imp fun _ _ => alike_of_replyUnplaced

/-- Sessions on streams that are the same without places are opened alike. -/
theorem start_of_unplaced_eq {stream stream' : Stream} (h : stream.unplaced = stream'.unplaced) :
    (∃ fault, start stream = .error fault ∧ start stream' = .error fault) ∨
      ∃ session session', start stream = .ok session ∧ start stream' = .ok session' ∧
        session.unplaced = session'.unplaced := by
  have hstart : (start stream).map Session.unplaced = (start stream').map Session.unplaced := by
    rw [← start_unplaced, ← start_unplaced, h]
  cases hs : start stream with
  | error fault =>
    cases hs' : start stream' with
    | error fault' =>
      rw [hs, hs'] at hstart
      cases hstart
      exact .inl ⟨fault, rfl, rfl⟩
    | ok session' =>
      rw [hs, hs'] at hstart
      cases hstart
  | ok session =>
    cases hs' : start stream' with
    | error fault' =>
      rw [hs, hs'] at hstart
      cases hstart
    | ok session' =>
      rw [hs, hs'] at hstart
      exact .inr ⟨session, session', rfl, rfl, Except.ok.inj hstart⟩

/-- Streams that differ in nothing but the places of their tokens are read alike: sessions on them
cannot be opened for the same fault, or they answer all sequences of calls alike.  So source texts
without a lexical fault that have the same kinds and texts of tokens have the same program, or
faults that differ in places. -/
theorem run_alike :
    (∀ stream stream' : Stream, stream.unplaced = stream'.unplaced →
      (∃ fault, start stream = .error fault ∧ start stream' = .error fault) ∨
      ∃ session session', start stream = .ok session ∧ start stream' = .ok session' ∧
        session.window.unplaced = session'.window.unplaced ∧
        ∀ calls, List.Forall₂ Alike (session.run calls) (session'.run calls)) ∧
    ∀ source source' : String, (tokenize source).fault = none → (tokenize source').fault = none →
      (tokenize source).tokens.map (fun t => (t.kind, t.text)) =
        (tokenize source').tokens.map (fun t => (t.kind, t.text)) →
      SameResult (parse (.ofSource source)) (parse (.ofSource source')) := by
  refine ⟨fun stream stream' h => ?_, fun source source' hf hf' h => ?_⟩
  · rcases start_of_unplaced_eq h with hfault | ⟨session, session', hs, hs', hsession⟩
    · exact .inl hfault
    · exact .inr ⟨session, session', hs, hs', congrArg Session.window hsession,
        forall₂_alike hsession⟩
  · refine sameResult_of_mapError ?_
    rw [← parse_unplaced, ← parse_unplaced, ofSource_unplaced_of_contents_eq (hf.trans hf'.symm) h]

/-- A statement over several lines, with a closing parenthesis that no statement begins with.  The
faults are about the same token in two places, and the same goes for what is in view after calls
that fail and calls that do not. -/
theorem run_alike_of_line_breaks :
    let source := "x=1+2 )"
    let source' := "x =\n  1\n+ 2)"
    let calls := [.advance, .parse, .accept "=", .repeated ["+"] (.read .primary), .parse]
    (tokenize source).tokens ≠ (tokenize source').tokens ∧
      parse (.ofSource source) ≠ parse (.ofSource source') ∧
      SameResult (parse (.ofSource source)) (parse (.ofSource source')) ∧
      ∃ session session', start (.ofSource source) = .ok session ∧
        start (.ofSource source') = .ok session' ∧
        List.Forall₂ Alike (session.run calls) (session'.run calls) := by
  intro source source' calls
  have hcontents : (tokenize source).tokens.map (fun t => (t.kind, t.text)) =
      (tokenize source').tokens.map (fun t => (t.kind, t.text)) := by decide +kernel
  have hfault : (tokenize source).fault = none := by decide +kernel
  have hfault' : (tokenize source').fault = none := by decide +kernel
  refine ⟨by decide +kernel, by decide +kernel,
    run_alike.2 source source' hfault hfault' hcontents, ?_⟩
  rcases run_alike.1 (.ofSource source) (.ofSource source') (by decide +kernel) with
    ⟨fault, hs, _⟩ | ⟨session, session', hs, hs', _, hrun⟩
  · have hstart : (start (.ofSource source)).isOk = true := by decide +kernel
    rw [hs] at hstart
    cases hstart
  · exact ⟨session, session', hs, hs', hrun calls⟩

end Session

end MiniLang
