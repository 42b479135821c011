import MiniLang.Program
/-!
# Sessions

A session is a window that phrases are read from one call after the other, in any order, whatever
the calls before have come to.  A call that fails keeps what it has passed.  The session remembers
the last program that a call of `parse` has returned, and its outline can be asked for.

A call can be repeated as long as an operator follows.  No call leaves more to be read than there
was, and an operator is a token, so that ends: `Session.reply` is a call with this bound, and
`Session.call` the call alone.  `Session.call_repeated_read` says that repeating a phrase reads a
chain of it.
-/

set_option autoImplicit false

namespace MiniLang

/-! ## Calls and answers -/

/-- What can be asked of a session. -/
inductive Call where
  /-- To move by one token. -/
  | advance
  /-- Whether the current token has a given text. -/
  | reads (text : String)
  /-- To move past a token of a given text. -/
  | accept (text : String)
  | read (phrase : Phrase)
  /-- To read a program and to remember it. -/
  | parse
  /-- To read a program. -/
  | program
  /-- The outline of the remembered program. -/
  | outline
  /-- The same call again and again, with an operator between each and the next. -/
  | repeated (operators : List String) (operand : Call)
  deriving Repr

/-- What a call returns. -/
inductive Answer where
  | nothing
  | truth (value : Bool)
  | node (node : Node)
  | text (text : String)
  /-- An operation of what two calls return, one of which is no node. -/
  | binary (left : Answer) (operator : String) (right : Answer)
  deriving DecidableEq, Repr

/-- The operation of what two calls return. -/
def Answer.operation (left : Answer) (operator : String) (right : Answer) : Answer :=
  match left, right with
  | .node left, .node right => .node (.binary left operator right)
  | left, right => .binary left operator right

/-! ## Sessions -/

/-- A window, and the program that was read last. -/
structure Session where
  window : Window
  remembered : Option Node
  deriving DecidableEq, Repr, Inhabited

namespace Session

/-- A session at the front of a stream. -/
def start (stream : Stream) : Except LexicalFault Session :=
  match Window.start stream with
  | .error fault => .error fault
  | .ok w => .ok ⟨w, none⟩

/-- What a call returns, and a session that has no more left than the one that was asked. -/
def Reply (session : Session) : Type :=
  { reply : Except Fault Answer × Session // reply.2.window.left ≤ session.window.left }

/-- The reply that an outcome of reading makes. -/
def settle {α : Type} {least : Nat} (session : Session) (outcome : Outcome α)
    (h : outcome.Within least session.window) (answer : α → Answer) : Reply session :=
  ⟨(outcome.result.map answer, ⟨outcome.after, session.remembered⟩), h.after_le⟩

/-- The reply of a session that has not moved. -/
def stay (session : Session) (answer : Except Fault Answer) : Reply session :=
  ⟨(answer, session), Nat.le_refl _⟩

/-- Goes on after what a call has returned, as long as one of the operators follows. -/
def repeatWhile (operators : List String) (operand : (session : Session) → Reply session)
    (left : Answer) (session : Session) : Reply session :=
  match hc : session.window.current with
  | none => session.stay (.ok left)
  | some token =>
    if token.text ∈ operators then
      have hw := Window.within_advance (w := session.window) (by simp [hc])
      match ha : session.window.advance with
      | .fail fault w => ⟨(.error fault, ⟨w, session.remembered⟩), by rw [ha] at hw; exact hw⟩
      | .ok _ w =>
        have hlt : w.left < session.window.left := by rw [ha] at hw; exact hw
        match operand ⟨w, session.remembered⟩ with
        | ⟨(.error fault, after), h⟩ => ⟨(.error fault, after), Nat.le_trans h (Nat.le_of_lt hlt)⟩
        | ⟨(.ok right, after), h⟩ =>
          have hle : after.window.left ≤ w.left := h
          let reply := repeatWhile operators operand (left.operation token.text right) after
          ⟨reply.val, Nat.le_trans reply.property (Nat.le_trans hle (Nat.le_of_lt hlt))⟩
    else session.stay (.ok left)
termination_by session.window.left
decreasing_by omega

/-- The reply of a session to a call. -/
def reply (c : Call) (session : Session) : Reply session :=
  match c with
  | .advance =>
    session.settle session.window.advance (Window.within_advance_zero _) fun _ => .nothing
  | .reads text => session.stay (.ok (.truth (session.window.reads text)))
  | .accept text =>
    session.settle (session.window.accept text) (Window.within_accept _ text) fun _ => .nothing
  | .read phrase =>
    session.settle (phrase.run session.window) (Phrase.within_run phrase _) .node
  | .parse =>
    ⟨(session.window.program.result.map .node,
      ⟨session.window.program.after,
        match session.window.program with
        | .ok node _ => some node
        | .fail _ _ => session.remembered⟩), (Window.within_program _).after_le⟩
  | .program => session.settle session.window.program (Window.within_program _) .node
  | .outline =>
    match session.remembered with
    | none => session.stay (.error .notParsed)
    | some node => session.stay (node.render.map .text)
  | .repeated operators operand =>
    match reply operand session with
    | ⟨(.error fault, after), h⟩ => ⟨(.error fault, after), h⟩
    | ⟨(.ok left, after), h⟩ =>
      let more := repeatWhile operators (reply operand) left after
      ⟨more.val, Nat.le_trans more.property h⟩

/-- What a call returns, and the session afterwards. -/
def call (session : Session) (c : Call) : Except Fault Answer × Session :=
  (reply c session).val

/-! ## Without bounds -/

/-- A repetition behind what has been returned, without its bound. -/
theorem val_repeatWhile (operators : List String) (operand : (session : Session) → Reply session)
    (left : Answer) (session : Session) :
    (repeatWhile operators operand left session).val =
      match session.window.current with
      | none => (.ok left, session)
      | some token =>
        if token.text ∈ operators then
          match session.window.advance with
          | .fail fault w => (.error fault, ⟨w, session.remembered⟩)
          | .ok _ w =>
            match (operand ⟨w, session.remembered⟩).val with
            | (.error fault, after) => (.error fault, after)
            | (.ok right, after) =>
              (repeatWhile operators operand (left.operation token.text right) after).val
        else (.ok left, session) := by
  rw [repeatWhile]
  split
  · rename_i hc
    simp only [hc]
    rfl
  · rename_i token hc
    simp only [hc]
    split
    · split
      · rename_i ha
        simp only [ha]
      · rename_i w ha
        simp only [ha]
        split
        · rename_i hturn
          simp only [hturn]
        · rename_i hturn
          simp only [hturn]
    · rfl

/-- A repetition, without its bound. -/
theorem call_repeated (operators : List String) (operand : Call) (session : Session) :
    session.call (.repeated operators operand) =
      match session.call operand with
      | (.error fault, after) => (.error fault, after)
      | (.ok left, after) => (repeatWhile operators (reply operand) left after).val := by
  rw [call, call, reply]
  split
  · rename_i h heq
    simp only [heq]
  · rename_i h heq
    simp only [heq]

/-- The reply of a session to a phrase, without its bound. -/
theorem val_reply_read (phrase : Phrase) (session : Session) :
    (reply (.read phrase) session).val =
      ((phrase.run session.window).result.map .node,
        ⟨(phrase.run session.window).after, session.remembered⟩) := by
  rw [reply]
  rfl

/-! ## Repeating a phrase -/

/-- To repeat a phrase after a node is to read what follows the left operand of a chain. -/
theorem val_repeatWhile_read (operators : List String) (phrase : Phrase) (left : Node)
    (session : Session) :
    (repeatWhile operators (reply (.read phrase)) (.node left) session).val =
      ((Phrase.run (.chained operators phrase left) session.window).result.map .node,
        ⟨(Phrase.run (.chained operators phrase left) session.window).after,
          session.remembered⟩) := by
  rw [val_repeatWhile, Phrase.run_chained]
  cases hc : session.window.current with
  | none => rfl
  | some token =>
    have hw := Window.within_advance (w := session.window) (by simp [hc])
    simp only
    split
    · cases ha : session.window.advance with
      | fail fault w => rfl
      | ok _ w =>
        simp only [Outcome.andThen_ok, val_reply_read]
        cases hrun : phrase.run w with
        | fail fault w₁ => rfl
        | ok right w₁ =>
          have hle := (Phrase.within_run phrase w).left_le hrun
          have hlt := hw.left_le ha
          exact val_repeatWhile_read operators phrase (.binary left token.text right)
            ⟨w₁, session.remembered⟩
    · rfl
termination_by session.window.left
decreasing_by omega

/-- To repeat a phrase is to read a chain. -/
theorem call_repeated_read (operators : List String) (phrase : Phrase) (session : Session) :
    session.call (.repeated operators (.read phrase)) =
      session.call (.read (.chain operators phrase)) := by
  rw [call_repeated, call, call, val_reply_read, val_reply_read, Phrase.run_chain]
  cases phrase.run session.window with
  | fail fault w => rfl
  | ok left w => exact val_repeatWhile_read operators phrase left ⟨w, session.remembered⟩

/-! ## Sequences of calls -/

/-- What each call of a sequence returns, with the session after it. -/
def run (session : Session) : List Call → List (Except Fault Answer × Session)
  | [] => []
  | c :: calls => session.call c :: run (session.call c).2 calls

end Session

end MiniLang
