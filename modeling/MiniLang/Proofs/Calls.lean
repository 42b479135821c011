import Mathlib.Order.Monotone.Basic
import MiniLang.Proofs.Reach
import MiniLang.Proofs.WellFormed
import MiniLang.Session
/-!
# Sequences of calls

Whatever is asked of a session, in whatever order and however it ends, the session shows its stream
from one place on, which never goes back, and it remembers the program that a call of `parse` has
returned last (`Session.consistent_after`).

A repetition is asked like any other call, and its operand may be any call, so calls of `parse` may
be made in the course of one.  `Session.turns` lists the sessions in which a repetition makes its
operand, and `Session.returned` the programs that calls of `parse` return on the way.
-/

set_option autoImplicit false

namespace MiniLang

namespace Session

/-! ## The course of a repetition -/

/-- The sessions in which a repetition makes its operand behind what has been returned. -/
def turnsWhile (operators : List String) (operand : (session : Session) → Reply session)
    (session : Session) : List Session :=
  match hc : session.window.current with
  | none => []
  | some token =>
    if token.text ∈ operators then
      have hw := Window.within_advance (w := session.window) (by simp [hc])
      match ha : session.window.advance with
      | .fail _ _ => []
      | .ok _ w =>
        have hlt : w.left < session.window.left := by rw [ha] at hw; exact hw
        ⟨w, session.remembered⟩ ::
          match operand ⟨w, session.remembered⟩ with
          | ⟨(.error _, _), _⟩ => []
          | ⟨(.ok _, after), h⟩ =>
            have hle : after.window.left ≤ w.left := h
            turnsWhile operators operand after
    else []
termination_by session.window.left
decreasing_by omega

theorem turnsWhile_eq (operators : List String) (operand : (session : Session) → Reply session)
    (session : Session) :
    turnsWhile operators operand session =
      match session.window.current with
      | none => []
      | some token =>
        if token.text ∈ operators then
          match session.window.advance with
          | .fail _ _ => []
          | .ok _ w =>
            ⟨w, session.remembered⟩ ::
              match operand ⟨w, session.remembered⟩ with
              | ⟨(.error _, _), _⟩ => []
              | ⟨(.ok _, after), _⟩ => turnsWhile operators operand after
        else [] := by
  rw [turnsWhile]
  split
  · rename_i hc; simp only [hc]
  · rename_i token hc
    simp only [hc]
    split
    · split
      · rename_i ha; simp only [ha]
      · rename_i ha; simp only [ha]
    · rfl

/-- The sessions in which a repetition makes its operand. -/
def turns (operators : List String) (operand : (session : Session) → Reply session)
    (session : Session) : List Session :=
  session ::
    match operand session with
    | ⟨(.error _, _), _⟩ => []
    | ⟨(.ok _, after), _⟩ => turnsWhile operators operand after

/-- The programs that calls of `parse` return in the course of a call, in their order. -/
def returned (c : Call) (session : Session) : List Node :=
  match c with
  | .parse =>
    match (session.call .parse).1 with
    | .ok (.node program) => [program]
    | _ => []
  | .repeated operators operand =>
    (turns operators (reply operand) session).flatMap (returned operand)
  | _ => []

/-- A session comes to be another one by calls, in the course of which calls of `parse` return some
programs: its window has moved, and the last of the programs is remembered. -/
structure Goes (session : Session) (programs : List Node) (after : Session) : Prop where
  reaches : session.window.Reaches after.window
  remembered : after.remembered = programs.getLast?.or session.remembered
  renders : ∀ program ∈ programs, ∃ text, program.render = .ok text

namespace Goes

variable {session after last : Session} {programs more : List Node}

theorem refl (session : Session) : session.Goes [] session := ⟨.none, rfl, by simp⟩

theorem trans (h : session.Goes programs after) (h' : after.Goes more last) :
    session.Goes (programs ++ more) last where
  reaches := h.reaches.trans h'.reaches
  remembered := by
    rw [h'.remembered, h.remembered, List.getLast?_append]
    cases more.getLast? <;> rfl
  renders := List.forall_mem_append.2 ⟨h.renders, h'.renders⟩

/-- A call other than `parse` only moves the window. -/
theorem of_reaches {w : Window} (h : session.window.Reaches w) :
    session.Goes [] ⟨w, session.remembered⟩ := ⟨h, rfl, by simp⟩

end Goes

section

variable {operators : List String} {operand : (session : Session) → Reply session}
  {found : Session → List Node}

/-- Behind what has been returned, a repetition goes from turn to turn. -/
theorem goes_repeatWhile
    (hoperand : ∀ session : Session, session.Goes (found session) (operand session).val.2)
    (left : Answer) (session : Session) :
    session.Goes ((turnsWhile operators operand session).flatMap found)
      (repeatWhile operators operand left session).val.2 := by
  fun_induction repeatWhile operators operand left session with
  | case1 left session hc =>
    rw [turnsWhile_eq, hc]
    exact .refl session
  | case2 left session token hc ho hw fault w ha =>
    have hmove := Window.Reaches.move session.window
    rw [ha] at hmove
    rw [turnsWhile_eq, hc]
    simp only [ho, ↓reduceIte, ha]
    exact .of_reaches hmove
  | case3 left session token hc ho hw _ w ha hlt fault after h hturn =>
    have hmove := Window.Reaches.move session.window
    have hgoes := hoperand ⟨w, session.remembered⟩
    rw [ha] at hmove
    rw [hturn] at hgoes
    rw [turnsWhile_eq, hc]
    simp only [ho, ↓reduceIte, ha, hturn]
    simpa using (Goes.of_reaches hmove).trans hgoes
  | case4 left session token hc ho hw _ w ha hlt right after h hturn _ reply ih =>
    have hmove := Window.Reaches.move session.window
    have hgoes := hoperand ⟨w, session.remembered⟩
    rw [ha] at hmove
    rw [hturn] at hgoes
    rw [turnsWhile_eq, hc]
    simp only [ho, ↓reduceIte, ha, hturn]
    exact (Goes.of_reaches hmove).trans (hgoes.trans ih)
  | case5 left session token hc ho =>
    rw [turnsWhile_eq, hc]
    simp only [ho, ↓reduceIte]
    exact .refl session

end

/-- The outline is asked for without moving. -/
theorem call_outline_snd (session : Session) : (session.call .outline).2 = session := by
  simp only [call, reply]
  split <;> rfl

/-- A call goes on, and the programs are those that are returned in its course. -/
theorem goes_call (c : Call) (session : Session) :
    session.Goes (returned c session) (session.call c).2 := by
  induction c generalizing session with
  | advance => exact .of_reaches (.move _)
  | reads text => exact .refl session
  | accept text => exact .of_reaches (Window.reaches_accept _ text)
  | read phrase => exact .of_reaches (Phrase.reaches_run phrase _)
  | program => exact .of_reaches (Window.reaches_program _)
  | outline =>
    rw [call_outline_snd]
    exact .refl session
  | parse =>
    refine ⟨Window.reaches_program session.window, ?_, ?_⟩
    · simp only [returned, call, reply]
      cases session.window.program <;> rfl
    · simp only [returned, call, reply]
      cases hp : session.window.program with
      | ok program w =>
        rw [Window.program_eq] at hp
        simpa [Outcome.result, Except.map] using (program_of_readItems (by simp) hp).exists_render
      | fail fault w => simp [Outcome.result, Except.map]
  | repeated operators operand ih =>
    have hfirst := ih session
    rw [call] at hfirst
    simp only [returned, turns, call, reply]
    rcases hr : reply operand session with ⟨⟨_ | left, after⟩, h⟩
    · rw [hr] at hfirst
      simpa using hfirst
    · rw [hr] at hfirst
      exact hfirst.trans (goes_repeatWhile ih left after)

end Session

/-! ## Calls that stay -/

/-- A call that leaves the tokens in view: it has only looked, or it has failed at the token that it
was to move past. -/
inductive Call.Stays : Call → Except Fault Answer → Prop where
  | reads {text : String} {answer : Except Fault Answer} : Stays (.reads text) answer
  | outline {answer : Except Fault Answer} : Stays .outline answer
  | accept {text : String} {fault : Fault} : Stays (.accept text) (.error fault)
  | identifier {fault : Fault} : Stays (.read .identifier) (.error fault)

namespace Session

variable {stream : Stream} {place : Nat} {session : Session}

theorem stands_of_stays {c : Call} (h : session.window.Stands stream place)
    (hs : c.Stays (session.call c).1) : (session.call c).2.window.Stands stream place := by
  generalize ha : (session.call c).1 = answer at hs
  cases hs with
  | reads => exact h
  | outline => rwa [call_outline_snd]
  | @accept text _ =>
    simp only [call, reply, settle] at ha ⊢
    cases hw : session.window.accept text with
    | ok _ w => rw [hw] at ha; cases ha
    | fail fault w => exact h.of_accept_fail hw
  | identifier =>
    simp only [call, val_reply_read, Phrase.run_identifier] at ha ⊢
    cases hw : session.window.identifier with
    | ok n w => rw [hw] at ha; cases ha
    | fail fault w => exact h.of_identifier_fail hw

/-- A call goes on from a place to one that is no nearer to the front. -/
theorem exists_stands_call (h : session.window.Stands stream place) (c : Call) :
    ∃ place₁, place ≤ place₁ ∧ (session.call c).2.window.Stands stream place₁ ∧
      (c.Stays (session.call c).1 → place₁ = place) := by
  by_cases hs : c.Stays (session.call c).1
  · exact ⟨place, Nat.le_refl _, stands_of_stays h hs, fun _ => rfl⟩
  · obtain ⟨place₁, hle, hstands⟩ := (goes_call c session).reaches.exists_stands h
    exact ⟨place₁, hle, hstands, fun hs' => absurd hs' hs⟩

/-! ## Sequences of calls -/

/-- The session after some calls, however each of them ends. -/
def after (session : Session) (calls : List Call) : Session :=
  calls.foldl (fun session c => (session.call c).2) session

/-- The programs that calls of `parse` return in the course of some calls. -/
def returnedBy (session : Session) : List Call → List Node
  | [] => []
  | c :: calls => returned c session ++ (session.call c).2.returnedBy calls

/-- A run makes each call in the session after those before it. -/
theorem getElem?_run (session : Session) (calls : List Call) (n : Nat) :
    (session.run calls)[n]? = calls[n]?.map (session.after (calls.take n)).call := by
  induction calls generalizing session n with
  | nil => rfl
  | cons c calls ih =>
    cases n with
    | zero => rfl
    | succ n => exact ih (session.call c).2 n

theorem after_take_succ {calls : List Call} {n : Nat} {c : Call} (h : calls[n]? = some c) :
    session.after (calls.take (n + 1)) = ((session.after (calls.take n)).call c).2 := by
  rw [List.take_add_one, h, after, List.foldl_append]
  rfl

/-- Sequences of calls go on as single ones do. -/
theorem goes_after (session : Session) (calls : List Call) :
    session.Goes (session.returnedBy calls) (session.after calls) := by
  induction calls generalizing session with
  | nil => exact .refl session
  | cons c calls ih => exact (goes_call c session).trans (ih _)

/-- A sequence of calls goes from place to place, and never back. -/
theorem exists_stands_after (h : session.window.Stands stream place) (calls : List Call) :
    ∃ places : Nat → Nat, places 0 = place ∧ Monotone places ∧ ∀ n,
      (session.after (calls.take n)).window.Stands stream (places n) ∧
      ∀ c, calls[n]? = some c → c.Stays ((session.after (calls.take n)).call c).1 →
        places (n + 1) = places n := by
  induction calls generalizing session place with
  | nil => exact ⟨fun _ => place, rfl, monotone_const, fun n => ⟨by simpa [after] using h, by simp⟩⟩
  | cons c calls ih =>
    obtain ⟨place₁, hle, hstands, hstays⟩ := exists_stands_call h c
    obtain ⟨places, rfl, hmono, hplaces⟩ := ih hstands
    refine ⟨fun n => n.casesOn place places, rfl, monotone_nat_of_le_succ ?_, ?_⟩
    · rintro (_ | n)
      · exact hle
      · exact hmono (Nat.le_succ n)
    · rintro (_ | n)
      · refine ⟨h, fun c' hc' hs => ?_⟩
        cases hc'
        exact hstays hs
      · exact hplaces n

/-- Whatever is asked of a session, it shows its stream from one place on, which never goes back and
which the calls that stay leave alone.  Its outline is that of the program that a call of `parse`
has returned last, and it has none as long as there is no such program. -/
theorem consistent_after (h : start stream = .ok session) (calls : List Call) :
    (∃ places : Nat → Nat, places 0 = 0 ∧ Monotone places ∧
      (∀ n, (session.after (calls.take n)).window.current = stream.element (places n) ∧
        (session.after (calls.take n)).window.next = stream.element (places n + 1)) ∧
      ∀ n c answer later, calls[n]? = some c → (session.run calls)[n]? = some (answer, later) →
        later = session.after (calls.take (n + 1)) ∧
        (c.Stays answer → places (n + 1) = places n)) ∧
    (session.returnedBy calls = [] →
      (session.after calls).call .outline =
        (.error (.syntactic (.other "Program wasn't parsed" none)), session.after calls)) ∧
    ∀ program, (session.returnedBy calls).getLast? = some program →
      ∃ text, program.render = .ok text ∧
        (session.after calls).call .outline = (.ok (.text text), session.after calls) := by
  have hgoes := goes_after session calls
  have hstart : session.window.Stands stream 0 ∧ session.remembered = none := by
    unfold start at h
    split at h
    · cases h
    · rename_i w hw
      cases h
      exact ⟨Window.stands_start hw, rfl⟩
  have hremembered := hgoes.remembered
  rw [hstart.2, Option.or_none] at hremembered
  refine ⟨?_, fun hnone => ?_, fun program hlast => ?_⟩
  · obtain ⟨places, hzero, hmono, hplaces⟩ := exists_stands_after hstart.1 calls
    refine ⟨places, hzero, hmono, fun n => ⟨(hplaces n).1.current, (hplaces n).1.next⟩, ?_⟩
    intro n c answer later hc hrun
    rw [getElem?_run, hc, Option.map_some, Option.some_inj] at hrun
    rw [after_take_succ hc, hrun]
    exact ⟨rfl, fun hs => (hplaces n).2 c hc (by rwa [hrun])⟩
  · rw [hnone, List.getLast?_nil] at hremembered
    simp only [call, reply, hremembered]
    rfl
  · obtain ⟨text, htext⟩ := hgoes.renders program (List.mem_of_getLast? hlast)
    rw [hlast] at hremembered
    refine ⟨text, htext, ?_⟩
    simp only [call, reply, hremembered, htext]
    rfl

/-- A program up to a gap is read by a repetition, behind a text that is not there.  Beyond the gap
no program can be read, and the first one is still remembered. -/
theorem consistent_after_of_gap :
    let stream : Stream := .ofTokens [some ⟨.identifier, "f", ⟨1, 1⟩⟩, some ⟨.special, "(", ⟨1, 2⟩⟩,
      some ⟨.special, ")", ⟨1, 3⟩⟩, none, some ⟨.identifier, "x", ⟨1, 4⟩⟩]
    let session : Session := ⟨⟨stream.element 0, stream.element 1, stream.behind 2 none⟩, none⟩
    let calls := [.accept "x", .repeated ["+"] .parse, .advance, .parse]
    start stream = .ok session ∧
      (session.run calls).map (fun reply => reply.1.toOption.isSome) = [false, true, true, false] ∧
      session.call .outline = (.error .notParsed, session) ∧
      (∃ text, (Node.program [.call (.identifier "f") []]).render = .ok text ∧
        (session.after calls).call .outline = (.ok (.text text), session.after calls)) ∧
      ∃ places : Nat → Nat, Monotone places ∧
        (session.after calls).window.current = stream.element (places 4) := by
  intro stream session calls
  have hstart : start stream = .ok session := by decide +kernel
  obtain ⟨⟨places, -, hmono, hplaces, -⟩, -, hlast⟩ := consistent_after hstart calls
  have hfirst := (consistent_after hstart []).2.1 rfl
  exact ⟨hstart, by decide +kernel, hfirst, hlast _ (by decide +kernel), places, hmono,
    (hplaces 4).1⟩

end Session

end MiniLang
