import Mathlib.Logic.Relation
import MiniLang.Proofs.Cursors
import MiniLang.Proofs.Lockstep
/-!
# Where reading leaves a window

Reading does nothing to a window but move it, token by token, and a move that fails is a move as
well: it leaves the two tokens in view and a stream that has ended.  `Window.Reaches` is any number
of moves, and `Phrase.reaches_run` and `Window.reaches_program` say that every reading comes down to
that, whether it gives a value or fails.  So what a single move keeps, all readings keep.

`Window.Stands` says at which place of a stream a window stands, and `Window.Reaches.exists_stands`
that it only ever goes forward.
-/

set_option autoImplicit false

namespace MiniLang

/-! ## Moves -/

/-- A window comes to be another one by moves, those that fail among them. -/
def Window.Reaches : Window → Window → Prop :=
  Relation.ReflTransGen fun w w₁ => w₁ = w.advance.after

namespace Window.Reaches

variable {w w₁ w₂ : Window}

theorem none : w.Reaches w := Relation.ReflTransGen.refl

theorem trans (h : w.Reaches w₁) (h' : w₁.Reaches w₂) : w.Reaches w₂ :=
  Relation.ReflTransGen.trans h h'

theorem move (w : Window) : w.Reaches w.advance.after := Relation.ReflTransGen.single rfl

end Window.Reaches

/-- Every reading that begins where a window has come to leaves it where it may come to. -/
def tracing (w₀ : Window) : Lockstep where
  level w w' := w = w' ∧ w₀.Reaches w
  apart o _ := ∃ fault w, o = .fail fault w ∧ w₀.Reaches w
  same_view := by
    rintro w _ ⟨rfl, _⟩
    exact ⟨rfl, rfl⟩
  complain := by
    rintro α w _ ⟨rfl, h⟩ complaint
    exact ⟨_, w, rfl, h⟩
  advance := by
    rintro w _ ⟨rfl, h⟩ _
    have hmove := h.trans (.move w)
    cases ha : w.advance with
    | ok u w₁ =>
      rw [ha] at hmove
      exact .inl ⟨w₁, w₁, rfl, rfl, rfl, hmove⟩
    | fail fault w₁ =>
      rw [ha] at hmove
      exact .inr ⟨fault, w₁, rfl, hmove⟩
  stay := by
    rintro α β o o' go ⟨fault, w, rfl, h⟩ _
    exact ⟨fault, w, rfl, h⟩

theorem Lockstep.Agree.reaches {α : Type} {w : Window} {o o' : Outcome α}
    (h : (tracing w).Agree o o') : w.Reaches o.after := by
  cases h with
  | level hl => exact hl.2
  | apart ha =>
    obtain ⟨fault, w₁, rfl, h⟩ := ha
    exact h

/-- Reading a phrase moves a window, however it ends. -/
theorem Phrase.reaches_run (phrase : Phrase) (w : Window) : w.Reaches (phrase.run w).after :=
  (Lockstep.run_phrase (L := tracing w) phrase ⟨rfl, .none⟩).reaches

/-- So does reading a program. -/
theorem Window.reaches_program (w : Window) : w.Reaches w.program.after :=
  (Lockstep.run_program (L := tracing w) ⟨rfl, .none⟩).reaches

/-- So does moving past a token of a given text. -/
theorem Window.reaches_accept (w : Window) (text : String) : w.Reaches (w.accept text).after := by
  unfold accept
  split
  · exact .move w
  · exact .none

/-! ## Places -/

/-- A window stands at a place of a stream.  Either the stream is ahead of it with its fault, which
then stands no nearer than the next token to come into view, or it has ended. -/
structure Window.Stands (stream : Stream) (place : Nat) (w : Window) : Prop where
  current : w.current = stream.element place
  next : w.next = stream.element (place + 1)
  rest : w.rest = stream.behind (place + 2) stream.fault ∧
      (stream.fault.isSome → place + 2 ≤ stream.length) ∨
    w.rest = .ended ∧ stream.length ≤ place + 2

namespace Window

variable {stream : Stream} {place : Nat} {w : Window}

/-- A window is opened at the front of its stream. -/
theorem stands_start (h : start stream = .ok w) : w.Stands stream 0 := by
  obtain ⟨tokens, fault⟩ := stream
  match tokens, fault with
  | [], none => cases h; exact ⟨rfl, rfl, .inl ⟨rfl, by simp⟩⟩
  | [], some _ => cases h
  | [_], none => cases h; exact ⟨rfl, rfl, .inl ⟨rfl, by simp⟩⟩
  | [_], some _ => cases h
  | _ :: _ :: _, _ => cases h; exact ⟨rfl, rfl, .inl ⟨rfl, by simp [Stream.length]⟩⟩

namespace Stands

/-- A move goes to the next place, or it meets the fault of the stream and stays. -/
theorem advance (h : w.Stands stream place) :
    (∃ w₁, w.advance = .ok () w₁ ∧ w₁.Stands stream (place + 1)) ∨
      ∃ fault w₁, w.advance = .fail fault w₁ ∧ w₁.Stands stream place := by
  obtain ⟨current, next, rest⟩ := w
  obtain ⟨hc, hn, ⟨hrest, hbound⟩ | ⟨hrest, hover⟩⟩ := h
  · simp only at hc hn hrest
    subst hc hn hrest
    rcases Nat.lt_or_ge (place + 2) stream.length with hlt | hge
    · refine .inl ⟨_, by rw [Window.advance, Stream.pull_behind hlt], rfl, rfl, .inl ⟨rfl, ?_⟩⟩
      exact fun _ => hlt
    · cases hf : stream.fault with
      | none =>
        refine .inl ⟨_, by rw [Window.advance, Stream.pull_behind_none hge], rfl, rfl, .inl ?_⟩
        exact ⟨by rw [hf], by simp [hf]⟩
      | some e =>
        refine .inr ⟨_, _, by rw [Window.advance, Stream.pull_behind_fault hge], rfl, rfl, ?_⟩
        exact .inr ⟨rfl, hge⟩
  · simp only at hc hn hrest
    subst hc hn hrest
    refine .inl ⟨_, rfl, rfl, (Stream.element_eq_none hover).symm, .inr ⟨rfl, ?_⟩⟩
    exact Nat.le_succ_of_le hover

end Stands

/-- Moves never go back. -/
theorem Reaches.exists_stands {w₁ : Window} (h : w.Reaches w₁) (hw : w.Stands stream place) :
    ∃ place₁, place ≤ place₁ ∧ w₁.Stands stream place₁ := by
  induction h with
  | refl => exact ⟨place, Nat.le_refl _, hw⟩
  | tail _ hmove ih =>
    obtain ⟨place₁, hle, hstands⟩ := ih
    subst hmove
    rcases hstands.advance with ⟨w₂, ha, h₂⟩ | ⟨fault, w₂, ha, h₂⟩
    · exact ⟨place₁ + 1, Nat.le_succ_of_le hle, by rw [ha]; exact h₂⟩
    · exact ⟨place₁, hle, by rw [ha]; exact h₂⟩

/-- A move that fails leaves the window in its place. -/
theorem Stands.of_advance_fail {w₁ : Window} {fault : Fault} (h : w.Stands stream place)
    (ha : w.advance = .fail fault w₁) : w₁.Stands stream place := by
  rcases h.advance with ⟨w₂, hok, _⟩ | ⟨fault', w₂, hfail, h₂⟩
  · rw [ha] at hok
    cases hok
  · rw [ha] at hfail
    cases hfail
    exact h₂

/-- So does a text that is not accepted. -/
theorem Stands.of_accept_fail {w₁ : Window} {fault : Fault} {text : String}
    (h : w.Stands stream place) (ha : w.accept text = .fail fault w₁) : w₁.Stands stream place := by
  unfold accept at ha
  split at ha
  · exact h.of_advance_fail ha
  · cases ha
    exact h

/-- So does an identifier that is not there, or that cannot be passed. -/
theorem Stands.of_identifier_fail {w₁ : Window} {fault : Fault} (h : w.Stands stream place)
    (ha : w.identifier = .fail fault w₁) : w₁.Stands stream place := by
  unfold identifier at ha
  split at ha
  · cases ha
    exact h
  · split at ha
    · rcases Outcome.andThen_eq_fail ha with ha | ⟨_, _, _, ha⟩
      · exact h.of_advance_fail ha
      · cases ha
    · cases ha
      exact h

end Window

end MiniLang
