import MiniLang.Stream
import MiniLang.Node
/-!
# Windows

A tree is read through a window of two tokens that moves over a stream: the current token and the
next one.  Opening a window pulls two tokens, moving it pulls one more, so a fault of the stream
shows when the place of the fault would become the next token.  A pull that fails leaves the two
tokens in view, and the stream has ended.

What a reading gives is an `Outcome`: a value or a fault, and in both cases the window afterwards.
`Window.left` counts what a window has still in view or ahead, and `Outcome.Within` says how a
reading lowers it; the lemmas `within_advance`, `within_accept` and `within_identifier` say it of
the steps that everything else is made of.
-/

set_option autoImplicit false

namespace MiniLang

/-! ## Windows and outcomes -/

/-- The two tokens in view, either of which may be absent, and the stream behind them. -/
structure Window where
  current : Option Token
  next : Option Token
  rest : Stream
  deriving DecidableEq, Repr, Inhabited

/-- A value or a fault, and the window afterwards. -/
inductive Outcome (α : Type) where
  | ok (value : α) (after : Window)
  | fail (fault : Fault) (after : Window)
  deriving DecidableEq, Repr

namespace Outcome

variable {α β : Type}

/-- The window afterwards. -/
def after : Outcome α → Window
  | .ok _ w => w
  | .fail _ w => w

/-- The value or the fault alone. -/
def result : Outcome α → Except Fault α
  | .ok a _ => .ok a
  | .fail fault _ => .error fault

/-- Goes on from the value and the window of an outcome that is no fault. -/
def andThen (outcome : Outcome α) (go : α → Window → Outcome β) : Outcome β :=
  match outcome with
  | .ok a w => go a w
  | .fail fault w => .fail fault w

@[simp] theorem andThen_ok (a : α) (w : Window) (go : α → Window → Outcome β) :
    (Outcome.ok a w).andThen go = go a w := rfl

@[simp] theorem andThen_fail (fault : Fault) (w : Window) (go : α → Window → Outcome β) :
    (Outcome.fail fault w : Outcome α).andThen go = .fail fault w := rfl

end Outcome

namespace Window

/-! ## Steps -/

/-- A window at the front of a stream. -/
def start (stream : Stream) : Except LexicalFault Window :=
  match stream.pull with
  | .error fault => .error fault
  | .ok (current, stream) =>
    match stream.pull with
    | .error fault => .error fault
    | .ok (next, rest) => .ok ⟨current, next, rest⟩

/-- Moves the window by one token. -/
def advance (w : Window) : Outcome Unit :=
  match w.rest.pull with
  | .ok (token, rest) => .ok () ⟨w.next, token, rest⟩
  | .error fault => .fail (.lexical fault) ⟨w.current, w.next, .ended⟩

/-- Whether the current token has a given text. -/
def reads (w : Window) (text : String) : Bool :=
  match w.current with
  | some token => token.text = text
  | none => false

/-- Whether the next token has a given text. -/
def nextReads (w : Window) (text : String) : Bool :=
  match w.next with
  | some token => token.text = text
  | none => false

/-- The fault of a window whose current token is not what was called for. -/
def mismatch (w : Window) (expected : String) : Fault :=
  .syntactic (.mismatched expected w.current)

/-- Moves past a token of a given text. -/
def accept (w : Window) (text : String) : Outcome Unit :=
  if w.reads text then w.advance else .fail (w.mismatch text) w

/-- Moves past an identifier and gives its node. -/
def identifier (w : Window) : Outcome Node :=
  match w.current with
  | none => .fail (w.mismatch "identifier") w
  | some token =>
    if token.kind = .identifier then
      w.advance.andThen fun _ w => .ok (.identifier token.text) w
    else .fail (w.mismatch "identifier") w

/-! ## What is left -/

/-- How much a window has still in view or ahead. -/
def left (w : Window) : Nat :=
  w.rest.length + (if w.next.isSome then 1 else 0) + (if w.current.isSome then 1 else 0)

theorem current_of_reads {w : Window} {text : String} (h : w.reads text = true) :
    ∃ token, w.current = some token ∧ token.text = text := by
  unfold reads at h
  split at h
  · rename_i token hc
    exact ⟨token, hc, by simpa using h⟩
  · simp at h

end Window

/-- An outcome that leaves at least `least` less than `w` had left if it is a value, and no more
than `w` had left if it is a fault. -/
def Outcome.Within {α : Type} (least : Nat) (w : Window) : Outcome α → Prop
  | .ok _ after => after.left + least ≤ w.left
  | .fail _ after => after.left ≤ w.left

/-- An outcome that is within a bound of a window is within it of any window with more left. -/
theorem Outcome.Within.trans {α : Type} {least : Nat} {w w₁ : Window} {outcome : Outcome α}
    (h : outcome.Within least w₁) (hw : w₁.left ≤ w.left) : outcome.Within least w := by
  cases outcome with
  | ok a after => exact Nat.le_trans h hw
  | fail fault after => exact Nat.le_trans h hw

/-- An outcome that leaves so much less leaves any smaller amount less. -/
theorem Outcome.Within.mono {α : Type} {least lesser : Nat} {w : Window} {outcome : Outcome α}
    (h : outcome.Within least w) (hl : lesser ≤ least) : outcome.Within lesser w := by
  cases outcome with
  | ok a after => exact Nat.le_trans (Nat.add_le_add_left hl _) h
  | fail fault after => exact h

/-- Going on without leaving more keeps the bound. -/
theorem Outcome.Within.andThen {α β : Type} {least : Nat} {w : Window} {outcome : Outcome α}
    {go : α → Window → Outcome β} (h : outcome.Within least w)
    (hgo : ∀ a w₁, (go a w₁).Within 0 w₁) : (outcome.andThen go).Within least w := by
  cases outcome with
  | fail fault w₁ => exact h
  | ok a w₁ =>
    have hw := hgo a w₁
    rw [Outcome.andThen_ok]
    cases hg : go a w₁ with
    | ok b w₂ =>
      rw [hg] at hw
      exact Nat.le_trans (Nat.add_le_add_right hw least) h
    | fail fault w₂ =>
      rw [hg] at hw
      exact Nat.le_trans hw (Nat.le_trans (Nat.le_add_right _ least) h)

/-- What a value leaves. -/
theorem Outcome.Within.left_le {α : Type} {least : Nat} {w after : Window} {outcome : Outcome α}
    {a : α} (h : outcome.Within least w) (ho : outcome = .ok a after) :
    after.left + least ≤ w.left := by
  rw [ho] at h
  exact h

/-- However an outcome ends, its window has no more left. -/
theorem Outcome.Within.after_le {α : Type} {least : Nat} {w : Window} {outcome : Outcome α}
    (h : outcome.Within least w) : outcome.after.left ≤ w.left := by
  cases outcome with
  | ok a after => exact Nat.le_trans (Nat.le_add_right _ _) h
  | fail fault after => exact h

namespace Window

/-- Moving a window that shows a current token leaves less. -/
theorem within_advance {w : Window} (h : w.current.isSome) : w.advance.Within 1 w := by
  obtain ⟨current, next, tokens, fault⟩ := w
  simp only at h
  cases tokens with
  | cons token tokens =>
    simp only [advance, Stream.pull, Outcome.Within, left, Stream.length, List.length_cons, h,
      if_true]
    cases next <;> cases token <;> simp
  | nil =>
    cases fault with
    | none => cases next <;> simp [advance, Stream.pull, Outcome.Within, left, h]
    | some fault => simp [advance, Stream.pull, Outcome.Within, left, Stream.length, Stream.ended]

/-- Moving a window never leaves more. -/
theorem within_advance_zero (w : Window) : w.advance.Within 0 w := by
  obtain ⟨current, next, tokens, fault⟩ := w
  cases tokens with
  | cons token tokens =>
    simp only [advance, Stream.pull, Outcome.Within, left, Stream.length, List.length_cons]
    have hle : tokens.length ≤ tokens.length + 1 + 1 := Nat.le_add_right _ 2
    cases current <;> cases next <;> cases token <;> simp [hle]
  | nil =>
    cases fault with
    | none =>
      cases current <;> cases next <;> simp [advance, Stream.pull, Outcome.Within, left]
    | some fault => simp [advance, Stream.pull, Outcome.Within, left, Stream.length, Stream.ended]

theorem isSome_of_reads {w : Window} {text : String} (h : w.reads text = true) :
    w.current.isSome := by
  obtain ⟨token, hc, _⟩ := current_of_reads h
  simp [hc]

theorem within_accept (w : Window) (text : String) : (w.accept text).Within 1 w := by
  unfold accept
  split
  · rename_i h
    exact within_advance (isSome_of_reads h)
  · exact Nat.le_refl _

theorem within_identifier (w : Window) : w.identifier.Within 1 w := by
  unfold identifier
  split
  · exact Nat.le_refl _
  · rename_i token hc
    split
    · have h := within_advance (w := w) (by simp [hc])
      exact h.andThen fun _ _ => Nat.le_refl _
    · exact Nat.le_refl _

end Window

end MiniLang
