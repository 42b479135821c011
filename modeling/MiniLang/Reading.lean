import MiniLang.Window
/-!
# Readings

A reading is an outcome together with its bound: how much less is left of the window that it began
at.  Readings are put together by `Reading.andThen`, which keeps the bound of the first in sight of
what follows, and so a recursion over readings ends without a bound on its depth.
`Reading.val_andThen` forgets the bounds again.
-/

set_option autoImplicit false

namespace MiniLang

/-- An outcome that is within a bound. -/
def Reading (α : Type) (least : Nat) (w : Window) : Type :=
  { outcome : Outcome α // outcome.Within least w }

namespace Reading

variable {α β : Type} {k m : Nat} {w w₁ : Window}

/-- A value at the window where the reading begins. -/
def done (a : α) : Reading α 0 w := ⟨.ok a w, Nat.le_refl _⟩

/-- A fault at the window where the reading begins. -/
def fault (fault : Fault) : Reading α m w := ⟨.fail fault w, Nat.le_refl _⟩

/-- A reading from further on is within a bound that is no more than what has been passed. -/
theorem within_val (reading : Reading α 0 w₁) (h : w₁.left + k ≤ w.left) (hm : m ≤ k) :
    reading.val.Within m w := by
  obtain ⟨outcome, ho⟩ := reading
  cases outcome with
  | ok a w₂ => exact Nat.le_trans (Nat.add_le_add ho hm) h
  | fail fault w₂ => exact Nat.le_trans ho (Nat.le_trans (Nat.le_add_right _ _) h)

/-- Reads on.  What is known of the whole is what is known of its first part, or less. -/
def andThen (reading : Reading α k w)
    (go : (a : α) → (w₁ : Window) → w₁.left + k ≤ w.left → Reading β 0 w₁)
    (h : m ≤ k := by first | exact Nat.zero_le _ | exact Nat.le_refl _) : Reading β m w :=
  match reading with
  | ⟨.ok a w₁, h₁⟩ => ⟨(go a w₁ h₁).val, (go a w₁ h₁).within_val h₁ h⟩
  | ⟨.fail fault w₁, h₁⟩ => ⟨.fail fault w₁, h₁⟩

/-- The same reading, with less known of how much it takes. -/
def weaken (reading : Reading α k w)
    (h : m ≤ k := by first | exact Nat.zero_le _ | exact Nat.le_refl _) : Reading α m w :=
  ⟨reading.val, reading.property.mono h⟩

/-- Moves by one token where there is one. -/
def advance (w : Window) (h : w.current.isSome) : Reading Unit 1 w :=
  ⟨w.advance, Window.within_advance h⟩

/-- Moves past a token of a given text. -/
def accept (w : Window) (text : String) : Reading Unit 1 w :=
  ⟨w.accept text, Window.within_accept w text⟩

/-- Moves past an identifier. -/
def identifier (w : Window) : Reading Node 1 w := ⟨w.identifier, Window.within_identifier w⟩

/-- Without the bounds, reading on is going on from an outcome. -/
theorem val_andThen (reading : Reading α k w) {h : m ≤ k}
    {go : (a : α) → (w₁ : Window) → w₁.left + k ≤ w.left → Reading β 0 w₁}
    {next : α → Window → Outcome β} (hgo : ∀ a w₁ h₁, (go a w₁ h₁).val = next a w₁) :
    (reading.andThen go h).val = reading.val.andThen next := by
  obtain ⟨outcome, _⟩ := reading
  cases outcome with
  | ok a w₁ => exact hgo a w₁ _
  | fail fault w₁ => rfl

@[simp] theorem val_done {a : α} : (done a : Reading α 0 w).val = .ok a w := rfl

@[simp] theorem val_fault {e : Fault} : (fault e : Reading α m w).val = .fail e w := rfl

@[simp] theorem val_weaken {reading : Reading α k w} {h : m ≤ k} :
    (reading.weaken h).val = reading.val := rfl

@[simp] theorem val_advance {h : w.current.isSome} : (advance w h).val = w.advance := rfl

@[simp] theorem val_accept {text : String} : (accept w text).val = w.accept text := rfl

@[simp] theorem val_identifier : (identifier w).val = w.identifier := rfl

end Reading

end MiniLang
