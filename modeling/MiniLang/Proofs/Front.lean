import MiniLang.Program
/-!
# Windows over a list of tokens

A stream that gives a list of tokens without gaps, and then its end or a fault.  `Window.front` is
the window at its front: two tokens in view and the others ahead.  Every step takes the first token
off the list, so readings of such windows are equations between lists.
-/

set_option autoImplicit false

namespace MiniLang

namespace Window

/-- The window at the front of the tokens that are still to come, and of what ends them. -/
def front (tokens : List Token) (fault : Option LexicalFault) : Window :=
  ⟨tokens[0]?, tokens[1]?, ⟨(tokens.drop 2).map some, fault⟩⟩

/-- The window at the front of tokens that nothing but their end follows. -/
def facing (tokens : List Token) : Window := front tokens none

/-! ## Steps -/

/-- A window moves as long as the token that comes into view is there. -/
theorem advance_front {t u v : Token} {ts : List Token} {fault : Option LexicalFault} :
    (front (t :: u :: v :: ts) fault).advance = .ok () (front (u :: v :: ts) fault) := rfl

/-- The fault of a stream shows when it would come into view. -/
theorem advance_front_fault {t u : Token} {fault : LexicalFault} :
    (front [t, u] (some fault)).advance = .fail (.lexical fault) ⟨some t, some u, .ended⟩ := rfl

@[simp] theorem advance_facing (t : Token) (ts : List Token) :
    (facing (t :: ts)).advance = .ok () (facing ts) := by
  match ts with
  | [] => rfl
  | [_] => rfl
  | _ :: _ :: _ => rfl

@[simp] theorem current_facing (t : Token) (ts : List Token) :
    (facing (t :: ts)).current = some t := rfl

@[simp] theorem current_facing_nil : (facing []).current = none := rfl

@[simp] theorem next_facing (t : Token) (ts : List Token) : (facing (t :: ts)).next = ts.head? := by
  cases ts <;> rfl

@[simp] theorem reads_facing (t : Token) (ts : List Token) (text : String) :
    (facing (t :: ts)).reads text = decide (t.text = text) := rfl

@[simp] theorem reads_facing_nil (text : String) : (facing []).reads text = false := rfl

@[simp] theorem nextReads_facing (t u : Token) (ts : List Token) (text : String) :
    (facing (t :: u :: ts)).nextReads text = decide (u.text = text) := rfl

@[simp] theorem nextReads_facing_one (t : Token) (text : String) :
    (facing [t]).nextReads text = false := rfl

theorem current_facing_eq (ts : List Token) : (facing ts).current = ts.head? := by
  cases ts <;> rfl

theorem reads_of_head? {ts us : List Token} (h : ts.head? = us.head?) (text : String) :
    (facing ts).reads text = (facing us).reads text := by
  rw [reads, reads, current_facing_eq, current_facing_eq, h]

/-- The next token is the current one of the list without its first token. -/
theorem nextReads_facing_cons (t : Token) (ts : List Token) (text : String) :
    (facing (t :: ts)).nextReads text = (facing ts).reads text := by
  cases ts <;> rfl

/-- What is left of a window over a list is the list. -/
@[simp] theorem left_facing (ts : List Token) : (facing ts).left = ts.length := by
  match ts with
  | [] => rfl
  | [_] => rfl
  | _ :: _ :: _ => simp [facing, front, left, Stream.length]

theorem length_of_facing_eq {ts us : List Token} (h : facing ts = facing us) :
    ts.length = us.length := by
  rw [← left_facing ts, h, left_facing]

theorem start_ofTokens (ts : List Token) :
    start (.ofTokens (ts.map some)) = .ok (facing ts) := by
  match ts with
  | [] => rfl
  | [_] => rfl
  | _ :: _ :: _ => rfl

/-! ## Accepting -/

theorem accept_facing {t : Token} {text : String} (h : t.text = text) (ts : List Token) :
    (facing (t :: ts)).accept text = .ok () (facing ts) := by
  simp [accept, h]

theorem identifier_facing {t : Token} (h : t.kind = .identifier) (ts : List Token) :
    (facing (t :: ts)).identifier = .ok (.identifier t.text) (facing ts) := by
  simp [identifier, h]

/-- A text is accepted only off the front of the list. -/
theorem accept_facing_eq_ok {ts : List Token} {text : String} {u : Unit} {w : Window} :
    (facing ts).accept text = .ok u w ↔
      ∃ t rest, ts = t :: rest ∧ t.text = text ∧ w = facing rest := by
  constructor
  · intro h
    cases ts with
    | nil => simp [accept] at h
    | cons t rest =>
      unfold accept at h
      split at h
      · rename_i ht
        rw [advance_facing] at h
        cases h
        exact ⟨t, rest, rfl, by simpa using ht, rfl⟩
      · simp at h
  · rintro ⟨t, rest, rfl, ht, rfl⟩
    exact accept_facing ht rest

/-- An identifier is taken only off the front of the list. -/
theorem identifier_facing_eq_ok {ts : List Token} {n : Node} {w : Window} :
    (facing ts).identifier = .ok n w ↔
      ∃ t rest, ts = t :: rest ∧ t.kind = .identifier ∧ n = .identifier t.text ∧
        w = facing rest := by
  constructor
  · intro h
    cases ts with
    | nil => simp [identifier] at h
    | cons t rest =>
      simp only [identifier, current_facing] at h
      split at h
      · rename_i ht
        rw [advance_facing, Outcome.andThen_ok] at h
        cases h
        exact ⟨t, rest, rfl, ht, rfl, rfl⟩
      · simp at h
  · rintro ⟨t, rest, rfl, ht, rfl, rfl⟩
    exact identifier_facing ht rest

end Window

/-- An outcome goes on to a value only through a value. -/
theorem Outcome.andThen_eq_ok {α β : Type} {outcome : Outcome α} {go : α → Window → Outcome β}
    {b : β} {w : Window} :
    outcome.andThen go = .ok b w ↔ ∃ a w₁, outcome = .ok a w₁ ∧ go a w₁ = .ok b w := by
  constructor
  · intro h
    cases outcome with
    | ok a w₁ => exact ⟨a, w₁, rfl, h⟩
    | fail fault w₁ => simp at h
  · rintro ⟨a, w₁, rfl, h⟩
    exact h

/-- An outcome fails only through one of its parts. -/
theorem Outcome.andThen_eq_fail {α β : Type} {outcome : Outcome α} {go : α → Window → Outcome β}
    {fault : Fault} {w : Window} (h : outcome.andThen go = .fail fault w) :
    outcome = .fail fault w ∨ ∃ a w₁, outcome = .ok a w₁ ∧ go a w₁ = .fail fault w := by
  cases outcome with
  | ok a w₁ => exact .inr ⟨a, w₁, rfl, h⟩
  | fail fault' w₁ =>
    cases h
    exact .inl rfl

theorem Outcome.andThen_assoc {α β γ : Type} (o : Outcome α) (f : α → Window → Outcome β)
    (g : β → Window → Outcome γ) :
    (o.andThen f).andThen g = o.andThen fun a w => (f a w).andThen g := by
  cases o <;> rfl

/-- What is true of the phrases of the top level is true of the one that a token opens. -/
theorem Token.topLevel_cases {P : Phrase → Prop} (t : Token) (hd : P .declaration)
    (hc : P .conditional) (hb : P .block) (hs : P .sentence) : P t.topLevel := by
  unfold Token.topLevel
  split
  · exact hd
  · split
    · exact hc
    · split
      · exact hb
      · exact hs

/-- The outcome of reading items as a program. -/
def ItemsReading.outcome (reading : ItemsReading) : Outcome Node :=
  reading.ending.andThen fun _ w => .ok (.program reading.items) w

theorem Window.program_eq (w : Window) : w.program = (readItems [] w).outcome := rfl

/-- Reading the items of a program is reading one item and then the others. -/
theorem outcome_readItems (items : List Node) (w : Window) :
    (readItems items w).outcome =
      match w.current with
      | none => .ok (.program items) w
      | some token =>
        (token.topLevel.run w).andThen fun node w₁ =>
          if node = .absent then (readItems items w₁).outcome
          else (readItems (items ++ [node]) w₁).outcome := by
  rw [readItems_eq]
  cases w.current with
  | none => rfl
  | some token =>
    simp only
    cases token.topLevel.run w with
    | fail fault w₁ => rfl
    | ok node w₁ =>
      rw [Outcome.andThen_ok, ← apply_ite ItemsReading.outcome]

end MiniLang
