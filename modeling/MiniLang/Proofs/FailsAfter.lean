import MiniLang.Proofs.Lockstep
/-!
# Where parsing fails

A list of tokens that is not parsed fails after some of its tokens have been read, and it does so in
one way only (`FailsAfter`).  The text of the same tokens with a lexical fault behind them is read
beside the list (`faultBeside`): it fails in the same way where two tokens at least are left, and
otherwise its own fault comes out (`parse_of_fault`).
-/

set_option autoImplicit false

namespace MiniLang

open Window

/-! ## Reading a list of tokens -/

/-- A reading of a list of tokens passes a front of it and has the rest in view. -/
def passing (ts : List Token) : Lockstep where
  level w w' := w = w' ∧ ∃ read rest, ts = read ++ rest ∧ w = facing rest
  apart o _ := ∃ fault read rest, ts = read ++ rest ∧ o = .fail fault (facing rest)
  same_view := by
    rintro w _ ⟨rfl, _⟩
    exact ⟨rfl, rfl⟩
  complain := by
    rintro α w _ ⟨rfl, read, rest, hts, rfl⟩ complaint
    exact ⟨_, read, rest, hts, rfl⟩
  advance := by
    rintro w _ ⟨rfl, read, rest, hts, rfl⟩ hc
    cases rest with
    | nil => exact Bool.noConfusion hc
    | cons t rest =>
      refine .inl ⟨facing rest, facing rest, advance_facing t rest, advance_facing t rest, rfl, ?_⟩
      exact ⟨read ++ [t], rest, by simpa using hts, rfl⟩
  stay := by
    rintro α β o o' go ⟨fault, read, rest, hts, rfl⟩ _
    exact ⟨fault, read, rest, hts, rfl⟩

/-- A program that cannot be read is left somewhere in the list. -/
theorem exists_rest_of_fail {ts : List Token} {fault : Fault} {w : Window}
    (h : (facing ts).program = .fail fault w) :
    ∃ read rest, ts = read ++ rest ∧ w = facing rest := by
  have hrun : (passing ts).Agree (facing ts).program (facing ts).program :=
    Lockstep.run_program ⟨rfl, [], ts, rfl, rfl⟩
  rw [h] at hrun
  cases hrun with
  | apart ha =>
    obtain ⟨_, read, rest, hts, hf⟩ := ha
    cases hf
    exact ⟨read, rest, hts, rfl⟩

/-- What is read of a list is a front of it. -/
theorem Phrase.exists_rest_of_run {p : Phrase} {ts : List Token} {n : Node} {w : Window}
    (h : p.run (facing ts) = .ok n w) : ∃ read rest, ts = read ++ rest ∧ w = facing rest := by
  have hrun : (passing ts).Agree (p.run (facing ts)) (p.run (facing ts)) :=
    Lockstep.run_phrase p ⟨rfl, [], ts, rfl, rfl⟩
  rw [h] at hrun
  cases hrun with
  | level hl =>
    obtain ⟨_, read, rest, hts, hw⟩ := hl
    exact ⟨read, rest, hts, hw⟩
  | apart ha =>
    obtain ⟨_, _, _, _, hf⟩ := ha
    cases hf

/-- The items of a program end where no token is in view. -/
theorem current_of_readItems {items : List Node} {w w₁ : Window} {n : Node}
    (h : (readItems items w).outcome = .ok n w₁) : w₁.current = none := by
  induction hn : w.left using Nat.strongRecOn generalizing items w with
  | ind k ih =>
    rw [outcome_readItems] at h
    split at h
    · rename_i hc
      cases h
      exact hc
    · rename_i t hc
      obtain ⟨m, w₂, hm, h⟩ := Outcome.andThen_eq_ok.1 h
      have hw := (Token.within_run_topLevel hc).left_le hm
      split at h
      · exact ih w₂.left (by omega) h rfl
      · exact ih w₂.left (by omega) h rfl

/-! ## Reading beside a fault -/

/-- Reading tokens that a fault ends, beside reading the tokens alone.  The two part for good when
the first meets the fault, and then the other has one token left at most. -/
def faultBeside (e : LexicalFault) : Lockstep where
  level w w' := ∃ t u ts, w = front (t :: u :: ts) (some e) ∧ w' = facing (t :: u :: ts)
  apart o o' :=
    (∃ fault w w', o = .fail fault w ∧ o' = .fail fault w' ∧ 2 ≤ w'.left) ∨
      (∃ w, o = .fail (.lexical e) w) ∧ o'.after.left ≤ 1
  same_view := by
    rintro _ _ ⟨t, u, ts, rfl, rfl⟩
    exact ⟨rfl, rfl⟩
  complain := by
    rintro α _ _ ⟨t, u, ts, rfl, rfl⟩ complaint
    have hfault : complaint.fault (front (t :: u :: ts) (some e)) =
        complaint.fault (facing (t :: u :: ts)) := by
      cases complaint <;> rfl
    exact .inl ⟨_, front (t :: u :: ts) (some e), facing (t :: u :: ts), by rw [hfault], rfl,
      by simp⟩
  advance := by
    rintro _ _ ⟨t, u, ts, rfl, rfl⟩ _
    cases ts with
    | nil => exact .inr (.inr ⟨⟨_, advance_front_fault⟩, by simp [Outcome.after]⟩)
    | cons v ts =>
      exact .inl ⟨_, _, advance_front, advance_facing _ _, u, v, ts, rfl, rfl⟩
  stay := by
    rintro α β o o' go (⟨fault, w, w', rfl, rfl, hw⟩ | ⟨⟨w, rfl⟩, hw⟩) hgo
    · exact .inl ⟨fault, w, w', rfl, rfl, hw⟩
    · refine .inr ⟨⟨w, rfl⟩, ?_⟩
      cases o' with
      | fail fault w' => exact hw
      | ok a w' => exact Nat.le_trans (hgo a w').after_le hw

/-- What comes of tokens that a fault ends: their own fault, if it shows while two tokens are left
at least, and else the fault that ends them. -/
theorem program_front (t u : Token) (ts : List Token) (e : LexicalFault) :
    (∃ fault w w', (front (t :: u :: ts) (some e)).program = .fail fault w ∧
      (facing (t :: u :: ts)).program = .fail fault w' ∧ 2 ≤ w'.left) ∨
      (∃ w, (front (t :: u :: ts) (some e)).program = .fail (.lexical e) w) ∧
        (facing (t :: u :: ts)).program.after.left ≤ 1 := by
  have hrun : (faultBeside e).Agree (front (t :: u :: ts) (some e)).program
      (facing (t :: u :: ts)).program :=
    Lockstep.run_program ⟨t, u, ts, rfl, rfl⟩
  generalize ho : (front (t :: u :: ts) (some e)).program = o at hrun ⊢
  generalize (facing (t :: u :: ts)).program = o' at hrun ⊢
  cases hrun with
  | apart ha => exact ha
  | level hl =>
    -- a program is read only where no token is in view, and level windows have two
    obtain ⟨v, v', vs, rfl, _⟩ := hl
    rw [Window.program_eq] at ho
    have := current_of_readItems ho
    simp [front] at this

/-! ## Which fault comes out -/

/-- Parsing a list of tokens fails once the tokens `read` have been passed. -/
def FailsAfter (ts read : List Token) (fault : Fault) : Prop :=
  ∃ w rest, ts = read ++ rest ∧ start (.ofTokens (ts.map some)) = .ok w ∧
    w.program = .fail fault (facing rest)

theorem failsAfter_iff {ts read : List Token} {fault : Fault} :
    FailsAfter ts read fault ↔
      ∃ rest, ts = read ++ rest ∧ (facing ts).program = .fail fault (facing rest) := by
  unfold FailsAfter
  rw [start_ofTokens]
  constructor
  · rintro ⟨w, rest, hts, hw, hp⟩
    cases hw
    exact ⟨rest, hts, hp⟩
  · rintro ⟨rest, hts, hp⟩
    exact ⟨facing ts, rest, hts, rfl, hp⟩

/-- What fails after some tokens is not parsed. -/
theorem FailsAfter.parse_eq {ts read : List Token} {fault : Fault}
    (h : FailsAfter ts read fault) : parse (.ofTokens (ts.map some)) = .error fault := by
  obtain ⟨w, rest, -, hstart, hp⟩ := h
  rw [parse, hstart]
  simp only [hp, Outcome.result]

/-- Without a fault the tokens of a source text are all there is to it. -/
theorem ofSource_of_fault_eq_none {source : String} (h : (tokenize source).fault = none) :
    Stream.ofSource source = .ofTokens ((tokenize source).tokens.map some) := by
  rw [Stream.ofSource, h]
  rfl

/-- A source text with a lexical fault is read up to the fault of its tokens, or up to its own. -/
theorem parse_of_fault {source : String} {e : LexicalFault}
    (h : (tokenize source).fault = some e) :
    (∃ fault read, FailsAfter (tokenize source).tokens read fault ∧
      read.length + 2 ≤ (tokenize source).tokens.length ∧
        parse (.ofSource source) = .error fault) ∨
      (∀ fault read, FailsAfter (tokenize source).tokens read fault →
        (tokenize source).tokens.length < read.length + 2) ∧
          parse (.ofSource source) = .error (.lexical e) := by
  simp only [failsAfter_iff]
  unfold parse Stream.ofSource
  rw [h]
  generalize (tokenize source).tokens = ts
  match ts with
  | [] => exact .inr ⟨fun _ read _ => by simp, rfl⟩
  | [t] => exact .inr ⟨fun _ read _ => by simp, rfl⟩
  | t :: u :: ts =>
    have hstart : start ⟨(t :: u :: ts).map some, some e⟩ = .ok (front (t :: u :: ts) (some e)) :=
      rfl
    rw [hstart]
    rcases program_front t u ts e with
      ⟨fault, w, w', hp, hp', hw⟩ | ⟨⟨w, hp⟩, hleft⟩
    · obtain ⟨read, rest, hts, rfl⟩ := exists_rest_of_fail hp'
      refine .inl ⟨fault, read, ⟨rest, hts, hp'⟩, ?_, by simp only [hp, Outcome.result]⟩
      rw [left_facing] at hw
      rw [hts, List.length_append]
      omega
    · refine .inr ⟨?_, by simp only [hp, Outcome.result]⟩
      rintro fault read ⟨rest, hts, hp'⟩
      rw [hp'] at hleft
      simp only [Outcome.after, left_facing] at hleft
      rw [hts, List.length_append]
      omega

/-- A list of tokens is parsed in one way only. -/
theorem FailsAfter.unique {ts read read' : List Token} {fault fault' : Fault}
    (h : FailsAfter ts read fault) (h' : FailsAfter ts read' fault') :
    read = read' ∧ fault = fault' := by
  obtain ⟨rest, hts, hp⟩ := failsAfter_iff.1 h
  obtain ⟨rest', hts', hp'⟩ := failsAfter_iff.1 h'
  rw [hp] at hp'
  injection hp' with hfault hover
  have hlen : rest.length = rest'.length := by
    rw [← left_facing rest, ← left_facing rest', hover]
  rw [hts] at hts'
  exact ⟨(List.append_inj' hts' hlen).1, hfault⟩

/-- A source text that is parsed has no lexical fault. -/
theorem fault_of_parse_ofSource {source : String} {p : Node}
    (h : parse (.ofSource source) = .ok p) : (tokenize source).fault = none := by
  cases hf : (tokenize source).fault with
  | none => rfl
  | some e =>
    rcases parse_of_fault hf with ⟨fault, read, _, _, hp⟩ | ⟨_, hp⟩
    · rw [hp] at h
      cases h
    · rw [hp] at h
      cases h

end MiniLang
