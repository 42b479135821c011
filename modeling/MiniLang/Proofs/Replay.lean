import MiniLang.Proofs.Front
import MiniLang.Proofs.Lexical
import MiniLang.Proofs.Plan
/-!
# Reading other lists in the same way

A reading goes the same way on every list that begins with what it has passed, as far as the window
does not show where the lists part.  `Replays` says so of a reading and a list: a value is made of
the same tokens in front of whatever shows the same token next, or closes what has been read; and a
reading that fails behind some tokens could have been completed from there, unless the last one is a
number with too many digits.

A plan that is `Forward` can be completed wherever it may stop.  `Plan.Ends.replays` carries that
through the plans of all phrases, and what is left is to see that each plan is forward on its own.
-/

set_option autoImplicit false

namespace MiniLang

open Window

/-! ## What follows -/

/-- The marks that close a phrase: no expression goes on with one, and no statement does. -/
def closers : List String := [")", "\x7d", ";"]

/-- Whether a list of tokens is empty or begins with a mark that closes a phrase. -/
def Closes (ts : List Token) : Prop := ∀ t ∈ ts.head?, t.text ∈ closers

/-- What a phrase may be completed in front of. -/
def Phrase.Follow : Phrase → List Token → Prop
  | .sentence, ts => ts = []
  | _, ts => Closes ts

theorem closes_nil : Closes [] := nofun

theorem closes_cons {t : Token} (h : t.text ∈ closers) (ts : List Token) : Closes (t :: ts) := by
  intro u hu
  cases hu
  exact h

theorem Closes.text_ne {t : Token} {ts : List Token} (h : Closes (t :: ts)) {text : String}
    (ht : text ∉ closers) : t.text ≠ text := by
  rintro rfl
  exact ht (h t rfl)

theorem closes_append {ts us : List Token} (ht : Closes ts) (hu : Closes us) :
    Closes (ts ++ us) := by
  cases ts with
  | nil => exact hu
  | cons t ts => exact closes_cons (ht t rfl) _

theorem Closes.reads_eq_false {ts : List Token} (h : Closes ts) {text : String}
    (ht : text ∉ closers) : (facing ts).reads text = false := by
  cases ts with
  | nil => rfl
  | cons t ts => simpa using h.text_ne ht

/-! ## Completions and replays -/

/-- Whether what has been passed before a fault may still be completed.  It may not be if the last
token is a number with too many digits. -/
def Fault.IsMendable : Fault → Prop
  | .tooManyDigits _ => False
  | _ => True

theorem Fault.isMendable_iff {fault : Fault} :
    fault.IsMendable ↔ ∀ digits, fault ≠ .tooManyDigits digits := by
  cases fault <;> simp [IsMendable]

section

variable {α β : Type} {F G : List Token → Prop} {ts us rest ext : List Token}

/-- Tokens that complete what a reading has passed, in front of whatever may follow. -/
def Completes (F : List Token → Prop) (read : Window → Outcome α) (us ext : List Token) : Prop :=
  (∀ t ∈ ext, t.Lexical) ∧
    ∃ a, ∀ rest, F rest → read (facing (us ++ (ext ++ rest))) = .ok a (facing rest)

/-- Whether a reading can be completed from its beginning, by tokens that what is read before it may
stand before. -/
def Resumes (F G : List Token → Prop) (read : Window → Outcome α) : Prop :=
  ∃ ext, Completes F read [] ext ∧ ∀ rest, F rest → G rest ∧ G (ext ++ rest)

/-- A reading of a list, and what it is worth for other lists. -/
inductive Replays (F : List Token → Prop) (read : Window → Outcome α) (ts : List Token) : Prop where
  /-- A value is made in front of all that shows the same token, and of all that may follow. -/
  | ok {us rest : List Token} {a : α} (hts : ts = us ++ rest)
      (h : ∀ rest', rest'.head? = rest.head? ∨ F rest' →
        read (facing (us ++ rest')) = .ok a (facing rest'))
  /-- What has been passed before a fault can be completed, if it is anything. -/
  | fail {us rest : List Token} {fault : Fault} (hts : ts = us ++ rest)
      (h : read (facing ts) = .fail fault (facing rest))
      (hext : fault.IsMendable → us ≠ [] → ∃ ext, Completes F read us ext)

/-- Where a reading takes nothing, it takes nothing in front of all that may follow. -/
def Settles (F : List Token → Prop) (read : Window → Outcome α) : Prop :=
  ∀ rest a, read (facing rest) = .ok a (facing rest) →
    ∀ rest', F rest' → read (facing rest') = .ok a (facing rest')

theorem settles_of_within {read : Window → Outcome α} (h : ∀ w, (read w).Within 1 w) :
    Settles F read := by
  intro rest a hr
  have := (h (facing rest)).left_le hr
  omega

/-- What completes the first of two readings, and then the second, completes both. -/
theorem Completes.andThen {f : Window → Outcome α} {g : α → Window → Outcome β} {ext' : List Token}
    {a : α} (hl : ∀ t ∈ ext, t.Lexical)
    (hf : ∀ rest, G rest → f (facing (us ++ (ext ++ rest))) = .ok a (facing rest))
    (hg : Completes F (g a) [] ext') (hG : ∀ rest, F rest → G (ext' ++ rest)) :
    Completes F (fun w => (f w).andThen g) us (ext ++ ext') := by
  obtain ⟨hl', b, hb⟩ := hg
  refine ⟨List.forall_mem_append.2 ⟨hl, hl'⟩, b, fun rest hr => ?_⟩
  show (f (facing (us ++ (ext ++ ext' ++ rest)))).andThen g = .ok b (facing rest)
  rw [List.append_assoc ext, hf _ (hG rest hr), Outcome.andThen_ok]
  exact hb rest hr

/-- Behind tokens that a reading has taken, the next one may be completed. -/
theorem Completes.behind {f : Window → Outcome α} {g : α → Window → Outcome β} {a : α}
    {us' : List Token}
    (hf : ∀ rest, F rest → f (facing (us ++ (us' ++ (ext ++ rest)))) =
      .ok a (facing (us' ++ (ext ++ rest))))
    (hg : Completes F (g a) us' ext) :
    Completes F (fun w => (f w).andThen g) (us ++ us') ext := by
  obtain ⟨hl, b, hb⟩ := hg
  refine ⟨hl, b, fun rest hr => ?_⟩
  show (f (facing (us ++ us' ++ (ext ++ rest)))).andThen g = .ok b (facing rest)
  rw [List.append_assoc, hf rest hr, Outcome.andThen_ok]
  exact hb rest hr

/-- Lists that begin with the same tokens show the same token. -/
theorem head?_append (h : us ≠ []) (ts ts' : List Token) :
    (us ++ ts).head? = (us ++ ts').head? := by
  cases us with
  | nil => exact absurd rfl h
  | cons t us => rfl

/-- One reading after the other.  Where the second has not begun, what completes it must be
something that the first may stand before. -/
theorem Replays.andThen {f : Window → Outcome α} {g : α → Window → Outcome β}
    (hf : Replays G f ts)
    (hg : ∀ a us rest, ts = us ++ rest → f (facing ts) = .ok a (facing rest) →
      Replays F (g a) rest)
    (hnext : ∀ a, Resumes F G (g a)) :
    Replays F (fun w => (f w).andThen g) ts := by
  cases hf with
  | @fail us rest fault hts h hext =>
    refine .fail hts (by rw [h, Outcome.andThen_fail]) fun hm hne => ?_
    obtain ⟨ext, hl, a, ha⟩ := hext hm hne
    obtain ⟨ext', hc, hG⟩ := hnext a
    exact ⟨ext ++ ext', .andThen hl ha hc fun more hm => (hG more hm).2⟩
  | @ok us rest a hts h =>
    have hrun : f (facing ts) = .ok a (facing rest) := by rw [hts]; exact h rest (.inl rfl)
    obtain ⟨ext, hc, hG⟩ := hnext a
    cases hg a us rest hts hrun with
    | @ok us' rest' b hrest h' =>
      have hsplit : ts = us ++ us' ++ rest' := by rw [hts, hrest, List.append_assoc]
      refine .ok (a := b) hsplit fun more hm => ?_
      have hf : f (facing (us ++ (us' ++ more))) = .ok a (facing (us' ++ more)) := by
        apply h
        by_cases hne : us' = []
        · -- the second has taken nothing, so the first stands before what may follow it
          subst hne
          subst hrest
          exact hm.imp_right fun hF => (hG _ hF).1
        · exact .inl (by rw [hrest]; exact head?_append hne _ _)
      rw [List.append_assoc, hf, Outcome.andThen_ok]
      exact h' more hm
    | @fail us' rest' fault hrest h' hext =>
      have hsplit : ts = us ++ us' ++ rest' := by rw [hts, hrest, List.append_assoc]
      refine .fail hsplit (by rw [hrun, Outcome.andThen_ok]; exact h') fun hm _ => ?_
      by_cases hne : us' = []
      · -- nothing has been passed of the second, which is completed from its beginning
        subst hne
        exact ⟨ext, .behind (fun more hm => h _ (.inr (hG more hm).2)) hc⟩
      · obtain ⟨ext', hc'⟩ := hext hm hne
        refine ⟨ext', .behind (fun more _ => h _ (.inl ?_)) hc'⟩
        rw [hrest]
        exact head?_append hne _ _

theorem replays_advance (t : Token) (ts : List Token) :
    Replays (fun _ => True) advance (t :: ts) :=
  .ok (List.singleton_append (l := ts)).symm fun rest _ => advance_facing t rest

end

/-! ## Forward plans -/

/-- Operands, and chains of them that no closing mark goes on with. -/
def Phrase.IsOperand : Phrase → Prop
  | .primary => True
  | .chain operators operand => (∀ text ∈ closers, text ∉ operators) ∧ operand.IsOperand
  | _ => False

/-- The phrases but for chains of anything else than operands. -/
def Phrase.Regular : Phrase → Prop
  | .chain operators operand => IsOperand (.chain operators operand)
  | .chained operators operand _ => IsOperand (.chain operators operand)
  | _ => True

namespace Plan

variable {α : Type} {F : List Token → Prop}

/-- A plan that can be completed from wherever it may stop, and that goes the same way on lists that
it cannot tell apart when it looks. -/
def Forward (F : List Token → Prop) : Plan α → Prop
  | .done _ => True
  | .complain _ => True
  | .look go => ∀ ts : List Token, (∀ t ∈ ts, t.Lexical) →
    let plan := go ((facing ts).current.map Token.unplaced) ((facing ts).next.map Token.unplaced)
    plan.Forward F ∧ (Replays F plan.run ts → Replays F (Plan.look go).run ts)
  | .advance go =>
    go.Forward F ∧ ((∃ count, go = .complain (.digits count)) ∨ ∃ ext, Completes F go.run [] ext)
  | .phrase p go => p.Regular ∧ ∀ node, (go node).Forward F ∧ Resumes F p.Follow (go node).run
  | .parameters _ go => ∀ nodes, (go nodes).Forward F ∧ Resumes F Closes (go nodes).run

theorem run_advance_digits (count : Nat) (t : Token) (ts : List Token) :
    (advance (complain (.digits count)) : Plan α).run (facing (t :: ts)) =
      .fail (.tooManyDigits count) (facing ts) := by
  rw [run, advance_facing]
  rfl

/-- A plan that is carried out on a list is worth something for other lists, if the plans of all
phrases are forward. -/
theorem Ends.replays (hphrase : ∀ p : Phrase, p.Regular → p.plan.Forward p.Follow)
    (hparameters : ∀ read, (moreParameters read).Forward Closes) {plan : Plan α} {w : Window}
    (he : plan.Ends w) {F : List Token → Prop} {ts : List Token} (hw : w = facing ts)
    (hl : ∀ t ∈ ts, t.Lexical) (h : plan.Forward F) : Replays F plan.run ts := by
  -- the induction is on the reading, with all phrases that are read on the way
  have hrest : ∀ {ts us rest : List Token}, (∀ t ∈ ts, t.Lexical) → ts = us ++ rest →
      ∀ t ∈ rest, t.Lexical := by
    rintro _ us rest hl rfl
    exact (List.forall_mem_append.1 hl).2
  induction he generalizing F ts with
  | done => exact .ok (List.nil_append ts).symm fun _ _ => rfl
  | complain =>
    subst hw
    exact .fail (List.nil_append ts).symm rfl fun _ hne => absurd rfl hne
  | look _ ih =>
    subst hw
    obtain ⟨hgo, hlook⟩ := h ts hl
    exact hlook (ih rfl hl hgo)
  | @advance _ go w hc _ ih =>
    subst hw
    cases ts with
    | nil => exact Bool.noConfusion hc
    | cons t ts =>
      obtain ⟨hgo, ⟨count, rfl⟩ | ⟨ext, hext⟩⟩ := h
      · exact .fail (List.singleton_append (l := ts)).symm (run_advance_digits count t ts)
          fun hm => hm.elim
      · refine (replays_advance t ts).andThen (fun _ us rest hts hr => ?_) fun _ =>
          ⟨ext, hext, fun _ _ => ⟨trivial, trivial⟩⟩
        exact ih (facing rest) hr rfl (hrest hl hts) hgo
  | @phrase _ p go w _ _ ihp ih =>
    subst hw
    obtain ⟨hp, hgo⟩ := h
    have hfirst : Replays p.Follow p.run ts := by
      rw [show p.run = p.plan.run from funext p.run_eq]
      exact ihp rfl hl (hphrase p hp)
    refine hfirst.andThen (fun node us rest hts hr => ?_) fun node => (hgo node).2
    exact ih node (facing rest) hr rfl (hrest hl hts) (hgo node).1
  | @parameters _ read go w _ _ ihp ih =>
    subst hw
    have hfirst : Replays Closes (runMoreParameters read) ts := by
      rw [show runMoreParameters read = _ from funext fun w => (run_moreParameters read w).symm]
      exact ihp rfl hl (hparameters read)
    refine hfirst.andThen (fun nodes us rest hts hr => ?_) fun nodes => (h nodes).2
    exact ih nodes (facing rest) hr rfl (hrest hl hts) (h nodes).1

end Plan

end MiniLang
