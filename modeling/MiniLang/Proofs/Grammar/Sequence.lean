import MiniLang.Proofs.Grammar.Shape
/-!
# Items and how they are read

`Grammar.Items` reads the word `int` as a name right behind a semicolon, and `Grammar.Sequence` does
not.  Where no `int` stands there the two have the same programs (`Grammar.program_iff_composes`).
-/

set_option autoImplicit false

namespace MiniLang

namespace Grammar

/-- Whether no `int` stands right behind a semicolon that has a whole program in front of it. -/
def Settled (ts : List Token) : Prop :=
  ∀ (us vs : List Token) (s t : Token), ts = us ++ s :: t :: vs → s.text = ";" → t.text = "int" →
    ¬ ∃ items, language.Sequence us items

theorem mem_zip_tail {α : Type} (us vs : List α) (s t : α) :
    (s, t) ∈ (us ++ s :: t :: vs).zip (us ++ s :: t :: vs).tail := by
  induction us with
  | nil => simp
  | cons u us ih =>
    cases us with
    | nil => simp
    | cons v us => exact List.mem_cons_of_mem _ ih

/-- A list is settled if no `int` at all stands right behind a semicolon. -/
theorem settled_of_forall {ts : List Token}
    (h : ∀ pair ∈ ts.zip ts.tail, ¬ (pair.1.text = ";" ∧ pair.2.text = "int")) : Settled ts := by
  rintro us vs s t rfl hs ht
  exact absurd ⟨hs, ht⟩ (h (s, t) (mem_zip_tail us vs s t))

/-- The front of a settled list that ends behind an item or a semicolon. -/
structure Passed (behind : Bool) (front ts : List Token) : Prop where
  /-- The front makes a program with whatever makes one, as long as that begins with no `else` that
  the rest of the list does not begin with. -/
  continues : ∀ vs ns, language.Sequence vs ns → (StartsWith "else" vs → StartsWith "else" ts) →
    ∃ items, language.Sequence (front ++ vs) items
  settled : Settled (front ++ ts)
  ends : behind = true → ∃ us s, front = us ++ [s] ∧ s.text = ";" ∧
    ∃ items, language.Sequence us items

namespace Passed

variable {behind : Bool} {front ts us : List Token} {s : Token} {n : Node}

theorem nil (h : Settled ts) : Passed false [] ts where
  continues _ ns hv _ := ⟨ns, hv⟩
  settled := h
  ends hb := Bool.noConfusion hb

/-- Behind a semicolon no `int` follows. -/
theorem not_startsWith (h : Passed true front ts) : ¬ StartsWith "int" ts := by
  intro hint
  obtain ⟨us, s, rfl, hs, hitems⟩ := h.ends rfl
  cases ts with
  | nil => exact hint
  | cons t ts => exact h.settled us ts s t (by simp) hs hint hitems

theorem separator (h : Passed behind front (s :: ts)) (hs : s.text = ";") :
    Passed true (front ++ [s]) ts where
  continues vs ns hv _ := by
    have helse : ¬ StartsWith "else" (s :: vs) := fun he => absurd (hs.symm.trans he) (by decide)
    simpa using h.continues (s :: vs) ns (.separator hs hv) fun he => absurd he helse
  settled := by simpa using h.settled
  ends _ := by
    obtain ⟨items, hitems⟩ := h.continues [] [] .empty fun he => he.elim
    exact ⟨front, s, rfl, hs, items, by simpa using hitems⟩

/-- An item that a front is continued with. -/
theorem item {m : List Node → List Node} (h : Passed behind front (ts ++ us))
    (hd : ∀ vs ns, language.Sequence vs ns → (StartsWith "else" vs → StartsWith "else" us) →
      language.Sequence (ts ++ vs) (m ns)) : Passed false (front ++ ts) us where
  continues vs ns hv helse := by
    rw [List.append_assoc]
    refine h.continues (ts ++ vs) (m ns) (hd vs ns hv helse) fun he => ?_
    cases ts with
    | nil => exact helse he
    | cons t ts => exact he
  settled := by simpa using h.settled
  ends hb := Bool.noConfusion hb

theorem statement (h : Passed behind front (ts ++ us)) (hd : language.Derives .statement ts [n])
    (hi : ¬ StartsWith "int" ts) (hb : n.Before us) : Passed false (front ++ ts) us :=
  h.item (m := fun ns => n :: ns) fun _ _ hv helse =>
    .statement hd hi (fun ho he => hb ho (helse he)) hv

theorem declaration {tag : Token} {us vs : List Token} {name body : Node} {ps : List Node}
    (h : Passed behind front (tag :: (ts ++ us) ++ vs)) (ht : tag.text = "int")
    (hg : Signature ts name ps) (hb : language.Derives .block us [body]) :
    Passed false (front ++ tag :: (ts ++ us)) vs :=
  h.item (m := fun ns => .declaration tag.text name ps body :: ns) fun _ _ hv _ =>
    .declaration ht hg hb hv

end Passed

/-- In a settled list, items that are read are a sequence. -/
theorem Items.sequence {behind : Bool} {front ts : List Token} {ns : List Node}
    (h : language.Items behind ts ns) (hp : Passed behind front ts) : language.Sequence ts ns := by
  induction h generalizing front with
  | empty => exact .empty
  | separator hs _ ih => exact .separator hs (ih (hp.separator hs))
  | @statement behind ts us n ns h hi hb _ ih =>
    have hint : ¬ StartsWith "int" ts := by
      cases behind with
      | false => exact hi rfl
      | true => exact fun hst => hp.not_startsWith (startsWith_append us hst)
    exact .statement h hint hb (ih (hp.statement h hint hb))
  | declaration ht hg hb _ ih => exact .declaration ht hg hb (ih (hp.declaration ht hg hb))

/-- And the other way round. -/
theorem Sequence.items {behind : Bool} {front ts : List Token} {ns : List Node}
    (h : language.Sequence ts ns) (hp : Passed behind front ts) : language.Items behind ts ns := by
  induction h generalizing behind front with
  | empty => exact .empty
  | separator hs _ ih => exact .separator hs (ih (hp.separator hs))
  | statement h hi hb _ ih => exact .statement h (fun _ => hi) hb (ih (hp.statement h hi hb))
  | declaration ht hg hb _ ih =>
    cases behind with
    | false => exact .declaration ht hg hb (ih (hp.declaration ht hg hb))
    | true => exact absurd ht hp.not_startsWith

theorem program_iff_composes {ts : List Token} (h : Settled ts) {p : Node} :
    language.Program ts p ↔ language.Composes ts p := by
  constructor
  · rintro ⟨items, rfl, hitems⟩
    exact ⟨items, rfl, hitems.sequence (.nil h)⟩
  · rintro ⟨items, rfl, hitems⟩
    exact ⟨items, rfl, hitems.items (.nil h)⟩

end Grammar

end MiniLang
