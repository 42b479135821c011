import MiniLang.Proofs.Grammar.Shape
/-!
# The strings of derived trees

A tree has the strings of its operands and no others.  So each of them comes from a token of the
derived list, and a derivation may change to another grammar wherever the operands with the strings
of its tree do.
-/

set_option autoImplicit false

namespace MiniLang

namespace Node

mutual

/-- The values of the strings anywhere in a tree. -/
def strings : Node → List String
  | .identifier _ => []
  | .integer _ => []
  | .string value => [value]
  | .binary left _ right => strings left ++ strings right
  | .call name arguments => strings name ++ stringsEach arguments
  | .assignment target value => strings target ++ strings value
  | .block statements => stringsEach statements
  | .declaration _ name parameters body => strings name ++ (stringsEach parameters ++ strings body)
  | .conditional condition thenBlock elseBlock =>
    strings condition ++ (strings thenBlock ++ strings elseBlock)
  | .returning expression => strings expression
  | .program items => stringsEach items
  | .absent => []
  | .unknown _ => []

/-- The values of the strings of several trees. -/
def stringsEach : List Node → List String
  | [] => []
  | node :: nodes => strings node ++ stringsEach nodes

end

end Node

namespace Grammar

open Node

/-! ## Where the strings come from -/

section Source

variable {G : Grammar} {P : Token → String → Prop}

/-- Whether some token of a list is the source of each of some strings. -/
def Covers (P : Token → String → Prop) (ts : List Token) (values : List String) : Prop :=
  ∀ v ∈ values, ∃ t ∈ ts, P t v

theorem Covers.of_subset {ts us : List Token} {values : List String} (h : Covers P ts values)
    (hs : ts ⊆ us) : Covers P us values := by
  intro v hv
  obtain ⟨t, ht, hp⟩ := h v hv
  exact ⟨t, hs ht, hp⟩

theorem Covers.append {ts us : List Token} {vs ws : List String} (h : Covers P ts vs)
    (h' : Covers P us ws) : Covers P (ts ++ us) (vs ++ ws) := by
  intro v hv
  rcases List.mem_append.1 hv with hv | hv
  · exact h.of_subset (by simp) v hv
  · exact h'.of_subset (by simp) v hv

theorem Covers.nil (ts : List Token) : Covers P ts [] := by
  intro v hv
  simp at hv

theorem Covers.cons {ts : List Token} {values : List String} (h : Covers P ts values) (t : Token) :
    Covers P (t :: ts) values :=
  h.of_subset (by simp)

theorem Covers.between {ts : List Token} {values : List String} (h : Covers P ts values)
    (l r : Token) : Covers P (l :: (ts ++ [r])) values :=
  Covers.cons (h.of_subset (List.subset_append_left _ _)) l

theorem strings_of_name {ts : List Token} {ns : List Node} (h : Separated Name ts ns) :
    stringsEach ns = [] := by
  induction h with
  | one h => cases h; rfl
  | more h _ _ ih =>
    cases h
    exact ih

/-- The name and the parameters of a declaration have no strings. -/
theorem strings_of_signature {ts : List Token} {name : Node} {ps : List Node}
    (h : Signature ts name ps) : name.strings = [] ∧ stringsEach ps = [] := by
  cases h with
  | mk _ hp =>
    cases hp with
    | none => exact ⟨rfl, rfl⟩
    | some _ h => exact ⟨rfl, strings_of_name h⟩

/-- The strings of a declaration are those of its body. -/
theorem Signature.covers {ts us : List Token} {tag : Token} {name body : Node} {ps : List Node}
    (h : Signature ts name ps) (hb : Covers P us (stringsEach [body])) :
    Covers P (tag :: (ts ++ us)) (stringsEach [.declaration tag.text name ps body]) := by
  obtain ⟨hn, hp⟩ := strings_of_signature h
  have := Covers.cons (hb.of_subset (List.subset_append_right ts us)) tag
  simpa [stringsEach, strings, hn, hp] using this

variable (hop : ∀ t n, G.operand t n → Covers P [t] n.strings)
include hop

theorem Expression.covers {level : Level} {ts : List Token} {n : Node}
    (h : G.Expression level ts n) : Covers P ts n.strings := by
  induction h with
  | operand h => exact hop _ _ h
  | enclosed _ _ _ ih => exact ih.between _ _
  | single _ ih => exact ih
  | operation _ _ _ ihl ihr => exact ihl.append (ihr.cons _)

theorem Separated.covers {ts : List Token} {ns : List Node}
    (h : Separated (G.Expression .equality) ts ns) : Covers P ts (stringsEach ns) := by
  induction h with
  | one h => simpa [stringsEach] using h.covers hop
  | more h _ _ ih => exact (h.covers hop).append (ih.cons _)

theorem Call.covers {ts : List Token} {n : Node} (h : G.Call ts n) : Covers P ts n.strings := by
  cases h with
  | mk _ ha =>
    cases ha with
    | none => exact .nil _
    | some _ h => exact .cons ((h.covers hop).between _ _) _

theorem Condition.covers {ts : List Token} {n : Node} (h : G.Condition ts n) :
    Covers P ts n.strings := by
  cases h with
  | mk _ _ h => exact .cons ((h.covers hop).between _ _) _

theorem Derives.covers {form : Form} {ts : List Token} {ns : List Node}
    (h : G.Derives form ts ns) : Covers P ts (stringsEach ns) := by
  induction h with
  | returning _ h _ =>
    simpa [stringsEach, strings] using (h.covers hop).between _ _
  | conditional hc _ ih =>
    simpa [stringsEach, strings] using (hc.covers hop).append ih
  | alternative hc _ _ _ iht ihu =>
    simpa [stringsEach, strings] using (hc.covers hop).append (iht.append (ihu.cons _))
  | declaration _ hs _ ih => exact Signature.covers hs ih
  | nested _ ih => exact ih
  | assignedCall _ _ h =>
    simpa [stringsEach, strings] using ((h.covers hop).cons _).cons _
  | assignment _ _ h _ =>
    simpa [stringsEach, strings] using ((h.covers hop).cons _).cons _
  | call h => simpa [stringsEach] using h.covers hop
  | expression _ _ h => simpa [stringsEach] using h.covers hop
  | block _ _ _ ih =>
    simpa [stringsEach, strings] using ih.between _ _
  | empty => exact .nil _
  | separator _ _ ih => exact ih.cons _
  | next _ _ _ iht ihs => simpa [stringsEach] using iht.append ihs

theorem Items.covers {behind : Bool} {ts : List Token} {ns : List Node}
    (h : G.Items behind ts ns) : Covers P ts (stringsEach ns) := by
  induction h with
  | empty => exact .nil _
  | separator _ _ ih => exact ih.cons _
  | statement h _ _ _ ih => simpa [stringsEach] using (h.covers hop).append ih
  | declaration _ hg hb _ ih =>
    simpa [stringsEach] using (Signature.covers hg (hb.covers hop)).append ih

/-- Every string of a program comes from a token of its list. -/
theorem Program.covers {ts : List Token} {p : Node} (h : G.Program ts p) :
    Covers P ts p.strings := by
  obtain ⟨ns, rfl, h⟩ := h
  exact h.covers hop

end Source

/-! ## From one grammar to another -/

section Change

variable {G H : Grammar} {P : Token → Prop} {Q : String → Prop}

/-- Whether the strings of some trees have a property. -/
def Keeps (Q : String → Prop) (ns : List Node) : Prop := ∀ v ∈ stringsEach ns, Q v

theorem keeps_cons {n : Node} {ns : List Node} :
    Keeps Q (n :: ns) ↔ (∀ v ∈ n.strings, Q v) ∧ Keeps Q ns := by
  simp [Keeps, stringsEach, or_imp, forall_and]

theorem keeps_one {n : Node} : Keeps Q [n] ↔ ∀ v ∈ n.strings, Q v := by
  simp [Keeps, stringsEach]

variable
  (hop : ∀ t n, P t → G.operand t n → (∀ v ∈ n.strings, Q v) → H.operand t n)
include hop

theorem Expression.change {level : Level} {ts : List Token} {n : Node}
    (h : G.Expression level ts n) (hl : ∀ t ∈ ts, P t) (hq : ∀ v ∈ n.strings, Q v) :
    H.Expression level ts n := by
  induction h with
  | operand h => exact .operand (hop _ _ (hl _ (by simp)) h hq)
  | enclosed hlt _ hr ih =>
    exact .enclosed hlt (ih (fun t ht => hl t (by simp [ht])) hq) hr
  | single _ ih => exact .single (ih hl hq)
  | operation _ ho _ ihl ihr =>
    rw [List.forall_mem_append, List.forall_mem_cons] at hl
    simp only [strings, List.forall_mem_append] at hq
    exact .operation (ihl hl.1 hq.1) ho (ihr hl.2.2 hq.2)

theorem Separated.change {ts : List Token} {ns : List Node}
    (h : Separated (G.Expression .equality) ts ns) (hl : ∀ t ∈ ts, P t) (hq : Keeps Q ns) :
    Separated (H.Expression .equality) ts ns := by
  induction h with
  | one h => exact .one (h.change hop hl (keeps_one.1 hq))
  | more h hc _ ih =>
    rw [List.forall_mem_append, List.forall_mem_cons] at hl
    obtain ⟨hn, hns⟩ := keeps_cons.1 hq
    exact .more (h.change hop hl.1 hn) hc (ih hl.2.2 hns)

theorem Call.change {ts : List Token} {n : Node} (h : G.Call ts n) (hl : ∀ t ∈ ts, P t)
    (hq : ∀ v ∈ n.strings, Q v) : H.Call ts n := by
  cases h with
  | mk ht ha =>
    cases ha with
    | none ho hc => exact .mk ht (.none ho hc)
    | some ho h hc =>
      simp only [strings, List.nil_append] at hq
      exact .mk ht (.some ho (h.change hop (fun t ht => hl t (by simp [ht])) hq) hc)

theorem Condition.change {ts : List Token} {n : Node} (h : G.Condition ts n)
    (hl : ∀ t ∈ ts, P t) (hq : ∀ v ∈ n.strings, Q v) : H.Condition ts n := by
  cases h with
  | mk hi ho h hc => exact .mk hi ho (h.change hop (fun t ht => hl t (by simp [ht])) hq) hc

variable (hb : ∀ n ts, G.before n ts → H.before n ts)
include hb

theorem Derives.change {form : Form} {ts : List Token} {ns : List Node} (h : G.Derives form ts ns)
    (hl : ∀ t ∈ ts, P t) (hq : Keeps Q ns) : H.Derives form ts ns := by
  induction h with
  | returning hr h hs =>
    exact .returning hr (h.change hop (fun t ht => hl t (by simp [ht])) (keeps_one.1 hq)) hs
  | conditional hc _ ih =>
    simp only [keeps_one, strings, List.forall_mem_append] at hl hq
    exact .conditional (hc.change hop hl.1 hq.1) (ih hl.2 (keeps_one.2 hq.2.1))
  | alternative hc _ he _ iht ihu =>
    simp only [keeps_one, strings, List.forall_mem_append, List.forall_mem_cons] at hl hq
    exact .alternative (hc.change hop hl.1 hq.1) (iht hl.2.1 (keeps_one.2 hq.2.1)) he
      (ihu hl.2.2.2 (keeps_one.2 hq.2.2))
  | declaration ht hs _ ih =>
    simp only [keeps_one, strings, List.forall_mem_append, List.forall_mem_cons] at hl hq
    exact .declaration ht hs (ih hl.2.2 (keeps_one.2 hq.2.2))
  | nested _ ih => exact .nested (ih hl hq)
  | assignedCall hx he h =>
    simp only [keeps_one, strings, List.nil_append] at hq
    exact .assignedCall hx he (h.change hop (fun t ht => hl t (by simp [ht])) hq)
  | assignment hx he h ho =>
    simp only [keeps_one, strings, List.nil_append] at hq
    exact .assignment hx he (h.change hop (fun t ht => hl t (by simp [ht])) hq) ho
  | call h => exact .call (h.change hop hl (keeps_one.1 hq))
  | expression hx ho h => exact .expression hx ho (h.change hop hl (keeps_one.1 hq))
  | block ho _ hr ih =>
    exact .block ho (ih (fun t ht => hl t (by simp [ht])) (keeps_one.1 hq)) hr
  | empty => exact .empty
  | separator hs _ ih => exact .separator hs (ih (List.forall_mem_cons.1 hl).2 hq)
  | next _ hbn _ iht ihs =>
    rw [List.forall_mem_append] at hl
    obtain ⟨hn, hns⟩ := keeps_cons.1 hq
    exact .next (iht hl.1 (keeps_one.2 hn)) (hb _ _ hbn) (ihs hl.2 hns)

theorem Items.change {behind : Bool} {ts : List Token} {ns : List Node}
    (h : G.Items behind ts ns) (hl : ∀ t ∈ ts, P t) (hq : Keeps Q ns) :
    H.Items behind ts ns := by
  induction h with
  | empty => exact .empty
  | separator hs _ ih => exact .separator hs (ih (List.forall_mem_cons.1 hl).2 hq)
  | statement h hi hbn _ ih =>
    rw [List.forall_mem_append] at hl
    obtain ⟨hn, hns⟩ := keeps_cons.1 hq
    exact .statement (h.change hop hb hl.1 (keeps_one.2 hn)) hi (hb _ _ hbn) (ih hl.2 hns)
  | declaration ht hg hd _ ih =>
    simp only [keeps_cons, strings, List.forall_mem_append, List.forall_mem_cons] at hl hq
    exact .declaration ht hg (hd.change hop hb hl.1.2.2 (keeps_one.2 hq.1.2.2)) (ih hl.2 hq.2)

theorem Sequence.change {ts : List Token} {ns : List Node} (h : G.Sequence ts ns)
    (hl : ∀ t ∈ ts, P t) (hq : Keeps Q ns) : H.Sequence ts ns := by
  induction h with
  | empty => exact .empty
  | separator hs _ ih => exact .separator hs (ih (List.forall_mem_cons.1 hl).2 hq)
  | statement h hi hbn _ ih =>
    rw [List.forall_mem_append] at hl
    obtain ⟨hn, hns⟩ := keeps_cons.1 hq
    exact .statement (h.change hop hb hl.1 (keeps_one.2 hn)) hi (hb _ _ hbn) (ih hl.2 hns)
  | declaration ht hg hd _ ih =>
    simp only [keeps_cons, strings, List.forall_mem_append, List.forall_mem_cons] at hl hq
    exact .declaration ht hg (hd.change hop hb hl.1.2.2 (keeps_one.2 hq.1.2.2)) (ih hl.2 hq.2)

/-- A program of one grammar is a program of another that has the operands which its tokens and the
strings of its tree allow. -/
theorem Program.change {ts : List Token} {p : Node} (h : G.Program ts p)
    (hl : ∀ t ∈ ts, P t) (hq : ∀ v ∈ p.strings, Q v) : H.Program ts p := by
  obtain ⟨ns, rfl, h⟩ := h
  exact ⟨ns, rfl, h.change hop hb hl hq⟩

end Change

end Grammar

end MiniLang
