import MiniLang.Proofs.Grammar.Exact
/-!
# The atoms of derived trees

A tree holds what its tokens say, in the order of the tokens: the atoms of a tree and those of the
derived list are the same but for punctuation and keywords, which only give the tree its shape
(`Grammar.Program.tells`).  So parsing loses no other token, takes none twice and moves none
(`atoms_of_parse`).
-/

set_option autoImplicit false

namespace MiniLang

/-! ## Atoms -/

/-- What one token tells: a text, or the number that the text writes. -/
inductive Atom where
  | word (text : String)
  | number (value : Int)
  deriving DecidableEq, Repr

/-- The punctuation marks and the keywords. -/
def marks : List String :=
  [";", "\x7b", "\x7d", "(", ")", ",", "=", "var", "void", "if", "else", "return"]

/-- Whether an atom is more than a mark. -/
def Atom.isSignificant : Atom → Bool
  | .word text => !marks.contains text
  | .number _ => true

/-- What a token tells. -/
def Token.atom (t : Token) : Atom :=
  if t.kind = .integer then .number (decimalValue t.text.toList) else .word t.text

namespace Node

mutual

/-- What a tree tells, from left to right. -/
def atoms : Node → List Atom
  | .identifier name => [.word name]
  | .integer value => [.number value]
  | .string value => [.word value]
  | .binary left operator right => atoms left ++ .word operator :: atoms right
  | .call name arguments => atoms name ++ atomsEach arguments
  | .assignment target value => atoms target ++ atoms value
  | .block statements => atomsEach statements
  | .declaration returnType name parameters body =>
    .word returnType :: (atoms name ++ (atomsEach parameters ++ atoms body))
  | .conditional condition thenBlock elseBlock =>
    atoms condition ++ (atoms thenBlock ++ atoms elseBlock)
  | .returning expression => atoms expression
  | .program items => atomsEach items
  | .absent => []
  | .unknown _ => []

/-- What several trees say, one behind the other. -/
def atomsEach : List Node → List Atom
  | [] => []
  | node :: nodes => atoms node ++ atomsEach nodes

end

end Node

/-! ## The atoms of tokens -/

namespace Token.Lexical

variable {t : Token}

/-- A token that is no number tells its text. -/
theorem atom_of_ofText (h : t.Lexical) (hk : Kind.ofText t.text.toList ≠ .integer) :
    t.atom = .word t.text := by
  rw [Kind.ofText_of_admits h] at hk
  exact if_neg hk

/-- The operand that a token makes tells what the token tells. -/
theorem atoms_operand (h : t.Lexical) {n : Node} (ho : t.operand = .ok n) :
    n.atoms = [t.atom] := by
  unfold Token.atom
  rcases Token.operand_cases ho with ⟨_, hv, rfl⟩ | ⟨hnone, hn⟩
  · obtain ⟨hk, rfl⟩ := h.kind_of_number? hv
    rw [if_pos hk]
    rfl
  · rw [if_neg (h.number?_eq_none_iff.1 hnone)]
    rcases hn with ⟨-, rfl⟩ | ⟨-, rfl⟩ <;> rfl

end Token.Lexical

namespace Grammar

open Node

/-! ## What derived lists say -/

/-- Whether a list of tokens tells certain atoms, marks aside. -/
def Tells (ts : List Token) (atoms : List Atom) : Prop :=
  (ts.map Token.atom).filter Atom.isSignificant = atoms.filter Atom.isSignificant

theorem Tells.nil : Tells [] [] := rfl

theorem Tells.append {ts us : List Token} {as bs : List Atom} (h : Tells ts as) (h' : Tells us bs) :
    Tells (ts ++ us) (as ++ bs) := by
  rw [Tells, List.map_append, List.filter_append, List.filter_append, h, h']

/-- A token tells its own atom. -/
theorem Tells.cons {t : Token} {a : Atom} {ts : List Token} {as : List Atom} (ha : t.atom = a)
    (h : Tells ts as) : Tells (t :: ts) (a :: as) := by
  rw [Tells, List.map_cons, ha, List.filter_cons, List.filter_cons, h]

/-- A mark tells nothing. -/
theorem Tells.mark {t : Token} {ts : List Token} {as : List Atom} (hl : t.Lexical)
    (ht : t.text ∈ marks) (h : Tells ts as) : Tells (t :: ts) as := by
  have hkind : ∀ text ∈ marks, Kind.ofText text.toList ≠ .integer := by decide
  have ha : t.atom.isSignificant = false := by
    rw [hl.atom_of_ofText (hkind _ ht)]
    simp [Atom.isSignificant, ht]
  rw [Tells, List.map_cons, List.filter_cons, if_neg (by simp [ha]), h]

theorem Tells.between {l r : Token} {ts : List Token} {as : List Atom}
    (hl : ∀ t ∈ l :: (ts ++ [r]), t.Lexical) (hlt : l.text ∈ marks) (hrt : r.text ∈ marks)
    (h : Tells ts as) : Tells (l :: (ts ++ [r])) as := by
  have hr : Tells [r] [] := Tells.mark (hl r (by simp)) hrt .nil
  have := h.append hr
  rw [List.append_nil] at this
  exact .mark (hl l (by simp)) hlt this

theorem tells_identifier {t : Token} (h : t.kind = .identifier) : Tells [t] [.word t.text] :=
  Tells.cons (if_neg (by rw [h]; decide)) .nil

theorem Separated.tells {part : List Token → Node → Prop}
    (hpart : ∀ ts n, part ts n → (∀ t ∈ ts, t.Lexical) → Tells ts n.atoms) {ts : List Token}
    {ns : List Node} (h : Separated part ts ns) (hl : ∀ t ∈ ts, t.Lexical) :
    Tells ts (atomsEach ns) := by
  induction h with
  | one h => simpa [atomsEach] using hpart _ _ h hl
  | more h hc _ ih =>
    obtain ⟨hts, hus⟩ := List.forall_mem_append.1 hl
    obtain ⟨hlc, hus⟩ := List.forall_mem_cons.1 hus
    exact (hpart _ _ h hts).append (.mark hlc (by simp [hc, marks]) (ih hus))

theorem Enclosed.tells {part : List Token → Node → Prop}
    (hpart : ∀ ts n, part ts n → (∀ t ∈ ts, t.Lexical) → Tells ts n.atoms) {ts : List Token}
    {ns : List Node} (h : Enclosed part ts ns) (hl : ∀ t ∈ ts, t.Lexical) :
    Tells ts (atomsEach ns) := by
  cases h with
  | @none l r hlt hrt =>
    have hnil : Tells [] [] := .nil
    exact hnil.between hl (by simp [hlt, marks]) (by simp [hrt, marks])
  | some hlt h hrt =>
    have hts := h.tells hpart fun t ht => hl t (by simp [ht])
    exact .between hl (by simp [hlt, marks]) (by simp [hrt, marks]) hts

theorem Expression.tells {level : Level} {ts : List Token} {n : Node}
    (h : lenient.Expression level ts n) (hl : ∀ t ∈ ts, t.Lexical) : Tells ts n.atoms := by
  induction h with
  | @operand t n h =>
    rw [(hl t (by simp)).atoms_operand h.2]
    exact .cons rfl .nil
  | enclosed hlt _ hrt ih =>
    exact .between hl (by simp [hlt, marks]) (by simp [hrt, marks])
      (ih fun t ht => hl t (by simp [ht]))
  | single _ ih => exact ih hl
  | @operation level ts us o left right _ ho _ ihl ihr =>
    obtain ⟨hts, hus⟩ := List.forall_mem_append.1 hl
    obtain ⟨hlo, hus⟩ := List.forall_mem_cons.1 hus
    have hkind : ∀ level : Level, ∀ text ∈ level.operators,
        Kind.ofText text.toList ≠ .integer := by
      intro level
      cases level <;> decide
    exact (ihl hts).append (.cons (hlo.atom_of_ofText (hkind _ _ ho)) (ihr hus))

theorem Call.tells {ts : List Token} {n : Node} (h : lenient.Call ts n)
    (hl : ∀ t ∈ ts, t.Lexical) : Tells ts n.atoms := by
  cases h with
  | mk ht ha =>
    have hargs := ha.tells (fun _ _ he hle => he.tells hle) (List.forall_mem_cons.1 hl).2
    exact (tells_identifier ht).append hargs

theorem Condition.tells {ts : List Token} {n : Node} (h : lenient.Condition ts n)
    (hl : ∀ t ∈ ts, t.Lexical) : Tells ts n.atoms := by
  cases h with
  | mk hi ho h hr =>
    obtain ⟨hli, hlts⟩ := List.forall_mem_cons.1 hl
    have hn := h.tells fun t ht => hl t (by simp [ht])
    exact .mark hli (by simp [hi, marks])
      (.between hlts (by simp [ho, marks]) (by simp [hr, marks]) hn)

theorem Signature.tells {ts : List Token} {name : Node} {ps : List Node}
    (h : Signature ts name ps) (hl : ∀ t ∈ ts, t.Lexical) :
    Tells ts (name.atoms ++ atomsEach ps) := by
  cases h with
  | mk ht hp =>
    have hname : ∀ ts n, Name ts n → (∀ t ∈ ts, t.Lexical) → Tells ts n.atoms := by
      rintro _ _ ⟨ht⟩ _
      exact tells_identifier ht
    exact (tells_identifier ht).append (hp.tells hname (List.forall_mem_cons.1 hl).2)

/-- A declaration tells its tag, its name, its parameters and its body. -/
theorem Signature.tells_declaration {tag : Token} {ts us : List Token} {name body : Node}
    {ps : List Node} (hs : Signature ts name ps) (hl : ∀ t ∈ tag :: (ts ++ us), t.Lexical)
    (ht : tag.text ∈ "int" :: tags) (hb : Tells us (atomsEach [body])) :
    Tells (tag :: (ts ++ us)) (atomsEach [.declaration tag.text name ps body]) := by
  obtain ⟨hltag, hlts⟩ := List.forall_mem_cons.1 hl
  have hkind : ∀ text ∈ "int" :: tags, Kind.ofText text.toList ≠ .integer := by decide
  have htag := hltag.atom_of_ofText (hkind _ ht)
  have hrest := (hs.tells (List.forall_mem_append.1 hlts).1).append hb
  simpa [atomsEach, atoms] using Tells.cons htag hrest

theorem Derives.tells {form : Form} {ts : List Token} {ns : List Node}
    (h : lenient.Derives form ts ns) (hl : ∀ t ∈ ts, t.Lexical) : Tells ts (atomsEach ns) := by
  induction h with
  | returning hr h hs =>
    have hn := h.tells fun t ht => hl t (by simp [ht])
    simpa [atomsEach, atoms] using Tells.between hl (by simp [hr, marks]) (by simp [hs, marks]) hn
  | conditional hc _ ih =>
    obtain ⟨hts, hus⟩ := List.forall_mem_append.1 hl
    simpa [atomsEach, atoms] using (hc.tells hts).append (ih hus)
  | alternative hc _ he _ iht ihu =>
    simp only [List.forall_mem_append, List.forall_mem_cons] at hl
    have helse := (ihu hl.2.2.2).mark hl.2.2.1 (by simp [he, marks])
    simpa [atomsEach, atoms] using (hc.tells hl.1).append ((iht hl.2.1).append helse)
  | declaration ht hs _ ih =>
    simp only [List.forall_mem_cons, List.forall_mem_append] at hl
    refine hs.tells_declaration ?_ (List.mem_cons_of_mem _ ht) (ih hl.2.2)
    simpa only [List.forall_mem_cons, List.forall_mem_append] using hl
  | nested _ ih => exact ih hl
  | assignedCall hx he h =>
    simp only [List.forall_mem_cons] at hl
    have hvalue := (h.tells hl.2.2).mark hl.2.1 (by simp [he, marks])
    simpa [atomsEach, atoms] using (tells_identifier hx).append hvalue
  | assignment hx he h _ =>
    simp only [List.forall_mem_cons] at hl
    have hvalue := (h.tells hl.2.2).mark hl.2.1 (by simp [he, marks])
    simpa [atomsEach, atoms] using (tells_identifier hx).append hvalue
  | call h => simpa [atomsEach] using h.tells hl
  | expression _ _ h => simpa [atomsEach] using h.tells hl
  | block ho _ hr ih =>
    have hbody := ih fun t ht => hl t (by simp [ht])
    simpa [atomsEach, atoms] using
      Tells.between hl (by simp [ho, marks]) (by simp [hr, marks]) hbody
  | empty => exact .nil
  | separator hs _ ih =>
    obtain ⟨hls, hlts⟩ := List.forall_mem_cons.1 hl
    exact (ih hlts).mark hls (by simp [hs, marks])
  | next _ _ _ iht ihs =>
    obtain ⟨hts, hus⟩ := List.forall_mem_append.1 hl
    simpa [atomsEach] using (iht hts).append (ihs hus)

theorem Items.tells {behind : Bool} {ts : List Token} {ns : List Node}
    (h : lenient.Items behind ts ns) (hl : ∀ t ∈ ts, t.Lexical) : Tells ts (atomsEach ns) := by
  induction h with
  | empty => exact .nil
  | separator hs _ ih =>
    obtain ⟨hls, hlts⟩ := List.forall_mem_cons.1 hl
    exact (ih hlts).mark hls (by simp [hs, marks])
  | statement h _ _ _ ih =>
    obtain ⟨hts, hus⟩ := List.forall_mem_append.1 hl
    simpa [atomsEach] using (h.tells hts).append (ih hus)
  | declaration ht hg hb _ ih =>
    obtain ⟨hts, hvs⟩ := List.forall_mem_append.1 hl
    have hlb := (List.forall_mem_append.1 (List.forall_mem_cons.1 hts).2).2
    have hd := hg.tells_declaration hts (by simp [ht]) (hb.tells hlb)
    simpa [atomsEach] using hd.append (ih hvs)

/-- A program tells what its tokens say. -/
theorem Program.tells {ts : List Token} {p : Node} (h : lenient.Program ts p)
    (hl : ∀ t ∈ ts, t.Lexical) : Tells ts p.atoms := by
  obtain ⟨ns, rfl, h⟩ := h
  exact h.tells hl

end Grammar

/-- The significant atoms of a parsed source text are those of its tokens, one by one and in the
same order. -/
theorem atoms_of_parse {source : String} {p : Node} (h : parse (.ofSource source) = .ok p) :
    p.atoms.filter Atom.isSignificant =
      ((tokenize source).tokens.map Token.atom).filter Atom.isSignificant := by
  have hl : ∀ t ∈ (tokenize source).tokens, t.Lexical := fun t => lexical_of_mem_tokenize
  rw [ofSource_of_fault_eq_none (fault_of_parse_ofSource h)] at h
  exact ((lenient_of_parse hl h).tells hl).symm

/-- A number written with a zero in front, and a semicolon that is taken for a string and is a mark
all the same. -/
theorem atoms_of_parse_of_declaration :
    let p : Node := .program
      [.declaration "int" (.identifier "f") [.identifier "a"]
        (.block [.returning (.binary (.identifier "a") "*" (.integer (-7)))]),
      .assignment (.identifier "x") (.string ";")]
    parse (.ofSource "int f(a) \x7b return a * -07; \x7d x = ;") = .ok p ∧
      ((tokenize "int f(a) \x7b return a * -07; \x7d x = ;").tokens.map Token.atom).filter
        Atom.isSignificant =
          [.word "int", .word "f", .word "a", .word "a", .word "*", .number (-7), .word "x"] := by
  intro p
  have hparse : parse (.ofSource "int f(a) \x7b return a * -07; \x7d x = ;") = .ok p := by
    decide +kernel
  exact ⟨hparse, (atoms_of_parse hparse).symm.trans (by decide +kernel)⟩

end MiniLang
