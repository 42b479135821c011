import MiniLang.Proofs.Grammar.Exact
import MiniLang.Proofs.WellFormed
/-!
# The words of parsed trees

`Vocabulary.language` has the words that a tree of a source text is made of, and its only
expressions that stand as statements are operations whose first operand is a name.  Whatever the
lenient grammar derives from the tokens of a source text is well-formed over it
(`Grammar.Program.wellFormed`), since the kind of a token decides which texts it can have.

`wellFormed_of_parse` puts this beside what is known of trees of arbitrary streams.
-/

set_option autoImplicit false

namespace MiniLang

open Window Grammar

/-- The operand at the left end of a tree. -/
def Node.leftmost : Node → Node
  | .binary left _ _ => left.leftmost
  | n => n

/-- An operation whose first operand is a name. -/
def Node.IsLone (n : Node) : Prop :=
  (∃ left operator right, n = .binary left operator right) ∧ ∃ name, n.leftmost = .identifier name

/-- The words of a source text.  The word `int` is the tag of no statement. -/
def Vocabulary.language : Vocabulary where
  name text := Kind.identifier.admits text.toList = true
  operator text := text ∈ Level.equality.reach
  tag text := text ∈ tags
  itemTag text := text ∈ "int" :: tags
  lone := Node.IsLone

namespace Token

variable {t : Token} {n : Node}

theorem leftmost_of_operand (h : t.operand = .ok n) : n.leftmost = n := by
  rcases operand_cases h with ⟨_, -, rfl⟩ | ⟨-, ⟨-, rfl⟩ | ⟨-, rfl⟩⟩ <;> rfl

theorem Lexical.admits_identifier (hl : t.Lexical) (hk : t.kind = .identifier) :
    Vocabulary.language.name t.text := by
  unfold Lexical at hl
  rwa [hk] at hl

/-- The operand that a token of a source text makes. -/
theorem Lexical.expression_operand (hl : t.Lexical) (h : t.operand = .ok n) :
    Vocabulary.language.Expression n := by
  rcases operand_cases h with ⟨_, hv, rfl⟩ | ⟨-, ⟨hk, rfl⟩ | ⟨-, rfl⟩⟩
  · exact .integer (writable_of_number? hv)
  · exact .identifier (hl.admits_identifier hk)
  · exact .string

end Token

namespace Grammar

/-! ## Expressions -/

theorem Expression.wellFormed {level : Level} {ts : List Token} {n : Node}
    (h : lenient.Expression level ts n) (hl : ∀ t ∈ ts, t.Lexical) :
    Vocabulary.language.Expression n := by
  induction h with
  | operand h =>
    exact (hl _ (by simp)).expression_operand h.2
  | enclosed _ _ _ ih => exact ih fun t ht => hl t (by simp [ht])
  | single _ ih => exact ih hl
  | operation _ ho _ ihl ihr =>
    obtain ⟨hts, hus⟩ := List.forall_mem_append.1 hl
    exact .binary (ihl hts) (Level.mem_reach_equality ho) (ihr (List.forall_mem_cons.1 hus).2)

/-- An expression that does not open with a parenthesis opens with its leftmost operand. -/
theorem Expression.leftmost {level : Level} {t : Token} {ts us : List Token} {n : Node}
    (h : lenient.Expression level us n) (hus : us = t :: ts) (ht : t.text ≠ "(") :
    t.operand = .ok n.leftmost := by
  induction h generalizing t ts with
  | operand h =>
    cases hus
    rw [Token.leftmost_of_operand h.2]
    exact h.2
  | enclosed hlt =>
    obtain ⟨rfl, _⟩ := List.cons.inj hus
    exact absurd hlt ht
  | single _ ih => exact ih hus ht
  | @operation _ ls _ _ _ _ hleft _ _ ih _ =>
    cases ls with
    | nil => exact absurd rfl hleft.ne_nil
    | cons l ls =>
      cases hus
      exact ih rfl ht

/-- An expression of two tokens or more that does not open with a parenthesis is an operation. -/
theorem Expression.exists_binary {level : Level} {t u : Token} {ts us : List Token} {n : Node}
    (h : lenient.Expression level us n) (hus : us = t :: u :: ts) (ht : t.text ≠ "(") :
    ∃ left operator right, n = .binary left operator right := by
  induction h generalizing t u ts with
  | operand => cases hus
  | enclosed hlt =>
    obtain ⟨rfl, _⟩ := List.cons.inj hus
    exact absurd hlt ht
  | single _ ih => exact ih hus ht
  | operation => exact ⟨_, _, _, rfl⟩

theorem Name.wellFormed {ts : List Token} {n : Node} (h : Name ts n) (hl : ∀ t ∈ ts, t.Lexical) :
    Vocabulary.language.Name n := by
  cases h with
  | mk hk => exact .mk ((hl _ (by simp)).admits_identifier hk)

/-! ## Lists -/

/-- What is known of each part is known of all parts. -/
theorem Separated.wellFormed {part : List Token → Node → Prop} {P : Node → Prop}
    (hpart : ∀ ts n, part ts n → (∀ t ∈ ts, t.Lexical) → P n) {ts : List Token} {ns : List Node}
    (h : Separated part ts ns) (hl : ∀ t ∈ ts, t.Lexical) : ∀ n ∈ ns, P n := by
  induction h with
  | one h => exact List.forall_mem_singleton.2 (hpart _ _ h hl)
  | more h _ _ ih =>
    obtain ⟨hts, hus⟩ := List.forall_mem_append.1 hl
    exact List.forall_mem_cons.2 ⟨hpart _ _ h hts, ih (List.forall_mem_cons.1 hus).2⟩

theorem Enclosed.wellFormed {part : List Token → Node → Prop} {P : Node → Prop}
    (hpart : ∀ ts n, part ts n → (∀ t ∈ ts, t.Lexical) → P n) {ts : List Token} {ns : List Node}
    (h : Enclosed part ts ns) (hl : ∀ t ∈ ts, t.Lexical) : ∀ n ∈ ns, P n := by
  cases h with
  | none => simp
  | some _ h _ => exact h.wellFormed hpart fun t ht => hl t (by simp [ht])

theorem Call.wellFormed {ts : List Token} {n : Node} (h : lenient.Call ts n)
    (hl : ∀ t ∈ ts, t.Lexical) : Vocabulary.language.Call n := by
  cases h with
  | mk hk ha =>
    obtain ⟨hlt, hts⟩ := List.forall_mem_cons.1 hl
    exact .mk (.mk (hlt.admits_identifier hk)) (ha.wellFormed (fun _ _ he => he.wellFormed) hts)

theorem Signature.wellFormed {ts : List Token} {name : Node} {ps : List Node}
    (h : Signature ts name ps) (hl : ∀ t ∈ ts, t.Lexical) :
    Vocabulary.language.Name name ∧ ∀ p ∈ ps, Vocabulary.language.Name p := by
  cases h with
  | mk hk hp =>
    obtain ⟨hlt, hts⟩ := List.forall_mem_cons.1 hl
    exact ⟨.mk (hlt.admits_identifier hk), hp.wellFormed (fun _ _ hn => hn.wellFormed) hts⟩

theorem Condition.wellFormed {ts : List Token} {n : Node} (h : lenient.Condition ts n)
    (hl : ∀ t ∈ ts, t.Lexical) : Vocabulary.language.Expression n := by
  cases h with
  | mk _ _ h _ => exact h.wellFormed fun t ht => hl t (by simp [ht])

/-! ## Statements and programs -/

/-- An operation that a name begins. -/
theorem Expression.isLone {x o : Token} {ts : List Token} {n : Node} (hl : x.Lexical)
    (hx : x.kind = .identifier) (h : lenient.Expression .equality (x :: o :: ts) n) :
    n.IsLone := by
  have hne : x.text ≠ "(" := Literal.text_ne hl (.identifier hx) rfl
  have hoperand := Literal.operand_eq hl (.identifier hx) fun hk => nomatch hx.symm.trans hk
  refine ⟨h.exists_binary rfl hne, x.text, ?_⟩
  exact Except.ok.inj ((h.leftmost rfl hne).symm.trans hoperand)

theorem Derives.wellFormed {form : Form} {ts : List Token} {ns : List Node}
    (h : lenient.Derives form ts ns) (hl : ∀ t ∈ ts, t.Lexical) :
    ∀ n ∈ ns, Vocabulary.language.Statement n := by
  induction h with
  | returning _ h _ =>
    exact List.forall_mem_singleton.2 (.returning (h.wellFormed fun t ht => hl t (by simp [ht])))
  | conditional hc ht ih =>
    obtain ⟨hts, hus⟩ := List.forall_mem_append.1 hl
    obtain ⟨body, rfl⟩ := ht.exists_block
    have hbody := List.forall_mem_singleton.1 (ih hus)
    exact List.forall_mem_singleton.2 (.conditional (hc.wellFormed hts) hbody)
  | alternative hc ht _ hu iht ihu =>
    simp only [List.forall_mem_append, List.forall_mem_cons] at hl
    obtain ⟨body, rfl⟩ := ht.exists_block
    obtain ⟨others, rfl⟩ := hu.exists_block
    have hbody := List.forall_mem_singleton.1 (iht hl.2.1)
    have hothers := List.forall_mem_singleton.1 (ihu hl.2.2.2)
    exact List.forall_mem_singleton.2 (.alternative (hc.wellFormed hl.1) hbody hothers)
  | declaration ht hs hb ih =>
    simp only [List.forall_mem_append, List.forall_mem_cons] at hl
    obtain ⟨hname, hps⟩ := hs.wellFormed hl.2.1
    obtain ⟨body, rfl⟩ := hb.exists_block
    have hbody := List.forall_mem_singleton.1 (ih hl.2.2)
    exact List.forall_mem_singleton.2 (.declaration ht hname hps hbody)
  | nested _ ih => exact ih hl
  | assignedCall hx _ h =>
    simp only [List.forall_mem_cons] at hl
    have hvalue := h.wellFormed hl.2.2
    exact List.forall_mem_singleton.2
      (.assignment (.mk (hl.1.admits_identifier hx)) (.inr hvalue))
  | assignment hx _ h =>
    simp only [List.forall_mem_cons] at hl
    have hvalue := h.wellFormed hl.2.2
    exact List.forall_mem_singleton.2
      (.assignment (.mk (hl.1.admits_identifier hx)) (.inl hvalue))
  | call h => exact List.forall_mem_singleton.2 (.call (h.wellFormed hl))
  | expression hx _ h =>
    have hlone := h.isLone (hl _ (by simp)) hx
    exact List.forall_mem_singleton.2 (.expression (h.wellFormed hl) hlone)
  | block _ _ _ ih =>
    exact List.forall_mem_singleton.2 (.block (ih fun t ht => hl t (by simp [ht])))
  | empty => simp
  | separator _ _ ih => exact ih (List.forall_mem_cons.1 hl).2
  | next _ _ _ ih ihs =>
    obtain ⟨hts, hus⟩ := List.forall_mem_append.1 hl
    exact List.forall_mem_cons.2 ⟨List.forall_mem_singleton.1 (ih hts), ihs hus⟩

theorem Items.wellFormed {behind : Bool} {ts : List Token} {ns : List Node}
    (h : lenient.Items behind ts ns) (hl : ∀ t ∈ ts, t.Lexical) :
    ∀ n ∈ ns, Vocabulary.language.Item n := by
  induction h with
  | empty => simp
  | separator _ _ ih => exact ih (List.forall_mem_cons.1 hl).2
  | statement h _ _ _ ih =>
    obtain ⟨hts, hus⟩ := List.forall_mem_append.1 hl
    have hn := List.forall_mem_singleton.1 (h.wellFormed hts)
    exact List.forall_mem_cons.2 ⟨.statement hn, ih hus⟩
  | declaration ht hg hb _ ih =>
    simp only [List.forall_mem_append, List.forall_mem_cons] at hl
    obtain ⟨hname, hps⟩ := hg.wellFormed hl.1.2.1
    obtain ⟨body, rfl⟩ := hb.exists_block
    have hbody := List.forall_mem_singleton.1 (hb.wellFormed hl.1.2.2)
    have htag : Vocabulary.language.itemTag _ := List.mem_cons.2 (.inl ht)
    exact List.forall_mem_cons.2 ⟨.declaration htag hname hps hbody, ih hl.2⟩

theorem Program.wellFormed {ts : List Token} {p : Node} (h : lenient.Program ts p)
    (hl : ∀ t ∈ ts, t.Lexical) : Vocabulary.language.Program p := by
  obtain ⟨items, rfl, h⟩ := h
  exact .mk (h.wellFormed hl)

end Grammar

/-! ## Parsed trees -/

/-- A program that is parsed is well-formed and has an outline, whatever its stream.  If it is
parsed from a source text it has the words of the language only. -/
theorem wellFormed_of_parse :
    (∀ stream p, parse stream = .ok p →
      Vocabulary.unrestricted.Program p ∧ ∃ text, p.render = .ok text) ∧
    (∀ source p, parse (.ofSource source) = .ok p → Vocabulary.language.Program p) := by
  refine ⟨fun stream p h => ?_, fun source p h => ?_⟩
  · have hp := program_of_parse h
    exact ⟨hp, hp.exists_render⟩
  · have hl : ∀ t ∈ (tokenize source).tokens, t.Lexical := fun t => lexical_of_mem_tokenize
    rw [ofSource_of_fault_eq_none (fault_of_parse_ofSource h)] at h
    exact (lenient_of_parse hl h).wellFormed hl

/-- An operation whose text is a semicolon lets a name stand alone, which no source text does. -/
theorem wellFormed_of_parse_of_gap :
    (∃ p, parse (.ofTokens [some ⟨.identifier, "x", ⟨1, 1⟩⟩, some ⟨.operation, ";", ⟨1, 2⟩⟩, none,
        some ⟨.keyword, "if", ⟨1, 3⟩⟩]) = .ok p ∧ Vocabulary.unrestricted.Program p ∧
        (∃ text, p.render = .ok text) ∧ ¬ Vocabulary.language.Program p) ∧
      ∃ p, parse (.ofSource "x + 1") = .ok p ∧ Vocabulary.language.Program p := by
  refine ⟨⟨.program [.identifier "x"], by decide +kernel, ?_⟩,
    .program [.binary (.identifier "x") "+" (.integer 1)], by decide +kernel, ?_⟩
  · obtain ⟨hp, hrender⟩ := wellFormed_of_parse.1 _ (.program [.identifier "x"])
      (by decide +kernel : parse (.ofTokens [some ⟨.identifier, "x", ⟨1, 1⟩⟩,
        some ⟨.operation, ";", ⟨1, 2⟩⟩, none, some ⟨.keyword, "if", ⟨1, 3⟩⟩]) = _)
    refine ⟨hp, hrender, fun h => ?_⟩
    cases h with
    | mk h =>
      cases h (.identifier "x") (by simp) with
      | statement h =>
        cases h with
        | expression _ hl =>
          obtain ⟨⟨_, _, _, hb⟩, _⟩ := hl
          cases hb
        | call h => cases h
  · exact wellFormed_of_parse.2 "x + 1" _ (by decide +kernel)

end MiniLang
