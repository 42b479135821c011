import MiniLang.Proofs.Front
import MiniLang.Proofs.Numbers
import MiniLang.Proofs.Outline.Entries
import MiniLang.Proofs.Plan
/-!
# Well-formed trees

Which nodes stand where in a tree that is read, and that nothing else does: no node is missing but
the second branch of a conditional, and a call stands as a statement or as what is assigned.  A
`Vocabulary` says which words such a tree uses.

Whatever a stream holds, the program that is parsed from it is well-formed
(`program_of_parse`), and a well-formed tree has an outline (`Vocabulary.exists_render`).
-/

set_option autoImplicit false

namespace MiniLang

/-! ## Well-formed trees -/

/-- The words that a tree may use. -/
structure Vocabulary where
  name : String → Prop
  operator : String → Prop
  /-- The tag of a declaration that is a statement. -/
  tag : String → Prop
  /-- The tag of a declaration that is an item of the program. -/
  itemTag : String → Prop
  /-- An expression that stands as a statement. -/
  lone : Node → Prop

namespace Vocabulary

/-- All words. -/
def unrestricted : Vocabulary :=
  ⟨fun _ => True, fun _ => True, fun _ => True, fun _ => True, fun _ => True⟩

/-- A name: the name of a function, a parameter, or the target of an assignment. -/
inductive Name (V : Vocabulary) : Node → Prop where
  | mk {name : String} (h : V.name name) : V.Name (.identifier name)

/-- An expression: an operand, a condition, an argument, or what is returned. -/
inductive Expression (V : Vocabulary) : Node → Prop where
  | identifier {name : String} (h : V.name name) : V.Expression (.identifier name)
  | integer {value : Int} (h : Text.Writable value) : V.Expression (.integer value)
  | string {value : String} : V.Expression (.string value)
  | binary {left right : Node} {operator : String} (hl : V.Expression left)
      (ho : V.operator operator) (hr : V.Expression right) :
      V.Expression (.binary left operator right)

/-- A call.  It is no expression. -/
inductive Call (V : Vocabulary) : Node → Prop where
  | mk {name : Node} {arguments : List Node} (hn : V.Name name)
      (ha : ∀ a ∈ arguments, V.Expression a) : V.Call (.call name arguments)

/-- A statement.  Both branches of a conditional and the body of a declaration are blocks. -/
inductive Statement (V : Vocabulary) : Node → Prop where
  | expression {n : Node} (h : V.Expression n) (hl : V.lone n) : V.Statement n
  | call {n : Node} (h : V.Call n) : V.Statement n
  | assignment {target value : Node} (ht : V.Name target) (hv : V.Expression value ∨ V.Call value) :
      V.Statement (.assignment target value)
  | returning {n : Node} (h : V.Expression n) : V.Statement (.returning n)
  | block {statements : List Node} (h : ∀ s ∈ statements, V.Statement s) :
      V.Statement (.block statements)
  | conditional {condition : Node} {statements : List Node} (hc : V.Expression condition)
      (ht : V.Statement (.block statements)) :
      V.Statement (.conditional condition (.block statements) .absent)
  | alternative {condition : Node} {statements others : List Node} (hc : V.Expression condition)
      (ht : V.Statement (.block statements)) (hu : V.Statement (.block others)) :
      V.Statement (.conditional condition (.block statements) (.block others))
  | declaration {tag : String} {name : Node} {parameters statements : List Node} (ht : V.tag tag)
      (hn : V.Name name) (hp : ∀ p ∈ parameters, V.Name p) (hb : V.Statement (.block statements)) :
      V.Statement (.declaration tag name parameters (.block statements))

/-- An item of a program: a statement, or a declaration with a tag of its own. -/
inductive Item (V : Vocabulary) : Node → Prop where
  | statement {n : Node} (h : V.Statement n) : V.Item n
  | declaration {tag : String} {name : Node} {parameters statements : List Node}
      (ht : V.itemTag tag) (hn : V.Name name) (hp : ∀ p ∈ parameters, V.Name p)
      (hb : V.Statement (.block statements)) :
      V.Item (.declaration tag name parameters (.block statements))

/-- A program. -/
inductive Program (V : Vocabulary) : Node → Prop where
  | mk {items : List Node} (h : ∀ i ∈ items, V.Item i) : V.Program (.program items)

/-- A block whose statements are well-formed. -/
inductive Block (V : Vocabulary) : Node → Prop where
  | mk {statements : List Node} (h : V.Statement (.block statements)) : V.Block (.block statements)

variable {V : Vocabulary} {n : Node}

theorem Name.expression (h : V.Name n) : V.Expression n := by
  cases h with
  | mk h => exact .identifier h

/-! ## Outlines of well-formed trees -/

theorem Expression.whole (h : V.Expression n) : n.Whole Text.Writable := by
  induction h with
  | identifier => exact .identifier
  | integer h => exact .integer h
  | string => exact .string
  | binary _ _ _ ihl ihr => exact .binary ihl ihr

theorem Name.whole (h : V.Name n) : n.Whole Text.Writable := h.expression.whole

theorem Call.whole (h : V.Call n) : n.Whole Text.Writable := by
  cases h with
  | mk hn ha => exact .call hn.whole fun a h => (ha a h).whole

theorem Statement.whole (h : V.Statement n) : n.Whole Text.Writable := by
  induction h with
  | expression h => exact h.whole
  | call h => exact h.whole
  | assignment ht hv => exact .assignment ht.whole (hv.elim (·.whole) (·.whole))
  | returning h => exact .returning h.whole
  | block _ ih => exact .block ih
  | conditional hc _ iht => exact .conditional hc.whole iht (by simp)
  | alternative hc _ _ iht ihu => exact .conditional hc.whole iht fun _ => ihu
  | declaration _ hn hp _ ihb => exact .declaration hn.whole (fun p h => (hp p h).whole) ihb

theorem Item.whole (h : V.Item n) : n.Whole Text.Writable := by
  cases h with
  | statement h => exact h.whole
  | declaration _ hn hp hb => exact .declaration hn.whole (fun p h => (hp p h).whole) hb.whole

/-- A well-formed program has an outline. -/
theorem Program.exists_render (h : V.Program n) : ∃ text, n.render = .ok text := by
  cases h with
  | mk h => exact ⟨_, Node.render_program fun i hi => (h i hi).whole⟩

end Vocabulary

/-! ## What is read is well-formed -/

open Vocabulary

/-- What a phrase makes.  The parts that have been read before are well-formed if the whole is to
be. -/
def Phrase.Makes : Phrase → Node → Prop
  | .identifier, n => unrestricted.Name n
  | .primary, n => unrestricted.Expression n
  | .chain _ operand, n =>
    (∀ m, operand.Makes m → unrestricted.Expression m) → unrestricted.Expression n
  | .chained _ operand left, n =>
    (∀ m, operand.Makes m → unrestricted.Expression m) → unrestricted.Expression left →
      unrestricted.Expression n
  | .call, n => unrestricted.Call n
  | .arguments name args, n =>
    unrestricted.Name name → (∀ a ∈ args, unrestricted.Expression a) → unrestricted.Call n
  | .assignment target, n => unrestricted.Name target → unrestricted.Statement n
  | .block, n => unrestricted.Block n
  | .statements body, n => (∀ s ∈ body, unrestricted.Statement s) → unrestricted.Block n
  | .sentence, n => n = .absent ∨ unrestricted.Statement n
  | _, n => unrestricted.Statement n

/-- What the phrases make, and that parameters are names. -/
def shapes : Contract where
  phrase := Phrase.Makes
  parameters read nodes := (∀ p ∈ read, unrestricted.Name p) → ∀ p ∈ nodes, unrestricted.Name p

theorem Phrase.expression_of_makes {n : Node} (h : Phrase.expression.Makes n) :
    unrestricted.Expression n :=
  h fun _ h => h fun _ h => h fun _ h => h fun _ h => h

theorem Vocabulary.Block.statement {V : Vocabulary} {n : Node} (h : V.Block n) : V.Statement n := by
  cases h with
  | mk h => exact h

theorem Token.expression_operand {t : Token} {n : Node} (h : t.operand = .ok n) :
    unrestricted.Expression n := by
  rcases Token.operand_cases h with ⟨_, hv, rfl⟩ | ⟨-, ⟨-, rfl⟩ | ⟨-, rfl⟩⟩
  · exact .integer (writable_of_number? hv)
  · exact .identifier trivial
  · exact .string

theorem forall_mem_snoc {P : Node → Prop} {nodes : List Node} {n : Node} (h : ∀ m ∈ nodes, P m)
    (hn : P n) : ∀ m ∈ nodes ++ [n], P m :=
  List.forall_mem_append.2 ⟨h, List.forall_mem_singleton.2 hn⟩

open Plan in
/-- The plan of a phrase makes what the phrase makes. -/
theorem Phrase.ensures_makes (phrase : Phrase) : phrase.plan.Ensures shapes phrase.Makes := by
  cases phrase with
  | identifier => exact ensures_identifier fun _ => .mk trivial
  | primary =>
    rintro (_ | t) next
    · trivial
    · refine ensures_ite (fun _ node hnode => ?_) fun _ => ?_
      · exact ensures_accept (expression_of_makes hnode)
      · cases ho : t.operand with
        | ok node => exact Token.expression_operand ho
        | error digits => trivial
  | chain operators operand =>
    intro left hleft n hn hoperand
    exact hn hoperand (hoperand left hleft)
  | chained operators operand left =>
    rintro (_ | t) next
    · exact fun _ hleft => hleft
    · refine ensures_ite (fun _ right hright n hn hoperand hleft => ?_) fun _ _ hleft => hleft
      exact hn hoperand (.binary hleft trivial (hoperand right hright))
  | call =>
    rw [plan]
    refine ensures_identifier fun name => ?_
    refine ensures_accept fun current next => ?_
    refine ensures_ite (fun _ => ensures_accept ?_) fun _ argument hargument n hn => ?_
    · exact .mk (.mk trivial) (by simp)
    · exact hn (.mk trivial) (List.forall_mem_singleton.2 (expression_of_makes hargument))
  | arguments name args =>
    intro current next
    refine ensures_ite (fun _ => ensures_accept fun argument hargument n hn hname hargs => ?_)
      fun _ => ensures_accept fun hname hargs => .mk hname hargs
    exact hn hname (forall_mem_snoc hargs (expression_of_makes hargument))
  | assignment target =>
    rintro (_ | t) next
    · trivial
    · refine ensures_ite (fun _ current next => ?_) fun _ => trivial
      refine ensures_ite (fun _ value hvalue htarget => ?_) fun _ value hvalue htarget => ?_
      · exact .assignment htarget (.inr hvalue)
      · exact .assignment htarget (.inl (expression_of_makes hvalue))
  | identifierLed =>
    rintro (_ | t) (_ | following)
    · trivial
    · trivial
    · trivial
    · refine ensures_ite (fun _ n hn => hn (.mk trivial)) fun _ => ?_
      refine ensures_ite (fun _ n hn => .expression (expression_of_makes hn) trivial) fun _ => ?_
      exact ensures_ite (fun _ n hn => .call hn) fun _ => trivial
  | returning =>
    exact ensures_accept fun n hn => ensures_accept (.returning (expression_of_makes hn))
  | conditional =>
    refine ensures_accept (ensures_accept fun condition hcondition => ensures_accept ?_)
    rintro _ ⟨ht⟩ current next
    have hc := expression_of_makes hcondition
    refine ensures_ite (fun _ => ensures_accept ?_) fun _ => .conditional hc ht
    rintro _ ⟨hu⟩
    exact .alternative hc ht hu
  | declaration =>
    rintro (_ | t) next
    · trivial
    · refine ensures_advance (ensures_identifier fun name => ?_)
      refine ensures_accept ?_
      have hrest : ∀ parameters, (∀ p ∈ parameters, unrestricted.Name p) →
          (accept ")" (.phrase .block fun body =>
            .done (.declaration t.text (.identifier name) parameters body))).Ensures shapes
              unrestricted.Statement := by
        intro parameters hp
        refine ensures_accept ?_
        rintro _ ⟨hb⟩
        exact .declaration trivial (.mk trivial) hp hb
      intro current next
      refine ensures_ite (fun _ => hrest [] (by simp)) fun _ => ?_
      refine ensures_identifier fun parameter parameters hp => hrest parameters (hp ?_)
      exact List.forall_mem_singleton.2 (.mk trivial)
  | block => exact ensures_accept fun n hn => hn (by simp)
  | statements body =>
    intro current next
    refine ensures_ite (fun _ => ensures_accept fun hbody => .mk (.block hbody)) fun _ => ?_
    refine ensures_ite (fun _ => ensures_accept fun n hn hbody => hn hbody) fun _ => ?_
    refine ensures_ite (fun _ n hn m hm hbody => ?_) fun _ n hn m hm hbody => ?_
    · exact hm (forall_mem_snoc hbody hn.statement)
    · exact hm (forall_mem_snoc hbody hn)
  | statement =>
    rintro (_ | t) next
    · trivial
    · refine ensures_ite (fun _ => ?_) fun _ => ?_
      · refine ensures_ite (fun _ n hn => hn) fun _ => ?_
        exact ensures_ite (fun _ n hn => hn) fun _ n hn => hn
      · exact ensures_ite (fun _ n hn => hn) fun _ => trivial
  | sentence =>
    intro current next
    refine ensures_ite (fun _ => ensures_accept fun n hn => hn) fun _ => ?_
    exact ensures_ite (fun _ => .inl rfl) fun _ n hn => .inr hn

open Plan in
theorem ensures_moreParameters (read : List Node) :
    (moreParameters read).Ensures shapes (shapes.parameters read) := by
  intro current next
  refine ensures_ite (fun _ => ensures_accept ?_) fun _ hread => hread
  refine ensures_identifier fun name nodes hnodes hread => ?_
  exact hnodes (forall_mem_snoc hread (.mk trivial))

theorem Phrase.makes_of_run {phrase : Phrase} {w w' : Window} {n : Node}
    (h : phrase.run w = .ok n w') : phrase.Makes n :=
  Phrase.keeps_of_run ensures_makes ensures_moreParameters h

/-- A statement is some node. -/
theorem Phrase.run_statement_ne_absent (w w' : Window) :
    Phrase.statement.run w ≠ .ok .absent w' := by
  intro h
  cases (makes_of_run h : unrestricted.Statement .absent) with
  | expression h => cases h
  | call h => cases h

/-- A sentence is some node where a block reads one: a block passes semicolons, opens the blocks
within it and finds its end by itself. -/
theorem Phrase.run_sentence_ne_absent {w : Window} (hend : ¬ (w.current.isNone ∨ w.reads "\x7d"))
    (hs : ¬ w.reads ";") (hopen : ¬ w.reads "\x7b") (w' : Window) :
    Phrase.sentence.run w ≠ .ok .absent w' := by
  have hb : ¬ (w.current.isNone ∨ w.reads "\x7b") := by
    rintro (hc | hr)
    · exact hend (.inl hc)
    · exact hopen hr
  rw [run_sentence_eq_statement hs hb]
  exact run_statement_ne_absent w w'

/-! ## Programs -/

/-- An item that is read is a well-formed statement, or no node at all. -/
theorem Token.item_of_run {t : Token} {w w' : Window} {n : Node}
    (h : t.topLevel.run w = .ok n w') : n = .absent ∨ unrestricted.Statement n := by
  have hmakes := Phrase.makes_of_run h
  revert hmakes
  exact t.topLevel_cases (P := fun p => p.Makes n → n = .absent ∨ unrestricted.Statement n)
    .inr .inr (fun hb => .inr (Block.statement hb)) id

theorem program_of_readItems {items : List Node} (hi : ∀ i ∈ items, unrestricted.Statement i)
    {w w' : Window} {p : Node} (h : (readItems items w).outcome = .ok p w') :
    unrestricted.Program p := by
  induction hn : w.left using Nat.strongRecOn generalizing items w with
  | ind k ih =>
    rw [outcome_readItems] at h
    split at h
    · cases h
      exact .mk fun i h => .statement (hi i h)
    · rename_i t hc
      obtain ⟨n, w₁, hr, h⟩ := Outcome.andThen_eq_ok.1 h
      have hw := (Token.within_run_topLevel hc).left_le hr
      split at h
      · exact ih w₁.left (by omega) hi h rfl
      · rename_i hne
        have hstatement := (Token.item_of_run hr).resolve_left hne
        exact ih w₁.left (by omega) (forall_mem_snoc hi hstatement) h rfl

/-- A program that is parsed is well-formed, whatever its stream. -/
theorem program_of_parse {stream : Stream} {p : Node} (h : parse stream = .ok p) :
    unrestricted.Program p := by
  unfold parse at h
  split at h
  · cases h
  · rename_i w _
    cases hr : w.program with
    | fail fault w' => rw [hr] at h; cases h
    | ok q w' =>
      rw [hr] at h
      cases h
      rw [Window.program_eq] at hr
      exact program_of_readItems (by simp) hr

end MiniLang
