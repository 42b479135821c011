/-!
# Syntax trees

The nodes of a syntax tree.  The type is wide: it lets a node of any kind stand at any place, and
has a node for nothing at all and nodes of kinds that the language does not have, so that printing
and comparing are total over everything a caller may hand in.  What reading a program returns uses
far less of it.

Trees are compared structurally; `Node.same_iff` says that the comparison decides equality.
-/

set_option autoImplicit false

namespace MiniLang

/-- A node of a syntax tree. -/
inductive Node where
  | identifier (name : String)
  | integer (value : Int)
  /-- The text of a string token: quotes included, escapes resolved. -/
  | string (value : String)
  | binary (left : Node) (operator : String) (right : Node)
  | call (name : Node) (arguments : List Node)
  | assignment (target value : Node)
  | block (statements : List Node)
  | declaration (returnType : String) (name : Node) (parameters : List Node) (body : Node)
  /-- A conditional.  The second branch is `absent` where there is none. -/
  | conditional (condition thenBlock elseBlock : Node)
  | returning (expression : Node)
  | program (items : List Node)
  /-- No node. -/
  | absent
  /-- A node of a kind that the language does not have. -/
  | unknown (kind : String)
  deriving Repr, Inhabited

namespace Node

/-- The name that a kind of node is written by. -/
def kindName : Node → String
  | .identifier _ => "Identifier"
  | .integer _ => "IntLiteral"
  | .string _ => "StringLiteral"
  | .binary .. => "BinaryOp"
  | .call .. => "FuncCall"
  | .assignment .. => "Assignment"
  | .block _ => "Block"
  | .declaration .. => "FuncDeclaration"
  | .conditional .. => "IfStatement"
  | .returning _ => "ReturnStatement"
  | .program _ => "Program"
  | .absent => "null"
  | .unknown kind => kind

/-! ## Equality -/

mutual

/-- Whether two trees are the same, kind by kind and field by field. -/
def same : Node → Node → Bool
  | .identifier a, .identifier b => a == b
  | .integer a, .integer b => a == b
  | .string a, .string b => a == b
  | .binary l o r, .binary l' o' r' => same l l' && o == o' && same r r'
  | .call n as, .call n' as' => same n n' && sameList as as'
  | .assignment t v, .assignment t' v' => same t t' && same v v'
  | .block ss, .block ss' => sameList ss ss'
  | .declaration r n ps b, .declaration r' n' ps' b' =>
    r == r' && same n n' && sameList ps ps' && same b b'
  | .conditional c t e, .conditional c' t' e' => same c c' && same t t' && same e e'
  | .returning e, .returning e' => same e e'
  | .program is, .program is' => sameList is is'
  | .absent, .absent => true
  | .unknown k, .unknown k' => k == k'
  | _, _ => false

/-- Whether two lists of trees are the same, tree by tree. -/
def sameList : List Node → List Node → Bool
  | [], [] => true
  | n :: ns, n' :: ns' => same n n' && sameList ns ns'
  | _, _ => false

end

mutual

theorem eq_of_same : ∀ {a b : Node}, same a b = true → a = b
  | .identifier _, b, h => by cases b <;> simp_all [same]
  | .integer _, b, h => by cases b <;> simp_all [same]
  | .string _, b, h => by cases b <;> simp_all [same]
  | .binary l o r, b, h => by
    cases b <;> simp only [same, Bool.and_eq_true, beq_iff_eq, reduceCtorEq] at h
    rw [eq_of_same h.1.1, h.1.2, eq_of_same h.2]
  | .call n as, b, h => by
    cases b <;> simp only [same, Bool.and_eq_true, reduceCtorEq] at h
    rw [eq_of_same h.1, eq_of_sameList h.2]
  | .assignment t v, b, h => by
    cases b <;> simp only [same, Bool.and_eq_true, reduceCtorEq] at h
    rw [eq_of_same h.1, eq_of_same h.2]
  | .block ss, b, h => by
    cases b <;> simp only [same, reduceCtorEq] at h
    rw [eq_of_sameList h]
  | .declaration r n ps body, b, h => by
    cases b <;> simp only [same, Bool.and_eq_true, beq_iff_eq, reduceCtorEq] at h
    rw [h.1.1.1, eq_of_same h.1.1.2, eq_of_sameList h.1.2, eq_of_same h.2]
  | .conditional c t e, b, h => by
    cases b <;> simp only [same, Bool.and_eq_true, reduceCtorEq] at h
    rw [eq_of_same h.1.1, eq_of_same h.1.2, eq_of_same h.2]
  | .returning e, b, h => by
    cases b <;> simp only [same, reduceCtorEq] at h
    rw [eq_of_same h]
  | .program is, b, h => by
    cases b <;> simp only [same, reduceCtorEq] at h
    rw [eq_of_sameList h]
  | .absent, b, h => by cases b <;> simp_all [same]
  | .unknown _, b, h => by cases b <;> simp_all [same]

theorem eq_of_sameList : ∀ {as bs : List Node}, sameList as bs = true → as = bs
  | [], bs, h => by cases bs <;> simp_all [sameList]
  | n :: ns, bs, h => by
    cases bs with
    | nil => simp [sameList] at h
    | cons n' ns' =>
      simp only [sameList, Bool.and_eq_true] at h
      rw [eq_of_same h.1, eq_of_sameList h.2]

end

mutual

theorem same_self : ∀ a : Node, same a a = true
  | .identifier _ => by simp [same]
  | .integer _ => by simp [same]
  | .string _ => by simp [same]
  | .binary l _ r => by simp [same, same_self l, same_self r]
  | .call n as => by simp [same, same_self n, sameList_self as]
  | .assignment t v => by simp [same, same_self t, same_self v]
  | .block ss => by simp [same, sameList_self ss]
  | .declaration _ n ps b => by simp [same, same_self n, sameList_self ps, same_self b]
  | .conditional c t e => by simp [same, same_self c, same_self t, same_self e]
  | .returning e => by simp [same, same_self e]
  | .program is => by simp [same, sameList_self is]
  | .absent => by simp [same]
  | .unknown _ => by simp [same]

theorem sameList_self : ∀ as : List Node, sameList as as = true
  | [] => by simp [sameList]
  | n :: ns => by simp [sameList, same_self n, sameList_self ns]

end

/-- The comparison decides equality. -/
theorem same_iff {a b : Node} : same a b = true ↔ a = b :=
  ⟨eq_of_same, fun h => h ▸ same_self a⟩

instance : DecidableEq Node := fun _ _ => decidable_of_iff _ same_iff

end Node

end MiniLang
