import MiniLang.Proofs.Numbers
/-!
# The grammar

Which lists of tokens are programs, and the trees that they make, said without reading: each rule
puts the lists of its parts together.  A `Grammar` leaves two things open, and the rest is shared.

* Which operand a single token makes.  `Grammar.language` has numbers, names and strings only, and
  `Grammar.readable` those of them that can be read; `Grammar.lenient` takes any token but an
  opening parenthesis that can be.
* What a statement may stand before.  A conditional without a second branch may not stand before
  `else`, which would be its own; `Grammar.contextFree` leaves that out.

The items of a program come in two relations.  `Grammar.Sequence` has one rule for each kind of
item, and `Grammar.Items` also says how the word `int` is read right behind a semicolon.
-/

set_option autoImplicit false

namespace MiniLang

/-! ## Levels -/

/-- The levels of an expression, from the loosest operators down to the operands. -/
inductive Level where
  | equality
  | comparison
  | sum
  | product
  | primary
  deriving DecidableEq, Repr

namespace Level

/-- The operators of a level, which associate to the left. -/
def operators : Level → List String
  | .equality => ["==", "!=", ">=", "<="]
  | .comparison => ["<", ">", "="]
  | .sum => ["+", "-"]
  | .product => ["*", "/", "%"]
  | .primary => []

/-- The level of the operands of a level. -/
def tighter : Level → Level
  | .equality => .comparison
  | .comparison => .sum
  | .sum => .product
  | .product => .primary
  | .primary => .primary

end Level

/-! ## What grammars differ in -/

/-- What the grammars of the language differ in. -/
structure Grammar where
  /-- The operand that a token makes. -/
  operand : Token → Node → Prop
  /-- Whether a statement may stand before a list of tokens. -/
  before : Node → List Token → Prop

/-- Whether a list of tokens begins with a text. -/
def StartsWith (text : String) : List Token → Prop
  | [] => False
  | t :: _ => t.text = text

/-- Whether a statement is a conditional without a second branch. -/
def Node.isOpen : Node → Bool
  | .conditional _ _ .absent => true
  | _ => false

/-- Whether a node is one of those that expressions are made of. -/
def Node.isExpression : Node → Bool
  | .identifier _ => true
  | .integer _ => true
  | .string _ => true
  | .binary .. => true
  | _ => false

/-- A conditional without a second branch does not stand before `else`. -/
def Node.Before (node : Node) (tokens : List Token) : Prop :=
  node.isOpen = true → ¬ StartsWith "else" tokens

/-- The operands of the language: a number, a name or a string. -/
inductive Literal : Token → Node → Prop where
  | integer {t : Token} (hk : t.kind = .integer) :
      Literal t (.integer (decimalValue t.text.toList))
  | identifier {t : Token} (hk : t.kind = .identifier) : Literal t (.identifier t.text)
  | string {t : Token} (hk : t.kind = .string) : Literal t (.string t.text)

namespace Grammar

/-- The grammar of the language. -/
def language : Grammar := ⟨Literal, Node.Before⟩

/-- The grammar of the language with the numbers only that do not have too many digits. -/
def readable : Grammar := ⟨fun t n => Literal t n ∧ t.operand = .ok n, Node.Before⟩

/-- The grammar that takes any token but an opening parenthesis for an operand, unless it writes a
number with too many digits. -/
def lenient : Grammar := ⟨fun t n => t.text ≠ "(" ∧ t.operand = .ok n, Node.Before⟩

/-- The grammar without regard to what a statement stands before. -/
def contextFree : Grammar := ⟨Literal, fun _ _ => True⟩

/-! ## Expressions -/

/-- Expressions of a level. -/
inductive Expression (G : Grammar) : Level → List Token → Node → Prop where
  | operand {t : Token} {n : Node} (h : G.operand t n) : G.Expression .primary [t] n
  | enclosed {l r : Token} {ts : List Token} {n : Node} (hl : l.text = "(")
      (h : G.Expression .equality ts n) (hr : r.text = ")") :
      G.Expression .primary (l :: (ts ++ [r])) n
  | single {level : Level} {ts : List Token} {n : Node} (h : G.Expression level.tighter ts n) :
      G.Expression level ts n
  | operation {level : Level} {ts us : List Token} {o : Token} {left right : Node}
      (hl : G.Expression level ts left) (ho : o.text ∈ level.operators)
      (hr : G.Expression level.tighter us right) :
      G.Expression level (ts ++ o :: us) (.binary left o.text right)

/-! ## Lists -/

/-- One part or more, with commas between them. -/
inductive Separated (part : List Token → Node → Prop) : List Token → List Node → Prop where
  | one {ts : List Token} {n : Node} (h : part ts n) : Separated part ts [n]
  | more {ts us : List Token} {c : Token} {n : Node} {ns : List Node} (h : part ts n)
      (hc : c.text = ",") (hs : Separated part us ns) : Separated part (ts ++ c :: us) (n :: ns)

/-- Any number of parts, with commas between them and parentheses around them. -/
inductive Enclosed (part : List Token → Node → Prop) : List Token → List Node → Prop where
  | none {l r : Token} (hl : l.text = "(") (hr : r.text = ")") : Enclosed part [l, r] []
  | some {l r : Token} {ts : List Token} {ns : List Node} (hl : l.text = "(")
      (h : Separated part ts ns) (hr : r.text = ")") : Enclosed part (l :: (ts ++ [r])) ns

/-- A name alone. -/
inductive Name : List Token → Node → Prop where
  | mk {t : Token} (h : t.kind = .identifier) : Name [t] (.identifier t.text)

/-- Calls. -/
inductive Call (G : Grammar) : List Token → Node → Prop where
  | mk {t : Token} {ts : List Token} {args : List Node} (h : t.kind = .identifier)
      (ha : Enclosed (G.Expression .equality) ts args) :
      G.Call (t :: ts) (.call (.identifier t.text) args)

/-! ## Statements -/

/-- What a conditional begins with: `if` and a condition in parentheses. -/
inductive Condition (G : Grammar) : List Token → Node → Prop where
  | mk {i l r : Token} {ts : List Token} {n : Node} (hi : i.text = "if") (hl : l.text = "(")
      (h : G.Expression .equality ts n) (hr : r.text = ")") :
      G.Condition (i :: l :: (ts ++ [r])) n

/-- The name and the parameters of a declaration. -/
inductive Signature : List Token → Node → List Node → Prop where
  | mk {t : Token} {ts : List Token} {ps : List Node} (h : t.kind = .identifier)
      (hp : Enclosed Name ts ps) : Signature (t :: ts) (.identifier t.text) ps

/-- The keywords that open a declaration. -/
def tags : List String := ["var", "void", "else"]

/-- Whether a list of tokens begins with two opening parentheses. -/
def OpensTwice : List Token → Prop
  | l :: r :: _ => l.text = "(" ∧ r.text = "("
  | _ => False

/-- What is derived below a program. -/
inductive Form where
  | statement
  | block
  /-- What stands between the braces of a block. -/
  | body
  deriving DecidableEq, Repr

/-- The lists of tokens of a form, with the nodes that they make: one node for a statement and for a
block, and any number for the body of a block. -/
inductive Derives (G : Grammar) : Form → List Token → List Node → Prop where
  | returning {r s : Token} {ts : List Token} {n : Node} (hr : r.text = "return")
      (h : G.Expression .equality ts n) (hs : s.text = ";") :
      G.Derives .statement (r :: (ts ++ [s])) [.returning n]
  | conditional {ts us : List Token} {c t : Node} (hc : G.Condition ts c)
      (ht : G.Derives .block us [t]) : G.Derives .statement (ts ++ us) [.conditional c t .absent]
  | alternative {ts us vs : List Token} {e : Token} {c t u : Node} (hc : G.Condition ts c)
      (ht : G.Derives .block us [t]) (he : e.text = "else") (hu : G.Derives .block vs [u]) :
      G.Derives .statement (ts ++ (us ++ e :: vs)) [.conditional c t u]
  | declaration {tag : Token} {ts us : List Token} {name body : Node} {ps : List Node}
      (ht : tag.text ∈ tags) (hs : Signature ts name ps) (hb : G.Derives .block us [body]) :
      G.Derives .statement (tag :: (ts ++ us)) [.declaration tag.text name ps body]
  | nested {ts : List Token} {n : Node} (h : G.Derives .block ts [n]) :
      G.Derives .statement ts [n]
  | assignedCall {x e : Token} {ts : List Token} {n : Node} (hx : x.kind = .identifier)
      (he : e.text = "=") (h : G.Call ts n) :
      G.Derives .statement (x :: e :: ts) [.assignment (.identifier x.text) n]
  | assignment {x e : Token} {ts : List Token} {n : Node} (hx : x.kind = .identifier)
      (he : e.text = "=") (h : G.Expression .equality ts n) (ho : ¬ OpensTwice ts) :
      G.Derives .statement (x :: e :: ts) [.assignment (.identifier x.text) n]
  | call {ts : List Token} {n : Node} (h : G.Call ts n) : G.Derives .statement ts [n]
  | expression {x o : Token} {ts : List Token} {n : Node} (hx : x.kind = .identifier)
      (ho : o.kind = .operation) (h : G.Expression .equality (x :: o :: ts) n) :
      G.Derives .statement (x :: o :: ts) [n]
  | block {l r : Token} {ts : List Token} {ns : List Node} (hl : l.text = "\x7b")
      (h : G.Derives .body ts ns) (hr : r.text = "\x7d") :
      G.Derives .block (l :: (ts ++ [r])) [.block ns]
  | empty : G.Derives .body [] []
  | separator {s : Token} {ts : List Token} {ns : List Node} (hs : s.text = ";")
      (h : G.Derives .body ts ns) : G.Derives .body (s :: ts) ns
  | next {ts us : List Token} {n : Node} {ns : List Node} (h : G.Derives .statement ts [n])
      (hb : G.before n us) (hs : G.Derives .body us ns) : G.Derives .body (ts ++ us) (n :: ns)

/-! ## Programs -/

/-- The items of a program: statements that do not begin with the word `int`, and declarations that
do, with any number of semicolons before, between and behind them. -/
inductive Sequence (G : Grammar) : List Token → List Node → Prop where
  | empty : G.Sequence [] []
  | separator {s : Token} {ts : List Token} {ns : List Node} (hs : s.text = ";")
      (h : G.Sequence ts ns) : G.Sequence (s :: ts) ns
  | statement {ts us : List Token} {n : Node} {ns : List Node} (h : G.Derives .statement ts [n])
      (hi : ¬ StartsWith "int" ts) (hb : G.before n us) (hs : G.Sequence us ns) :
      G.Sequence (ts ++ us) (n :: ns)
  | declaration {tag : Token} {ts us vs : List Token} {name body : Node} {ps ns : List Node}
      (ht : tag.text = "int") (hg : Signature ts name ps) (hb : G.Derives .block us [body])
      (hs : G.Sequence vs ns) :
      G.Sequence (tag :: (ts ++ us) ++ vs) (.declaration tag.text name ps body :: ns)

/-- The items of a program as they are read.  The word `int` opens a declaration here, but not right
behind a semicolon: there it is a name like any other. -/
inductive Items (G : Grammar) : Bool → List Token → List Node → Prop where
  | empty {behind : Bool} : G.Items behind [] []
  | separator {behind : Bool} {s : Token} {ts : List Token} {ns : List Node} (hs : s.text = ";")
      (h : G.Items true ts ns) : G.Items behind (s :: ts) ns
  | statement {behind : Bool} {ts us : List Token} {n : Node} {ns : List Node}
      (h : G.Derives .statement ts [n]) (hi : behind = false → ¬ StartsWith "int" ts)
      (hb : G.before n us) (hs : G.Items false us ns) : G.Items behind (ts ++ us) (n :: ns)
  | declaration {tag : Token} {ts us vs : List Token} {name body : Node} {ps ns : List Node}
      (ht : tag.text = "int") (hg : Signature ts name ps) (hb : G.Derives .block us [body])
      (hs : G.Items false vs ns) :
      G.Items false (tag :: (ts ++ us) ++ vs) (.declaration tag.text name ps body :: ns)

/-- Programs. -/
def Composes (G : Grammar) (tokens : List Token) (program : Node) : Prop :=
  ∃ items, program = .program items ∧ G.Sequence tokens items

/-- Programs as they are read. -/
def Program (G : Grammar) (tokens : List Token) (program : Node) : Prop :=
  ∃ items, program = .program items ∧ G.Items false tokens items

end Grammar

end MiniLang
