import MiniLang.Node.Printer
/-!
# Outlines

The outline of a tree is what is printed of it, as a value: one line for each node, and what ended
the printing early.  To print a tree is to add its outline to the lines collected so far
(`Printer.visit_eq_add`), and adding one outline after the other adds the one below the other
(`Printer.add_append`).
-/

set_option autoImplicit false

namespace MiniLang

/-! ## Lines -/

/-- The lines of an outline, and what ended it early. -/
structure Outline where
  lines : List String
  refused : Option Unrenderable
  deriving DecidableEq, Repr, Inhabited

namespace Outline

open Printer

/-- No lines. -/
def blank : Outline := ⟨[], none⟩

/-- No lines, and none to follow, on account of something that has no outline. -/
def refuse (what : Unrenderable) : Outline := ⟨[], some what⟩

/-- One outline below the other.  Nothing follows an outline that ended early. -/
def append (above below : Outline) : Outline :=
  match above.refused with
  | some what => ⟨above.lines, some what⟩
  | none => ⟨above.lines ++ below.lines, below.refused⟩

instance : Append Outline := ⟨append⟩

/-- An outline of one line. -/
def line (indent : String) (depth : Int) (text : String) : Outline :=
  ⟨[indented indent depth text], none⟩

/-- A label, and below it the parts that it names.  Where there are no parts and a text for that
case, the label and the text stand on one line. -/
def labelled (indent : String) (depth : Int) (label : String) (empty : Option String)
    (noParts : Bool) (parts : Outline) : Outline :=
  match noParts, empty with
  | true, some text => line indent depth (label ++ ": " ++ text)
  | _, _ => line indent depth (label ++ ":") ++ parts

/-- The text of an outline, each line ended by a line feed. -/
def text (outline : Outline) : String := ended outline.lines

/-- The text of an outline that did not end early. -/
def text? (outline : Outline) : Except Fault String :=
  match outline.refused with
  | some what => .error (.unrenderable what)
  | none => .ok outline.text

end Outline

/-! ## The outline of a tree -/

namespace Node

mutual

/-- The outline of a tree whose root stands at the given depth.  An empty program has no lines. -/
def outline (indent : String) (depth : Int) : Node → Outline
  | .identifier name => .line indent depth ("Identifier: " ++ name)
  | .integer value =>
    match Text.ofInteger? value with
    | some text => .line indent depth ("IntLiteral: " ++ text)
    | none => .refuse .number
  | .string value => .line indent depth ("StringLiteral: " ++ value)
  | .binary left operator right =>
    .line indent depth ("BinaryOp: " ++ operator) ++ outline indent (depth + 1) left
      ++ outline indent (depth + 1) right
  | .call name arguments =>
    .line indent depth "FuncCall:" ++ outline indent (depth + 1) name
      ++ .labelled indent (depth + 1) "Parameters" none arguments.isEmpty
        (outlineEach indent (depth + 2) arguments)
  | .assignment target value =>
    .line indent depth "Assignment:" ++ outline indent (depth + 1) target
      ++ outline indent (depth + 1) value
  | .block statements =>
    .line indent depth "Block:" ++ outlineEach indent (depth + 1) statements
  | .declaration returnType name parameters body =>
    .line indent depth "FuncDeclaration:"
      ++ .line indent (depth + 1) ("Type: " ++ returnType)
      ++ .line indent (depth + 1) "Name:" ++ outline indent (depth + 2) name
      ++ .labelled indent (depth + 1) "Parameters" (some "()") parameters.isEmpty
        (outlineEach indent (depth + 2) parameters)
      ++ .line indent (depth + 1) "Body:" ++ outline indent (depth + 2) body
  | .conditional condition thenBlock elseBlock =>
    .line indent depth "IfStatement:" ++ outline indent (depth + 1) condition
      ++ .line indent (depth + 1) "Then:" ++ outline indent (depth + 2) thenBlock
      ++ match elseBlock with
        | .absent => .blank
        | elseBlock => .line indent (depth + 1) "Else:" ++ outline indent (depth + 2) elseBlock
  | .returning expression =>
    .line indent depth "ReturnStatement:" ++ outline indent (depth + 1) expression
  | .program items =>
    match items with
    | [] => .blank
    | items => .line indent depth "Program:" ++ outlineItems indent (depth + 1) items
  | .absent => .refuse .nothing
  | .unknown kind => .refuse (.kind kind)

/-- The outlines of trees at one depth, one below the other. -/
def outlineEach (indent : String) (depth : Int) : List Node → Outline
  | [] => .blank
  | node :: nodes => outline indent depth node ++ outlineEach indent depth nodes

/-- The items of a program, each below its heading. -/
def outlineItems (indent : String) (depth : Int) : List Node → Outline
  | [] => .blank
  | item :: items =>
    .line indent depth item.heading ++ outline indent (depth + 1) item
      ++ outlineItems indent depth items

end

/-- The outline of a labelled list of trees. -/
def outlineList (indent : String) (depth : Int) (label : String) (empty : Option String)
    (nodes : List Node) : Outline :=
  .labelled indent depth label empty nodes.isEmpty (outlineEach indent (depth + 1) nodes)

end Node

/-! ## Adding outlines -/

theorem Outline.append_assoc (o₁ o₂ o₃ : Outline) : o₁ ++ o₂ ++ o₃ = o₁ ++ (o₂ ++ o₃) := by
  show append (append o₁ o₂) o₃ = append o₁ (append o₂ o₃)
  unfold append
  cases o₁.refused with
  | some what => rfl
  | none => cases o₂.refused <;> simp

/-- Two outlines, one below the other, come to their end if both do. -/
theorem Outline.refused_append_eq_none {above below : Outline} :
    (above ++ below).refused = none ↔ above.refused = none ∧ below.refused = none := by
  show (append above below).refused = none ↔ _
  unfold append
  cases above.refused with
  | some what => simp
  | none => simp

theorem Outline.refused_of_labelled {indent : String} {depth : Int} {label : String}
    {empty : Option String} {nodes : List Node} {deeper : Int}
    (h : (labelled indent depth label empty nodes.isEmpty
      (Node.outlineEach indent deeper nodes)).refused = none) :
    (Node.outlineEach indent deeper nodes).refused = none := by
  cases nodes with
  | nil => rw [Node.outlineEach]; rfl
  | cons n nodes => exact (refused_append_eq_none.1 h).2

namespace Printer

/-- What a printer comes to when an outline is added to its lines. -/
def add (printer : Printer) (outline : Outline) : Except Fault Unit × Printer :=
  (match outline.refused with
    | some what => .error (.unrenderable what)
    | none => .ok (),
   ⟨printer.indent, printer.lines ++ outline.lines⟩)

/-- To add one outline below the other is to add one after the other. -/
theorem add_append (printer : Printer) (above below : Outline) :
    printer.add (above ++ below) =
      andThen (printer.add above) fun printer => printer.add below := by
  show printer.add (above.append below) = _
  unfold add Outline.append andThen
  cases above.refused with
  | some what => rfl
  | none => simp only [List.append_assoc]

/-- What adds an outline to the lines of every printer with a given indent. -/
def Adds (indent : String) (print : Printer → Except Fault Unit × Printer) (outline : Outline) :
    Prop :=
  ∀ printer : Printer, printer.indent = indent → print printer = printer.add outline

section Adds

variable {indent : String} {print go : Printer → Except Fault Unit × Printer}
  {above below : Outline}

theorem adds_nothing : Adds indent (fun printer => (.ok (), printer)) .blank := by
  intro printer _
  rw [add, Outline.blank, List.append_nil]

theorem adds_refuse (what : Unrenderable) :
    Adds indent (fun printer => printer.refuse what) (.refuse what) := by
  intro printer _
  rw [add, Outline.refuse, List.append_nil]
  rfl

theorem adds_emit (depth : Int) (text : String) :
    Adds indent (fun printer => printer.emit depth text) (.line indent depth text) := by
  rintro printer rfl
  rfl

/-- What goes on adds its outline below. -/
theorem Adds.andThen (h : Adds indent print above) (hgo : Adds indent go below) :
    Adds indent (fun printer => Printer.andThen (print printer) go) (above ++ below) := by
  intro printer hp
  simp only [add_append, h printer hp]
  unfold add Printer.andThen
  cases above.refused with
  | some what => rfl
  | none => exact hgo _ hp

theorem adds_labelled (label : String) (depth : Int) (empty : Option String) (noParts : Bool)
    (h : Adds indent go below) :
    Adds indent (fun printer => printer.labelled label depth empty noParts go)
      (.labelled indent depth label empty noParts below) := by
  have hparts : Adds indent _ (.line indent depth (label ++ ":") ++ below) :=
    (adds_emit depth (label ++ ":")).andThen h
  cases noParts with
  | false => exact hparts
  | true =>
    cases empty with
    | none => exact hparts
    | some text => exact adds_emit depth (label ++ ": " ++ text)

end Adds

open Node

variable (indent : String)

mutual

/-- To print a tree is to add its outline. -/
theorem adds_visit : ∀ (node : Node) (depth : Int),
    Adds indent (fun printer => printer.visit node depth) (node.outline indent depth)
  | .identifier name, depth => by
    simp only [visit, outline]
    exact adds_emit depth _
  | .integer value, depth => by
    simp only [visit, outline]
    cases Text.ofInteger? value with
    | some text => exact adds_emit depth _
    | none => exact adds_refuse .number
  | .string value, depth => by
    simp only [visit, outline]
    exact adds_emit depth _
  | .binary left operator right, depth => by
    simp only [visit, outline, Outline.append_assoc]
    exact (adds_emit depth _).andThen
      ((adds_visit left (depth + 1)).andThen (adds_visit right (depth + 1)))
  | .call name arguments, depth => by
    simp only [visit, outline, Outline.append_assoc, Int.add_assoc]
    exact (adds_emit depth _).andThen ((adds_visit name (depth + 1)).andThen
      (adds_labelled _ _ _ _ (adds_visitEach arguments (depth + 2))))
  | .assignment target value, depth => by
    simp only [visit, outline, Outline.append_assoc]
    exact (adds_emit depth _).andThen
      ((adds_visit target (depth + 1)).andThen (adds_visit value (depth + 1)))
  | .block statements, depth => by
    simp only [visit, outline]
    exact (adds_emit depth _).andThen (adds_visitEach statements (depth + 1))
  | .declaration returnType name parameters body, depth => by
    simp only [visit, outline, Outline.append_assoc, Int.add_assoc]
    exact (adds_emit depth _).andThen ((adds_emit _ _).andThen ((adds_emit _ _).andThen
      ((adds_visit name (depth + 2)).andThen
        ((adds_labelled _ _ _ _ (adds_visitEach parameters (depth + 2))).andThen
          ((adds_emit _ _).andThen (adds_visit body (depth + 2)))))))
  | .conditional condition thenBlock elseBlock, depth => by
    have hthen := adds_visit thenBlock (depth + 2)
    have helse : Adds indent _
        (.line indent (depth + 1) "Else:" ++ outline indent (depth + 2) elseBlock) :=
      (adds_emit (depth + 1) "Else:").andThen (adds_visit elseBlock (depth + 2))
    by_cases hnone : elseBlock = .absent
    · simp only [hnone, visit, outline, Outline.append_assoc]
      exact (adds_emit depth _).andThen ((adds_visit condition (depth + 1)).andThen
        ((adds_emit _ _).andThen (hthen.andThen adds_nothing)))
    · simp only [visit, outline, Outline.append_assoc]
      exact (adds_emit depth _).andThen ((adds_visit condition (depth + 1)).andThen
        ((adds_emit _ _).andThen (hthen.andThen helse)))
  | .returning expression, depth => by
    simp only [visit, outline]
    exact (adds_emit depth _).andThen (adds_visit expression (depth + 1))
  | .program [], depth => by
    simp only [visit, outline]
    exact adds_nothing
  | .program (item :: items), depth => by
    simp only [visit, outline]
    exact (adds_emit depth _).andThen (adds_visitItems (item :: items) (depth + 1))
  | .absent, depth => by
    simp only [visit, outline]
    exact adds_refuse .nothing
  | .unknown kind, depth => by
    simp only [visit, outline]
    exact adds_refuse (.kind kind)

/-- So is to print trees at one depth. -/
theorem adds_visitEach : ∀ (nodes : List Node) (depth : Int),
    Adds indent (fun printer => printer.visitEach nodes depth) (outlineEach indent depth nodes)
  | [], depth => by
    simp only [visitEach, outlineEach]
    exact adds_nothing
  | node :: nodes, depth => by
    simp only [visitEach, outlineEach]
    exact (adds_visit node depth).andThen (adds_visitEach nodes depth)

/-- And to print the items of a program. -/
theorem adds_visitItems : ∀ (items : List Node) (depth : Int),
    Adds indent (fun printer => printer.visitItems items depth) (outlineItems indent depth items)
  | [], depth => by
    simp only [visitItems, outlineItems]
    exact adds_nothing
  | item :: items, depth => by
    simp only [visitItems, outlineItems, Outline.append_assoc]
    exact (adds_emit depth _).andThen
      ((adds_visit item (depth + 1)).andThen (adds_visitItems items depth))

end

variable {indent}

theorem visit_eq_add (printer : Printer) (node : Node) (depth : Int) :
    printer.visit node depth = printer.add (node.outline printer.indent depth) :=
  adds_visit printer.indent node depth printer rfl

/-- To print a labelled list is to add its outline. -/
theorem visitList_eq_add (printer : Printer) (label : String) (nodes : List Node) (depth : Int)
    (empty : Option String) :
    printer.visitList label nodes depth empty =
      printer.add (outlineList printer.indent depth label empty nodes) :=
  adds_labelled label depth empty _ (adds_visitEach printer.indent nodes (depth + 1)) printer rfl

end Printer

/-- The text that a tree is printed as is the text of its outline. -/
theorem Node.render_eq (node : Node) : node.render = (node.outline standardIndent 0).text? := by
  rw [render, Printer.render, Printer.visit_eq_add]
  unfold Printer.add Outline.text?
  cases (node.outline standardIndent 0).refused <;> rfl

end MiniLang
