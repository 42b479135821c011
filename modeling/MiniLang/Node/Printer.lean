import MiniLang.Fault
import MiniLang.Node
/-!
# Printing trees

A printer collects lines, one for each node of a tree, with the parts of the node below it and
further in, and labels where a part needs one.  What a node cannot be printed of ends the printing:
the lines before it stand and nothing follows.

A depth is an integer number of indents.  A negative depth is written like depth zero, but the parts
of a node at depth minus two are still one deeper than the node itself.
-/

set_option autoImplicit false

namespace MiniLang

/-- A printer: the indent of one level, and the lines collected so far. -/
structure Printer where
  indent : String
  lines : List String
  deriving DecidableEq, Repr, Inhabited

/-- The heading that an item of a program stands below. -/
def Node.heading : Node → String
  | .block _ => "Block:"
  | .declaration .. => "Function:"
  | _ => "Statement:"

namespace Printer

/-! ## Lines -/

/-- A text behind as many indents as the depth says. -/
def indented (indent : String) (depth : Int) (text : String) : String :=
  String.join (List.replicate depth.toNat indent) ++ text

/-- Lines as one text, each ended by a line feed. -/
def ended (lines : List String) : String := String.join (lines.map fun line => line ++ "\n")

/-- Collects one line. -/
def emit (printer : Printer) (depth : Int) (text : String) : Except Fault Unit × Printer :=
  (.ok (), ⟨printer.indent, printer.lines ++ [indented printer.indent depth text]⟩)

/-- Ends the printing on account of something that cannot be printed. -/
def refuse (printer : Printer) (what : Unrenderable) : Except Fault Unit × Printer :=
  (.error (.unrenderable what), printer)

/-- Goes on with the printer of a printing that has not ended early. -/
def andThen (printed : Except Fault Unit × Printer)
    (go : Printer → Except Fault Unit × Printer) : Except Fault Unit × Printer :=
  match printed with
  | (.ok _, printer) => go printer
  | (.error fault, printer) => (.error fault, printer)

/-- Collects a label, and then the parts that it names.  Where there are no parts and a text for
that case, the label and the text stand on one line. -/
def labelled (printer : Printer) (label : String) (depth : Int) (empty : Option String)
    (noParts : Bool) (parts : Printer → Except Fault Unit × Printer) :
    Except Fault Unit × Printer :=
  match noParts, empty with
  | true, some text => printer.emit depth (label ++ ": " ++ text)
  | _, _ => andThen (printer.emit depth (label ++ ":")) parts

/-! ## Trees -/

mutual

/-- Prints a tree whose root stands at the given depth.  An empty program has no lines. -/
def visit (printer : Printer) (node : Node) (depth : Int) : Except Fault Unit × Printer :=
  match node with
  | .identifier name => printer.emit depth ("Identifier: " ++ name)
  | .integer value =>
    match Text.ofInteger? value with
    | some text => printer.emit depth ("IntLiteral: " ++ text)
    | none => printer.refuse .number
  | .string value => printer.emit depth ("StringLiteral: " ++ value)
  | .binary left operator right =>
    andThen (printer.emit depth ("BinaryOp: " ++ operator)) fun printer =>
      andThen (visit printer left (depth + 1)) fun printer => visit printer right (depth + 1)
  | .call name arguments =>
    andThen (printer.emit depth "FuncCall:") fun printer =>
      andThen (visit printer name (depth + 1)) fun printer =>
        printer.labelled "Parameters" (depth + 1) none arguments.isEmpty fun printer =>
          visitEach printer arguments (depth + 1 + 1)
  | .assignment target value =>
    andThen (printer.emit depth "Assignment:") fun printer =>
      andThen (visit printer target (depth + 1)) fun printer => visit printer value (depth + 1)
  | .block statements =>
    andThen (printer.emit depth "Block:") fun printer => visitEach printer statements (depth + 1)
  | .declaration returnType name parameters body =>
    andThen (printer.emit depth "FuncDeclaration:") fun printer =>
      andThen (printer.emit (depth + 1) ("Type: " ++ returnType)) fun printer =>
        andThen (printer.emit (depth + 1) "Name:") fun printer =>
          andThen (visit printer name (depth + 2)) fun printer =>
            andThen (printer.labelled "Parameters" (depth + 1) (some "()") parameters.isEmpty
                fun printer => visitEach printer parameters (depth + 1 + 1)) fun printer =>
              andThen (printer.emit (depth + 1) "Body:") fun printer =>
                visit printer body (depth + 2)
  | .conditional condition thenBlock elseBlock =>
    andThen (printer.emit depth "IfStatement:") fun printer =>
      andThen (visit printer condition (depth + 1)) fun printer =>
        andThen (printer.emit (depth + 1) "Then:") fun printer =>
          andThen (visit printer thenBlock (depth + 2)) fun printer =>
            match elseBlock with
            | .absent => (.ok (), printer)
            | elseBlock =>
              andThen (printer.emit (depth + 1) "Else:") fun printer =>
                visit printer elseBlock (depth + 2)
  | .returning expression =>
    andThen (printer.emit depth "ReturnStatement:") fun printer =>
      visit printer expression (depth + 1)
  | .program items =>
    match items with
    | [] => (.ok (), printer)
    | items =>
      andThen (printer.emit depth "Program:") fun printer => visitItems printer items (depth + 1)
  | .absent => printer.refuse .nothing
  | .unknown kind => printer.refuse (.kind kind)

/-- Prints trees at one depth, one below the other. -/
def visitEach (printer : Printer) (nodes : List Node) (depth : Int) :
    Except Fault Unit × Printer :=
  match nodes with
  | [] => (.ok (), printer)
  | node :: nodes => andThen (visit printer node depth) fun printer => visitEach printer nodes depth

/-- Prints the items of a program, each below its heading. -/
def visitItems (printer : Printer) (items : List Node) (depth : Int) :
    Except Fault Unit × Printer :=
  match items with
  | [] => (.ok (), printer)
  | item :: items =>
    andThen (printer.emit depth item.heading) fun printer =>
      andThen (visit printer item (depth + 1)) fun printer => visitItems printer items depth

end

/-- Prints a labelled list of trees. -/
def visitList (printer : Printer) (label : String) (nodes : List Node) (depth : Int)
    (empty : Option String) : Except Fault Unit × Printer :=
  printer.labelled label depth empty nodes.isEmpty fun printer =>
    visitEach printer nodes (depth + 1)

/-- Forgets the lines collected so far, prints a tree, and gives the text of its lines. -/
def render (printer : Printer) (node : Node) : Except Fault String × Printer :=
  match visit ⟨printer.indent, []⟩ node 0 with
  | (.ok _, printer) => (.ok (ended printer.lines), printer)
  | (.error fault, printer) => (.error fault, printer)

end Printer

namespace Node

/-- The indent of one level. -/
def standardIndent : String := "  "

/-- The text that a tree is printed as. -/
def render (node : Node) : Except Fault String := (Printer.render ⟨standardIndent, []⟩ node).1

end Node

end MiniLang
