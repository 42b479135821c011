import MiniLang.Proofs.Outline
/-!
# Outlines at a depth

A node hands its depth down to its parts, which stand one or two indents further in.  So the outline
of a tree at some depth is its outline at depth zero with all lines further in, and what has no
outline ends both at the same line (`Node.outline_deeper`).  A printer puts these lines below the
lines that it holds (`Printer.visit_eq`).
-/

set_option autoImplicit false

namespace MiniLang

/-! ## Further in -/

namespace Outline

open Printer

variable {depth : Int}

/-- An outline with all its lines further in. -/
def deeper (indent : String) (n : Nat) (outline : Outline) : Outline :=
  ⟨outline.lines.map (indented indent n), outline.refused⟩

/-- Indents before a line that is indented already. -/
theorem indented_add (indent : String) (n : Nat) (text : String) (h : 0 ≤ depth) :
    indented indent (n + depth) text = indented indent n (indented indent depth text) := by
  have hdepth : (n + depth).toNat = n + depth.toNat := by omega
  unfold indented
  rw [hdepth, Int.toNat_natCast, ← List.replicate_append_replicate, String.join_append,
    String.append_assoc]

theorem deeper_blank (indent : String) (n : Nat) : blank.deeper indent n = blank := rfl

theorem deeper_refuse (indent : String) (n : Nat) (what : Unrenderable) :
    (refuse what).deeper indent n = refuse what := rfl

theorem deeper_line (indent : String) (n : Nat) (text : String) (h : 0 ≤ depth) :
    (line indent depth text).deeper indent n = line indent (n + depth) text := by
  rw [line, line, deeper, indented_add indent n text h]
  rfl

/-- What ends the outline above ends both, further in or not. -/
theorem deeper_append (indent : String) (n : Nat) (above below : Outline) :
    (above ++ below).deeper indent n = above.deeper indent n ++ below.deeper indent n := by
  show (append above below).deeper indent n = append (above.deeper indent n) (below.deeper indent n)
  unfold append deeper
  cases above.refused with
  | some what => rfl
  | none => rw [List.map_append]

theorem deeper_labelled (indent : String) (n : Nat) (label : String) (empty : Option String)
    (noParts : Bool) (parts : Outline) (h : 0 ≤ depth) :
    (labelled indent depth label empty noParts parts).deeper indent n =
      labelled indent (n + depth) label empty noParts (parts.deeper indent n) := by
  have hparts : (line indent depth (label ++ ":") ++ parts).deeper indent n =
      line indent (n + depth) (label ++ ":") ++ parts.deeper indent n := by
    rw [deeper_append, deeper_line indent n _ h]
  cases noParts with
  | false => exact hparts
  | true =>
    cases empty with
    | none => exact hparts
    | some text => exact deeper_line indent n _ h

end Outline

/-! ## Trees -/

namespace Node

open Outline

variable (indent : String) (n : Nat)

mutual

/-- The outline of a tree further in. -/
theorem outline_deeper : ∀ (node : Node) (depth : Int), 0 ≤ depth →
    node.outline indent (n + depth) = (node.outline indent depth).deeper indent n
  | .identifier name, depth, h => by rw [outline, outline, deeper_line indent n _ h]
  | .integer value, depth, h => by
    rw [outline, outline]
    cases Text.ofInteger? value with
    | some text => exact (deeper_line indent n _ h).symm
    | none => rfl
  | .string value, depth, h => by rw [outline, outline, deeper_line indent n _ h]
  | .binary left operator right, depth, h => by
    have hleft := outline_deeper left (depth + 1) (by omega)
    have hright := outline_deeper right (depth + 1) (by omega)
    rw [outline, outline, Int.add_assoc, hleft, hright, deeper_append, deeper_append,
      deeper_line indent n _ h]
  | .call name arguments, depth, h => by
    have hname := outline_deeper name (depth + 1) (by omega)
    have harguments := outlineEach_deeper arguments (depth + 2) (by omega)
    rw [outline, outline, Int.add_assoc, Int.add_assoc, hname, harguments, deeper_append,
      deeper_append, deeper_line indent n _ h, deeper_labelled indent n _ _ _ _ (by omega)]
  | .assignment target value, depth, h => by
    have htarget := outline_deeper target (depth + 1) (by omega)
    have hvalue := outline_deeper value (depth + 1) (by omega)
    rw [outline, outline, Int.add_assoc, htarget, hvalue, deeper_append, deeper_append,
      deeper_line indent n _ h]
  | .block statements, depth, h => by
    have hstatements := outlineEach_deeper statements (depth + 1) (by omega)
    rw [outline, outline, Int.add_assoc, hstatements, deeper_append, deeper_line indent n _ h]
  | .declaration returnType name parameters body, depth, h => by
    have hname := outline_deeper name (depth + 2) (by omega)
    have hparameters := outlineEach_deeper parameters (depth + 2) (by omega)
    have hbody := outline_deeper body (depth + 2) (by omega)
    have hlabel : 0 ≤ depth + 1 := by omega
    rw [outline, outline, Int.add_assoc, Int.add_assoc, hname, hparameters, hbody]
    simp only [deeper_append, deeper_line indent n _ h, deeper_line indent n _ hlabel,
      deeper_labelled indent n _ _ _ _ hlabel]
  | .conditional condition thenBlock elseBlock, depth, h => by
    have hcondition := outline_deeper condition (depth + 1) (by omega)
    have hthen := outline_deeper thenBlock (depth + 2) (by omega)
    have helse := outline_deeper elseBlock (depth + 2) (by omega)
    have hlabel : 0 ≤ depth + 1 := by omega
    by_cases hnone : elseBlock = .absent
    · rw [hnone, outline, outline, Int.add_assoc, Int.add_assoc, hcondition, hthen]
      simp only [deeper_append, deeper_line indent n _ h, deeper_line indent n _ hlabel,
        deeper_blank]
    · rw [outline, outline, Int.add_assoc, Int.add_assoc, hcondition, hthen, helse]
      · simp only [deeper_append, deeper_line indent n _ h, deeper_line indent n _ hlabel]
      · exact hnone
      · exact hnone
  | .returning expression, depth, h => by
    have hexpression := outline_deeper expression (depth + 1) (by omega)
    rw [outline, outline, Int.add_assoc, hexpression, deeper_append, deeper_line indent n _ h]
  | .program [], depth, h => by rw [outline, outline, deeper_blank]
  | .program (item :: items), depth, h => by
    have hitems := outlineItems_deeper (item :: items) (depth + 1) (by omega)
    rw [outline, outline, Int.add_assoc, hitems, deeper_append, deeper_line indent n _ h]
    · simp
    · simp
  | .absent, depth, h => by rw [outline, outline, deeper_refuse]
  | .unknown kind, depth, h => by rw [outline, outline, deeper_refuse]

/-- So are the outlines of trees at one depth. -/
theorem outlineEach_deeper : ∀ (nodes : List Node) (depth : Int), 0 ≤ depth →
    outlineEach indent (n + depth) nodes = (outlineEach indent depth nodes).deeper indent n
  | [], depth, h => by rw [outlineEach, outlineEach, deeper_blank]
  | node :: nodes, depth, h => by
    have hnode := outline_deeper node depth h
    have hnodes := outlineEach_deeper nodes depth h
    rw [outlineEach, outlineEach, hnode, hnodes, deeper_append]

/-- And the items of a program. -/
theorem outlineItems_deeper : ∀ (items : List Node) (depth : Int), 0 ≤ depth →
    outlineItems indent (n + depth) items = (outlineItems indent depth items).deeper indent n
  | [], depth, h => by rw [outlineItems, outlineItems, deeper_blank]
  | item :: items, depth, h => by
    have hitem := outline_deeper item (depth + 1) (by omega)
    have hitems := outlineItems_deeper items depth h
    rw [outlineItems, outlineItems, Int.add_assoc, hitem, hitems, deeper_append, deeper_append,
      deeper_line indent n _ h]

end

end Node

/-! ## Printers -/

namespace Printer

/-- A printer adds to its lines, and leaves them as they are, the lines that a printer without lines
has of the tree at depth zero, each behind as many indents as the depth says.  It comes to an end or
to a fault as that printer does, and so to a fault about the same part behind the same lines. -/
theorem visit_eq (printer : Printer) (node : Node) (depth : Nat) :
    printer.visit node depth =
      ((visit ⟨printer.indent, []⟩ node 0).1,
        ⟨printer.indent, printer.lines ++ (visit ⟨printer.indent, []⟩ node 0).2.lines.map
          fun line => String.join (List.replicate depth printer.indent) ++ line⟩) := by
  have hdeeper := node.outline_deeper printer.indent depth 0 (Int.le_refl 0)
  rw [Int.add_zero] at hdeeper
  rw [visit_eq_add, visit_eq_add, hdeeper]
  rfl

/-- A missing part ends the outline behind the lines of the parts before it. -/
example : visit ⟨"-", ["above"]⟩ (.block [.returning (.identifier "x"), .absent]) 2 =
    (.error (.unrenderable .nothing),
      ⟨"-", ["above", "--Block:", "---ReturnStatement:", "----Identifier: x"]⟩) := by
  rfl

end Printer

end MiniLang
