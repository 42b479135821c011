import MiniLang.Phrase.Read
import MiniLang.Node.Printer
/-!
# Programs

A program is a sequence of items up to the end of the input: declarations, conditionals, blocks and
sentences, told apart by the text of their first token alone.  Reading keeps the items that it has
read also when a later one cannot be read.

`readItems_eq` is the loop as an equation; `parse` reads the program of a stream from its front.
-/

set_option autoImplicit false

namespace MiniLang

/-- The phrase that a token opens at the top level of a program.  The word `int` is an identifier,
so the words that open a declaration are told by their text. -/
def Token.topLevel (token : Token) : Phrase :=
  if token.text = "void" ∨ token.text = "int" then .declaration
  else if token.text = "if" then .conditional
  else if token.text = "\x7b" then .block
  else .sentence

/-- An item that is read takes a token. -/
theorem Token.within_run_topLevel {w : Window} {token : Token} (hc : w.current = some token) :
    (token.topLevel.run w).Within 1 w := by
  unfold Token.topLevel
  split
  · exact Phrase.within_run .declaration w
  · split
    · exact Phrase.within_run .conditional w
    · split
      · exact Phrase.within_run .block w
      · rename_i ht
        exact Phrase.within_run_sentence hc ht

/-- Items, and how their reading ended. -/
structure ItemsReading where
  items : List Node
  ending : Outcome Unit
  deriving DecidableEq, Repr

/-- Reads the items after those that have been read, up to the end of the input or a gap.  A
sentence may turn out to hold nothing but semicolons, which makes no item. -/
def readItems (items : List Node) (w : Window) : ItemsReading :=
  match _hc : w.current with
  | none => ⟨items, .ok () w⟩
  | some token =>
    match _h : token.topLevel.run w with
    | .fail fault w₁ => ⟨items, .fail fault w₁⟩
    | .ok node w₁ =>
      if node = .absent then readItems items w₁ else readItems (items ++ [node]) w₁
termination_by w.left
decreasing_by
  all_goals
    exact (Token.within_run_topLevel _hc).left_le _h

theorem readItems_eq (items : List Node) (w : Window) :
    readItems items w =
      match w.current with
      | none => ⟨items, .ok () w⟩
      | some token =>
        match token.topLevel.run w with
        | .fail fault w₁ => ⟨items, .fail fault w₁⟩
        | .ok node w₁ =>
          if node = .absent then readItems items w₁ else readItems (items ++ [node]) w₁ := by
  rw [readItems]
  split
  · rename_i hc; simp only [hc]
  · rename_i token hc
    simp only [hc]
    split
    · rename_i h; simp only [h]
    · rename_i h; simp only [h]

/-- Reading items never leaves more. -/
theorem within_readItems (items : List Node) (w : Window) :
    (readItems items w).ending.Within 0 w := by
  fun_induction readItems items w with
  | case1 items w hc => exact Nat.le_refl _
  | case2 items w token hc fault w₁ hr =>
    have h := Token.within_run_topLevel hc
    rw [hr] at h
    exact h
  | case3 items w token hc w₁ hr ih =>
    have h := (Token.within_run_topLevel hc).left_le hr
    exact ih.trans (Nat.le_of_succ_le h)
  | case4 items w token hc node w₁ hr hn ih =>
    have h := (Token.within_run_topLevel hc).left_le hr
    exact ih.trans (Nat.le_of_succ_le h)

namespace Window

/-- Reads items up to the end of the input and puts them into a program. -/
def program (w : Window) : Outcome Node :=
  let reading := readItems [] w
  reading.ending.andThen fun _ w₁ => .ok (.program reading.items) w₁

/-- Reading a program never leaves more. -/
theorem within_program (w : Window) : w.program.Within 0 w :=
  (within_readItems [] w).andThen fun _ _ => Nat.le_refl _

end Window

/-- The program of a stream, or the first fault met on the way. -/
def parse (stream : Stream) : Except Fault Node :=
  match Window.start stream with
  | .error fault => .error (.lexical fault)
  | .ok w => w.program.result

/-- The text of the outline of the program of a stream. -/
def parseAndRender (stream : Stream) : Except Fault String :=
  match parse stream with
  | .error fault => .error fault
  | .ok node => node.render

end MiniLang
