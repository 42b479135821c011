import MiniLang.SourceText
/-!
# Line ends

A text put together from its lines again has a line feed for each of its line ends, and one more if
its last line was not ended; nothing else is changed (`ofLines_lines`).
-/

set_option autoImplicit false

namespace MiniLang.SourceText

/-! ## Two changes -/

/-- A text with one line feed for each of its line ends. -/
def translate : List Char → List Char
  | [] => []
  | '\r' :: '\n' :: cs => '\n' :: translate cs
  | c :: cs => (if c = '\r' then '\n' else c) :: translate cs

/-- A text with a line feed behind its last line, if that is not ended. -/
def terminate (cs : List Char) : List Char :=
  if cs = [] ∨ cs.getLast? = some '\n' then cs else cs ++ ['\n']

theorem translate_eq_nil {cs : List Char} : translate cs = [] ↔ cs = [] := by
  fun_cases translate cs <;> simp

/-- Without carriage returns there is nothing to translate. -/
theorem translate_of_not_mem {cs : List Char} (h : '\r' ∉ cs) : translate cs = cs := by
  fun_induction translate cs with
  | case1 => rfl
  | case2 cs ih => exact absurd List.mem_cons_self h
  | case3 c cs _ ih =>
    rw [List.mem_cons, not_or] at h
    rw [if_neg (Ne.symm h.1), ih h.2]

theorem terminate_newline (cs : List Char) : terminate ('\n' :: cs) = '\n' :: terminate cs := by
  cases cs with
  | nil => rfl
  | cons c cs =>
    simp only [terminate, List.cons_ne_nil, false_or, List.getLast?_cons_cons]
    split <;> rfl

theorem terminate_cons {c : Char} (hc : c ≠ '\n') (cs : List Char) :
    terminate (c :: cs) = c :: (if cs = [] then ['\n'] else terminate cs) := by
  cases cs with
  | nil => simp [terminate, hc]
  | cons d cs =>
    simp only [terminate, List.cons_ne_nil, false_or, List.getLast?_cons_cons, if_false]
    split <;> rfl

/-! ## Lines put together -/

theorem ofLines_nil_cons (ls : List (List Char)) : ofLines ([] :: ls) = '\n' :: ofLines ls := rfl

theorem ofLines_extend (c : Char) (ls : List (List Char)) :
    ofLines (extend c ls) = c :: (if ls = [] then ['\n'] else ofLines ls) := by
  cases ls with
  | nil => rfl
  | cons line ls => rfl

theorem lines_eq_nil {cs : List Char} : lines cs = [] ↔ cs = [] := by
  have hextend : ∀ (c : Char) (ls : List (List Char)), extend c ls ≠ [] := by
    intro c ls
    cases ls <;> exact List.cons_ne_nil _ _
  fun_cases lines cs with
  | case1 => simp
  | case2 => simp
  | case3 => simp
  | case4 c cs => simp [hextend]

/-- The lines of a text, put together again. -/
theorem ofLines_lines (cs : List Char) : ofLines (lines cs) = terminate (translate cs) := by
  fun_induction lines cs with
  | case1 => rfl
  | case2 cs ih => rw [ofLines_nil_cons, ih, translate, terminate_newline]
  | case3 c cs hpair hc ih =>
    have hfeed : (if c = '\r' then '\n' else c) = '\n' := by
      rcases hc with rfl | rfl <;> rfl
    rw [ofLines_nil_cons, ih, translate, hfeed, terminate_newline]
    exact hpair
  | case4 c cs hpair hc ih =>
    rw [not_or] at hc
    rw [ofLines_extend, ih, translate, if_neg hc.1, terminate_cons hc.2]
    · simp only [lines_eq_nil, translate_eq_nil]
    · exact hpair

end MiniLang.SourceText
