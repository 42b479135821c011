import MiniLang.Lexeme.Escape
/-!
# Lexemes

The rules that say what may stand at a place of a source text.  A rule takes a non-empty piece off
the front of the text or does not apply.  The rules are tried in a fixed order and the first that
applies is used; `Rule.append_of_split?` says that a rule takes its piece off the front of the text
and nothing else, `Rule.length_of_first?` that less text is left.
-/

set_option autoImplicit false

namespace MiniLang

/-! ## Character classes -/

/-- Blanks stand between lexemes and mean nothing. -/
def isBlank (c : Char) : Bool := c = ' ' || c = '\t' || c = '\r'

/-- An ASCII letter, an underscore or a dollar sign. -/
def isNameStart (c : Char) : Bool := c.isAlpha || c = '_' || c = '$'

/-- A character that a name goes on with. -/
def isNamePart (c : Char) : Bool := isNameStart c || c.isDigit

/-- The words that are no names. -/
def keywords : List String := ["var", "void", "if", "else", "return"]

/-- The operators of one character, the bare equals sign aside. -/
def isOperation (c : Char) : Bool := ['-', '+', '*', '/', '%', '<', '>'].contains c

/-- The punctuation marks. -/
def isSpecial (c : Char) : Bool := [',', '\x7b', '\x7d', '(', ')', ';'].contains c

/-- The first characters of the operators of two characters, which all end in an equals sign. -/
def isComparisonStart (c : Char) : Bool := ['=', '!', '<', '>'].contains c

/-! ## Pieces -/

/-- A piece taken off the front of a text, and the text that is left. -/
abbrev Split : Type := List Char × List Char

/-- A character of one class. -/
def splitOne (p : Char → Bool) : List Char → Option Split
  | [] => none
  | c :: cs => if p c then some ([c], cs) else none

/-- A character of one class and as many of another as follow. -/
def splitRun (first more : Char → Bool) : List Char → Option Split
  | [] => none
  | c :: cs => if first c then some (c :: cs.takeWhile more, cs.dropWhile more) else none

/-- A given word. -/
def splitWord : List Char → List Char → Option Split
  | [], cs => some ([], cs)
  | _ :: _, [] => none
  | w :: word, c :: cs =>
    if w = c then
      match splitWord word cs with
      | some (piece, rest) => some (c :: piece, rest)
      | none => none
    else none

/-- A given word that no name character follows. -/
def splitWholeWord (word cs : List Char) : Option Split :=
  match splitWord word cs with
  | some (piece, []) => some (piece, [])
  | some (piece, c :: rest) => if isNamePart c then none else some (piece, c :: rest)
  | none => none

/-- Digits, after a minus sign or none. -/
def splitInteger : List Char → Option Split
  | [] => none
  | c :: cs =>
    if c = '-' then
      match splitRun Char.isDigit Char.isDigit cs with
      | some (digits, rest) => some (c :: digits, rest)
      | none => none
    else splitRun Char.isDigit Char.isDigit (c :: cs)

/-- The text up to and with the quote that closes a string literal.  A backslash takes the character
that follows it along. -/
def splitQuoted : List Char → Option Split
  | [] => none
  | [c] => if c = '"' then some ([c], []) else none
  | c :: d :: rest =>
    if c = '"' then some ([c], d :: rest)
    else if c = '\\' then
      match splitQuoted rest with
      | some (piece, left) => some (c :: d :: piece, left)
      | none => none
    else
      match splitQuoted (d :: rest) with
      | some (piece, left) => some (c :: piece, left)
      | none => none

/-- A string literal: a quote, and the text up to the quote that closes it. -/
def splitString : List Char → Option Split
  | [] => none
  | c :: cs =>
    if c = '"' then
      match splitQuoted cs with
      | some (piece, rest) => some (c :: piece, rest)
      | none => none
    else none

/-- An operator of two characters. -/
def splitComparison : List Char → Option Split
  | c :: d :: rest => if isComparisonStart c ∧ d = '=' then some ([c, d], rest) else none
  | _ => none

/-! ## Rules -/

/-- What may stand at a place of a source text, blanks aside. -/
inductive Rule where
  | keyword
  | identifier
  | integer
  | newlines
  | string
  | comparison
  | operation
  | special
  | assign
  deriving DecidableEq, Repr

namespace Rule

/-- The rules in the order in which they are tried. -/
def order : List Rule :=
  [.keyword, .identifier, .integer, .newlines, .string, .comparison, .operation, .special, .assign]

/-- The piece that a rule takes off the front of a text, and the text that is left. -/
def split? (rule : Rule) (cs : List Char) : Option Split :=
  match rule with
  | .keyword => keywords.findSome? fun word => splitWholeWord word.toList cs
  | .identifier => splitRun isNameStart isNamePart cs
  | .integer => splitInteger cs
  | .newlines => splitRun (· = '\n') (· = '\n') cs
  | .string => splitString cs
  | .comparison => splitComparison cs
  | .operation => splitOne isOperation cs
  | .special => splitOne isSpecial cs
  | .assign => splitOne (· = '=') cs

/-- The kind of the tokens that a rule makes.  Line breaks make none. -/
def kind? (rule : Rule) : Option Kind :=
  match rule with
  | .keyword => some .keyword
  | .identifier => some .identifier
  | .integer => some .integer
  | .newlines => none
  | .string => some .string
  | .comparison => some .comparison
  | .operation => some .operation
  | .special => some .special
  | .assign => some .assign

/-- The first rule that applies at the front of a text, with the piece that it takes and the text
that is left. -/
def first? (cs : List Char) : Option (Rule × Split) :=
  order.findSome? fun rule => (rule.split? cs).map fun split => (rule, split)

end Rule

/-! ## A rule takes a piece off the front -/

theorem append_of_splitOne {p : Char → Bool} {cs piece rest : List Char}
    (h : splitOne p cs = some (piece, rest)) : piece ++ rest = cs ∧ piece ≠ [] := by
  cases cs with
  | nil => simp [splitOne] at h
  | cons c cs =>
    simp only [splitOne] at h
    split at h
    · cases h; simp
    · simp at h

theorem append_of_splitRun {first more : Char → Bool} {cs piece rest : List Char}
    (h : splitRun first more cs = some (piece, rest)) : piece ++ rest = cs ∧ piece ≠ [] := by
  cases cs with
  | nil => simp [splitRun] at h
  | cons c cs =>
    simp only [splitRun] at h
    split at h
    · cases h; simp [List.takeWhile_append_dropWhile]
    · simp at h

theorem append_of_splitWord {word cs piece rest : List Char}
    (h : splitWord word cs = some (piece, rest)) : piece ++ rest = cs ∧ piece = word := by
  induction word generalizing cs piece rest with
  | nil => simp only [splitWord] at h; cases h; simp
  | cons w word ih =>
    cases cs with
    | nil => simp [splitWord] at h
    | cons c cs =>
      simp only [splitWord] at h
      split at h
      · rename_i hc
        split at h
        · rename_i hs
          cases h
          obtain ⟨h₁, h₂⟩ := ih hs
          exact ⟨by rw [List.cons_append, h₁], by rw [h₂, hc]⟩
        · simp at h
      · simp at h

theorem append_of_splitWholeWord {word cs piece rest : List Char}
    (h : splitWholeWord word cs = some (piece, rest)) : piece ++ rest = cs ∧ piece = word := by
  unfold splitWholeWord at h
  split at h
  · rename_i hs; cases h; exact append_of_splitWord hs
  · rename_i hs
    split at h
    · simp at h
    · cases h; exact append_of_splitWord hs
  · simp at h

theorem append_of_splitInteger {cs piece rest : List Char}
    (h : splitInteger cs = some (piece, rest)) : piece ++ rest = cs ∧ piece ≠ [] := by
  cases cs with
  | nil => simp [splitInteger] at h
  | cons c cs =>
    simp only [splitInteger] at h
    split at h
    · split at h
      · rename_i hs
        cases h
        exact ⟨by rw [List.cons_append, (append_of_splitRun hs).1], by simp⟩
      · simp at h
    · exact append_of_splitRun h

theorem append_of_splitQuoted {cs piece rest : List Char}
    (h : splitQuoted cs = some (piece, rest)) : piece ++ rest = cs := by
  fun_induction splitQuoted cs generalizing piece rest with
  | case1 => simp at h
  | case2 => cases h; rfl
  | case3 => simp at h
  | case4 => cases h; rfl
  | case5 d more _ _ hs _ ih => cases h; simp [ih hs]
  | case6 => simp at h
  | case7 c d more _ _ piece₁ left hs ih => cases h; simp [ih hs]
  | case8 => simp at h

theorem append_of_splitString {cs piece rest : List Char}
    (h : splitString cs = some (piece, rest)) : piece ++ rest = cs ∧ piece ≠ [] := by
  cases cs with
  | nil => simp [splitString] at h
  | cons c cs =>
    simp only [splitString] at h
    split at h
    · split at h
      · rename_i hs
        cases h
        exact ⟨by rw [List.cons_append, append_of_splitQuoted hs], by simp⟩
      · simp at h
    · simp at h

theorem append_of_splitComparison {cs piece rest : List Char}
    (h : splitComparison cs = some (piece, rest)) : piece ++ rest = cs ∧ piece ≠ [] := by
  unfold splitComparison at h
  split at h
  · split at h
    · cases h; simp
    · simp at h
  · simp at h

/-- A rule takes a non-empty piece off the front of a text and leaves all else. -/
theorem Rule.append_of_split? {rule : Rule} {cs piece rest : List Char}
    (h : rule.split? cs = some (piece, rest)) : piece ++ rest = cs ∧ piece ≠ [] := by
  cases rule with
  | keyword =>
    obtain ⟨word, hw, hs⟩ := List.exists_of_findSome?_eq_some h
    obtain ⟨h₁, h₂⟩ := append_of_splitWholeWord hs
    refine ⟨h₁, ?_⟩
    simp only [keywords, List.mem_cons, List.not_mem_nil, or_false] at hw
    rcases hw with rfl | rfl | rfl | rfl | rfl <;> simp [h₂]
  | identifier => exact append_of_splitRun h
  | integer => exact append_of_splitInteger h
  | newlines => exact append_of_splitRun h
  | string => exact append_of_splitString h
  | comparison => exact append_of_splitComparison h
  | operation => exact append_of_splitOne h
  | special => exact append_of_splitOne h
  | assign => exact append_of_splitOne h

/-- The first rule that applies is a rule that applies. -/
theorem Rule.split?_of_first? {cs : List Char} {rule : Rule} {split : Split}
    (h : Rule.first? cs = some (rule, split)) : rule.split? cs = some split := by
  obtain ⟨r, _, hr⟩ := List.exists_of_findSome?_eq_some h
  obtain ⟨s, hs, heq⟩ := Option.map_eq_some_iff.1 hr
  cases heq
  exact hs

/-- After the first rule that applies, less text is left. -/
theorem Rule.length_of_first? {cs piece rest : List Char} {rule : Rule}
    (h : Rule.first? cs = some (rule, (piece, rest))) : rest.length < cs.length := by
  obtain ⟨h₁, h₂⟩ := Rule.append_of_split? (Rule.split?_of_first? h)
  have hpos : 0 < piece.length := List.length_pos_iff.mpr h₂
  rw [← h₁, List.length_append]
  omega

end MiniLang
