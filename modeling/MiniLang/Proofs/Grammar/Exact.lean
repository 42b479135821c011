import Mathlib.Control.Monad.Basic
import MiniLang.Proofs.FailsAfter
import MiniLang.Proofs.Grammar.Complete
import MiniLang.Proofs.Grammar.Sequence
import MiniLang.Proofs.Grammar.Sound
import MiniLang.Proofs.Grammar.Strings
/-!
# What is parsed

Parsing the tokens of a source text gives the programs that the grammar of the language derives from
them, as long as every string of the tree is quoted (`parse_eq_ok_iff`).  Without that it gives
more: any token that is no number, no name and no opening parenthesis stands for a string where an
operand is called for (`strings_of_parse`).
-/

set_option autoImplicit false

namespace MiniLang

open Window Grammar

/-- Whether a text begins and ends with a double quote. -/
def IsQuoted (text : String) : Prop :=
  text.toList.head? = some '"' ∧ text.toList.getLast? = some '"'

instance (text : String) : Decidable (IsQuoted text) :=
  inferInstanceAs (Decidable (_ ∧ _))

/-! ## Strings and their tokens -/

namespace Token.Lexical

variable {t : Token}

theorem isQuoted (h : t.Lexical) (hk : t.kind = .string) : IsQuoted t.text := by
  unfold Token.Lexical at h
  rw [hk] at h
  unfold IsQuoted
  cases ht : t.text.toList with
  | nil => simp [ht, Kind.admits] at h
  | cons c cs =>
    simp only [ht, Kind.admits, Bool.and_eq_true, decide_eq_true_eq] at h
    obtain ⟨rfl, hlast⟩ := h
    refine ⟨rfl, ?_⟩
    rw [List.getLast?_cons, hlast]
    rfl

/-- A token whose text begins with a quote is a string. -/
theorem kind_of_quote (h : t.Lexical) (hq : t.text.toList.head? = some '"') : t.kind = .string := by
  have hk := Kind.ofText_of_admits h
  rw [← hk]
  cases ht : t.text.toList with
  | nil => simp [ht] at hq
  | cons c cs =>
    rw [ht] at hq
    cases hq
    rfl

end Token.Lexical

/-- The token of a string: any but a number, a name and an opening parenthesis. -/
def StandsFor (t : Token) (value : String) : Prop :=
  t.text = value ∧ t.kind ≠ .integer ∧ t.kind ≠ .identifier ∧ t.text ≠ "("

namespace Grammar

/-- The token of a string in a program is none that another operand or an enclosed expression begins
with. -/
theorem exists_standsFor {ts : List Token} {p : Node} (h : lenient.Program ts p)
    (hl : ∀ t ∈ ts, t.Lexical) : Covers StandsFor ts p.strings := by
  have hop : ∀ t n, lenient.operand t n →
      Covers (fun t v => t.text = v ∧ number? t.text.toList = none ∧ t.kind ≠ .identifier ∧
        t.text ≠ "(") [t] n.strings := by
    rintro t n ⟨ht, ho⟩ v hv
    rcases Token.operand_cases ho with ⟨_, -, rfl⟩ | ⟨hnone, ⟨-, rfl⟩ | ⟨hk, rfl⟩⟩
    · simp [Node.strings] at hv
    · simp [Node.strings] at hv
    · rw [Node.strings, List.mem_singleton] at hv
      exact ⟨t, by simp, hv.symm, hnone, hk, ht⟩
  intro v hv
  obtain ⟨t, htm, ht, hnone, hk, hp⟩ := h.covers hop v hv
  exact ⟨t, htm, ht, (hl t htm).number?_eq_none_iff.1 hnone, hk, hp⟩

theorem covers_of_literal {t : Token} {n : Node} (h : language.operand t n) :
    Covers (fun t v => t.kind = .string ∧ t.text = v) [t] n.strings := by
  intro v hv
  cases h with
  | integer => simp [Node.strings] at hv
  | identifier => simp [Node.strings] at hv
  | string hk =>
    rw [Node.strings, List.mem_singleton] at hv
    exact ⟨t, by simp, hk, hv.symm⟩

/-- A token stands for an operand of the language unless it stands for a string that is not
quoted. -/
theorem literal_of_lenient {t : Token} {n : Node} (hl : t.Lexical) (h : lenient.operand t n)
    (hq : ∀ v ∈ n.strings, v.toList.head? = some '"') : language.operand t n := by
  rcases Token.operand_cases h.2 with ⟨_, hv, rfl⟩ | ⟨-, ⟨hk, rfl⟩ | ⟨-, rfl⟩⟩
  · obtain ⟨hk, rfl⟩ := hl.kind_of_number? hv
    exact .integer hk
  · exact .identifier hk
  · exact .string (hl.kind_of_quote (hq _ (by simp [Node.strings])))

/-- Where every string begins with a quote, the two grammars have the same programs. -/
theorem program_of_lenient {ts : List Token} {p : Node} (h : lenient.Program ts p)
    (hl : ∀ t ∈ ts, t.Lexical) (hq : ∀ v ∈ p.strings, v.toList.head? = some '"') :
    language.Program ts p :=
  h.change (Q := fun v => v.toList.head? = some '"')
    (fun _ _ ht hn hs => literal_of_lenient ht hn hs) (fun _ _ hb => hb) hl hq

theorem readable_of_literal (t : Token) (n : Node) (ht : t.Lexical ∧ t.Fits) (h : Literal t n)
    (_ : ∀ v ∈ n.strings, True) : readable.operand t n :=
  ⟨h, Literal.operand_eq ht.1 h ht.2⟩

/-- An expression of the language is read if none of its numbers has too many digits. -/
theorem Expression.toReadable {level : Level} {ts : List Token} {n : Node}
    (h : language.Expression level ts n) (hl : ∀ t ∈ ts, t.Lexical ∧ t.Fits) :
    readable.Expression level ts n :=
  h.change readable_of_literal hl fun _ _ => trivial

/-- A program of the language is read if none of its numbers has too many digits. -/
theorem Program.toReadable {ts : List Token} {p : Node} (h : language.Program ts p)
    (hl : ∀ t ∈ ts, t.Lexical ∧ t.Fits) : readable.Program ts p :=
  Program.change (G := language) readable_of_literal (fun _ _ hb => hb) h hl fun _ _ => trivial

/-- In the language every string comes from a string token. -/
theorem exists_string {ts : List Token} {p : Node} (h : language.Program ts p) :
    ∀ v ∈ p.strings, ∃ t ∈ ts, t.kind = .string ∧ t.text = v :=
  h.covers fun _ _ hn => covers_of_literal hn

end Grammar

/-! ## Parsing the tokens of a source text -/

theorem parse_ofTokens (ts : List Token) :
    parse (.ofTokens (ts.map some)) = (facing ts).program.result := by
  rw [parse, start_ofTokens]

/-- What is parsed is derived in the lenient grammar. -/
theorem lenient_of_parse {ts : List Token} (hl : ∀ t ∈ ts, t.Lexical) {p : Node}
    (h : parse (.ofTokens (ts.map some)) = .ok p) : lenient.Program ts p := by
  rw [parse_ofTokens] at h
  cases hr : (facing ts).program with
  | fail fault w =>
    rw [hr] at h
    cases h
  | ok q w =>
    rw [hr] at h
    cases h
    exact sound_program hl hr

/-- The tokens of a source text are parsed to the programs that the grammar puts together from them,
of those whose strings are quoted.  No number has too many digits, and no `int` stands right behind
a semicolon between two items. -/
theorem parse_eq_ok_iff {source : String} {p : Node} (hq : ∀ v ∈ p.strings, IsQuoted v)
    (hs : Settled (tokenize source).tokens) (hf : ∀ t ∈ (tokenize source).tokens, t.Fits) :
    parse (.ofTokens ((tokenize source).tokens.map some)) = .ok p ↔
      language.Composes (tokenize source).tokens p := by
  have hl : ∀ t ∈ (tokenize source).tokens, t.Lexical := fun t => lexical_of_mem_tokenize
  rw [← program_iff_composes hs]
  constructor
  · intro h
    exact program_of_lenient (lenient_of_parse hl h) hl fun v hv => (hq v hv).1
  · intro h
    rw [parse_ofTokens, complete_program hl (h.toReadable fun t ht => ⟨hl t ht, hf t ht⟩)]
    rfl

/-- The word `int` opens a declaration right behind an assignment. -/
theorem parse_eq_ok_iff_of_assignment :
    let body : Node := .block [.returning (.string "\"a\"")]
    let p : Node := .program [.assignment (.identifier "x") (.integer 7),
      .declaration "int" (.identifier "f") [.identifier "a"] body]
    parse (.ofTokens ((tokenize "x = 07 int f(a) \x7b return \"a\"; \x7d").tokens.map some)) =
        .ok p ∧
      language.Composes (tokenize "x = 07 int f(a) \x7b return \"a\"; \x7d").tokens p := by
  intro body p
  have hparse : parse (.ofTokens
      ((tokenize "x = 07 int f(a) \x7b return \"a\"; \x7d").tokens.map some)) = .ok p := by
    decide +kernel
  have hsettled : Settled (tokenize "x = 07 int f(a) \x7b return \"a\"; \x7d").tokens :=
    settled_of_forall (by decide +kernel)
  have hfits : ∀ t ∈ (tokenize "x = 07 int f(a) \x7b return \"a\"; \x7d").tokens, t.Fits := by
    decide +kernel
  exact ⟨hparse, (parse_eq_ok_iff (by decide +kernel) hsettled hfits).1 hparse⟩

/-- Where a second branch could stand, `else` begins one, although it also begins declarations: what
is derived without regard to that is not always parsed. -/
theorem exists_derived_not_parsed :
    ∃ source p, (tokenize source).fault = none ∧ (∀ v ∈ p.strings, IsQuoted v) ∧
      Settled (tokenize source).tokens ∧ (∀ t ∈ (tokenize source).tokens, t.Fits) ∧
        contextFree.Composes (tokenize source).tokens p ∧
        parse (.ofTokens ((tokenize source).tokens.map some)) ≠ .ok p := by
  refine ⟨"\x7b if (c) \x7b \x7d else f() \x7b \x7d \x7d",
    .program [.block [.conditional (.identifier "c") (.block []) .absent,
      .declaration "else" (.identifier "f") [] (.block [])]], by decide +kernel, by decide +kernel,
    settled_of_forall (by decide +kernel), by decide +kernel, ?_, by decide +kernel⟩
  have htokens : (tokenize "\x7b if (c) \x7b \x7d else f() \x7b \x7d \x7d").tokens =
      [⟨.special, "\x7b", ⟨1, 1⟩⟩, ⟨.keyword, "if", ⟨1, 3⟩⟩, ⟨.special, "(", ⟨1, 6⟩⟩,
        ⟨.identifier, "c", ⟨1, 7⟩⟩, ⟨.special, ")", ⟨1, 8⟩⟩, ⟨.special, "\x7b", ⟨1, 10⟩⟩,
        ⟨.special, "\x7d", ⟨1, 12⟩⟩, ⟨.keyword, "else", ⟨1, 14⟩⟩, ⟨.identifier, "f", ⟨1, 19⟩⟩,
        ⟨.special, "(", ⟨1, 20⟩⟩, ⟨.special, ")", ⟨1, 21⟩⟩, ⟨.special, "\x7b", ⟨1, 23⟩⟩,
        ⟨.special, "\x7d", ⟨1, 25⟩⟩, ⟨.special, "\x7d", ⟨1, 27⟩⟩] := by
    decide +kernel
  rw [htokens]
  have hempty : ∀ {l r : Token}, l.text = "\x7b" → r.text = "\x7d" →
      contextFree.Derives .block [l, r] [.block []] := fun hl hr => .block hl .empty hr
  have hcondition : contextFree.Condition
      [⟨.keyword, "if", ⟨1, 3⟩⟩, ⟨.special, "(", ⟨1, 6⟩⟩, ⟨.identifier, "c", ⟨1, 7⟩⟩,
        ⟨.special, ")", ⟨1, 8⟩⟩] (.identifier "c") :=
    @Condition.mk contextFree _ _ _ [_] _ rfl rfl
      (.single (.single (.single (.single (.operand (.identifier rfl)))))) rfl
  have hconditional : contextFree.Derives .statement _ _ :=
    .conditional hcondition (hempty (l := ⟨.special, "\x7b", ⟨1, 10⟩⟩)
      (r := ⟨.special, "\x7d", ⟨1, 12⟩⟩) rfl rfl)
  have hdeclaration : contextFree.Derives .statement _ _ :=
    @Derives.declaration contextFree ⟨.keyword, "else", ⟨1, 14⟩⟩ _ _ _ _ _ (by decide)
      (.mk (t := ⟨.identifier, "f", ⟨1, 19⟩⟩) rfl
        (.none (l := ⟨.special, "(", ⟨1, 20⟩⟩) (r := ⟨.special, ")", ⟨1, 21⟩⟩) rfl rfl))
      (hempty (l := ⟨.special, "\x7b", ⟨1, 23⟩⟩) (r := ⟨.special, "\x7d", ⟨1, 25⟩⟩) rfl rfl)
  have hbody := Derives.next hconditional trivial (.next hdeclaration trivial .empty)
  have hblock := Derives.block (l := ⟨.special, "\x7b", ⟨1, 1⟩⟩)
    (r := ⟨.special, "\x7d", ⟨1, 27⟩⟩) rfl hbody rfl
  refine ⟨_, rfl, .statement (.nested hblock) ?_ trivial .empty⟩
  exact fun hs => absurd (show "\x7b" = "int" from hs) (by decide)

/-! ## The strings of a program -/

/-- What the strings of a parsed source text come from.  Each is the text of a token that is no
number, no name and no opening parenthesis; it is the text of a string token if and only if it is
quoted; and all of them are if and only if the program is one of the language. -/
theorem strings_of_parse {source : String} {p : Node} (h : parse (.ofSource source) = .ok p) :
    (∀ v ∈ p.strings, ∃ t ∈ (tokenize source).tokens, StandsFor t v) ∧
      (∀ v ∈ p.strings,
        (∃ t ∈ (tokenize source).tokens, t.kind = .string ∧ t.text = v) ↔ IsQuoted v) ∧
      ((∀ v ∈ p.strings, ∃ t ∈ (tokenize source).tokens, t.kind = .string ∧ t.text = v) ↔
        language.Program (tokenize source).tokens p) := by
  have hl : ∀ t ∈ (tokenize source).tokens, t.Lexical := fun t => lexical_of_mem_tokenize
  rw [ofSource_of_fault_eq_none (fault_of_parse_ofSource h)] at h
  have hlenient := lenient_of_parse hl h
  have hstands := exists_standsFor hlenient hl
  have hquoted : ∀ v, (∃ t ∈ (tokenize source).tokens, t.kind = .string ∧ t.text = v) →
      IsQuoted v := by
    rintro v ⟨t, ht, hk, rfl⟩
    exact (hl t ht).isQuoted hk
  refine ⟨hstands, fun v hv => ⟨hquoted v, fun hq => ?_⟩, fun hs => ?_, exists_string⟩
  · obtain ⟨t, ht, rfl, _⟩ := hstands v hv
    exact ⟨t, ht, (hl t ht).kind_of_quote hq.1, rfl⟩
  · exact program_of_lenient hlenient hl fun v hv => (hquoted v (hs v hv)).1

/-- A semicolon behind an equals sign is assigned as a string. -/
theorem strings_of_parse_of_semicolon :
    parse (.ofSource "x = ;") = .ok (.program [.assignment (.identifier "x") (.string ";")]) ∧
      ¬ language.Program (tokenize "x = ;").tokens
        (.program [.assignment (.identifier "x") (.string ";")]) := by
  have hparse :
      parse (.ofSource "x = ;") = .ok (.program [.assignment (.identifier "x") (.string ";")]) := by
    decide +kernel
  refine ⟨hparse, fun h => ?_⟩
  obtain ⟨t, ht, hk, _⟩ := (strings_of_parse hparse).2.2.2 h ";" (by decide +kernel)
  have hnone : ∀ t ∈ (tokenize "x = ;").tokens, t.kind ≠ .string := by decide +kernel
  exact hnone t ht hk

end MiniLang
