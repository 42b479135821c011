import MiniLang.Proofs.Numbers
import MiniLang.Proofs.Renaming
/-!
# Kinds told by texts

The reader of a program tells tokens by their texts, mostly.  No harm comes of that where the tokens
are those of source texts: what the text of such a token is says what its kind is
(`kind_told_by_text`), whatever stands in its literals.
-/

set_option autoImplicit false

namespace MiniLang

namespace Token.Lexical

variable {token : Token}

theorem text_of_comparison (h : token.Lexical) (hk : token.kind = .comparison) :
    token.text ∈ ["==", "!=", "<=", ">="] := by
  unfold Token.Lexical at h
  rw [hk] at h
  match ht : token.text.toList, h with
  | [c, d], h =>
    simp only [Kind.admits, isComparisonStart, List.contains_eq_mem, List.mem_cons,
      List.not_mem_nil, or_false, Bool.and_eq_true, decide_eq_true_eq] at h
    obtain ⟨hc, rfl⟩ := h
    rw [show token.text = String.ofList [c, '='] by rw [← ht, String.ofList_toList]]
    rcases hc with rfl | rfl | rfl | rfl <;> decide

/-- Of the texts that are compared, no string has one, and no name but the word `int`. -/
theorem kind_of_compared (h : token.Lexical) (ht : token.text ∈ comparedTexts) :
    token.kind ≠ .string ∧ (token.kind = .identifier ↔ token.text = "int") := by
  have hkinds : ∀ text ∈ comparedTexts, Kind.ofText text.toList ≠ .string ∧
      (Kind.ofText text.toList = .identifier ↔ text = "int") := by decide
  rw [h.kind_of_text rfl]
  exact hkinds token.text ht

/-- The tokens of three kinds are the operators. -/
theorem text_mem_binaryOperators_iff (h : token.Lexical) :
    token.text ∈ binaryOperators ↔
      token.kind = .operation ∨ token.kind = .comparison ∨ token.kind = .assign := by
  constructor
  · intro ht
    have hkinds : ∀ text ∈ binaryOperators, Kind.ofText text.toList = .operation ∨
        Kind.ofText text.toList = .comparison ∨ Kind.ofText text.toList = .assign := by decide
    rw [h.kind_of_text rfl]
    exact hkinds token.text ht
  · rintro (hk | hk | hk)
    · have hoperations : ∀ text ∈ ["-", "+", "*", "/", "%", "<", ">"],
          text ∈ binaryOperators := by decide
      exact hoperations _ (h.text_of_operation hk)
    · have hcomparisons : ∀ text ∈ ["==", "!=", "<=", ">="], text ∈ binaryOperators := by decide
      exact hcomparisons _ (h.text_of_comparison hk)
    · rw [h.text_of_assign hk]
      decide

end Token.Lexical

/-- Tokens of source texts that have the same text have the same kind.  No string has a text that
the reader compares with, and no name has one but the word `int`, which is always a name; the
operators are the tokens of three kinds, and the numbers are those of one.  No other texts are
compared: a change of texts that keeps these apart from all others and the numbers as they are is a
change of the program that is read, or of the token that the fault names, and of nothing else. -/
theorem kind_told_by_text :
    (∀ (source source' : String) (t t' : Token), t ∈ (tokenize source).tokens →
      t' ∈ (tokenize source').tokens → t.text = t'.text → t.kind = t'.kind) ∧
    (∀ (source : String) (t : Token), t ∈ (tokenize source).tokens →
      (t.text ∈ comparedTexts → t.kind ≠ .string ∧ (t.kind = .identifier ↔ t.text = "int")) ∧
      (t.text ∈ binaryOperators ↔
        t.kind = .operation ∨ t.kind = .comparison ∨ t.kind = .assign) ∧
      (isDecimal t.text.toList = true ↔ t.kind = .integer) ∧
      ((integer? t.text.toList).isSome ↔ t.kind = .integer)) ∧
    ∀ (ρ : Renaming) (stream : Stream),
      parse (ρ.stream stream) = ((parse stream).map ρ.node).mapError ρ.fault := by
  refine ⟨fun source source' t t' ht ht' htext => ?_, fun source t ht => ?_,
    fun ρ stream => ρ.parse_stream stream⟩
  · have hadmits := lexical_of_mem_tokenize ht
    unfold Token.Lexical at hadmits
    rw [htext] at hadmits
    exact Kind.admits_unique hadmits (lexical_of_mem_tokenize ht')
  · have hlexical := lexical_of_mem_tokenize ht
    exact ⟨hlexical.kind_of_compared, hlexical.text_mem_binaryOperators_iff,
      hlexical.isDecimal_iff, hlexical.isSome_integer?_iff⟩

/-- One name becomes another one. -/
def Renaming.merging : Renaming where
  text y := if y = "x" then "y" else y
  compared := by
    have hnames : "x" ∉ comparedTexts ∧ "y" ∉ comparedTexts := by decide
    intro text htext y
    split
    · rename_i h
      subst h
      exact iff_of_false (fun h => hnames.2 (h ▸ htext)) (fun h => hnames.1 (h ▸ htext))
    · rfl
  number := by
    have hnames : number? "y".toList = number? "x".toList := by decide
    intro y
    split
    · rename_i h
      rw [h, hnames]
    · rfl

/-- A literal that holds an operator is none, the word `int` is a name, and a number is told by its
sign and its digits. -/
theorem kind_told_by_text_of_literal :
    let equality : Token := ⟨.comparison, "==", ⟨1, 3⟩⟩
    let literal : Token := ⟨.string, "\"==\"", ⟨1, 6⟩⟩
    let tag : Token := ⟨.identifier, "int", ⟨1, 1⟩⟩
    let equality' : Token := ⟨.comparison, "==", ⟨2, 1⟩⟩
    let number : Token := ⟨.integer, "-1", ⟨2, 4⟩⟩
    tokenize "x == \"==\"" = ⟨[⟨.identifier, "x", ⟨1, 1⟩⟩, equality, literal], none⟩ ∧
      tokenize "int\n== -1" = ⟨[tag, equality', number], none⟩ ∧
      equality.kind = equality'.kind ∧ literal.text ∉ comparedTexts ∧ tag.kind ≠ .string ∧
      equality.text ∈ binaryOperators ∧ isDecimal number.text.toList = true ∧
      parse (Renaming.merging.stream (.ofSource "x = y * 2;")) =
        .ok (.program [.assignment (.identifier "y")
          (.binary (.identifier "y") "*" (.integer 2))]) := by
  intro equality literal tag equality' number
  have hsource : tokenize "x == \"==\"" =
      ⟨[⟨.identifier, "x", ⟨1, 1⟩⟩, equality, literal], none⟩ := by decide +kernel
  have hsource' : tokenize "int\n== -1" = ⟨[tag, equality', number], none⟩ := by decide +kernel
  have hequality : equality ∈ (tokenize "x == \"==\"").tokens := by simp [hsource]
  have hliteral : literal ∈ (tokenize "x == \"==\"").tokens := by simp [hsource]
  have htag : tag ∈ (tokenize "int\n== -1").tokens := by simp [hsource']
  have hequality' : equality' ∈ (tokenize "int\n== -1").tokens := by simp [hsource']
  have hnumber : number ∈ (tokenize "int\n== -1").tokens := by simp [hsource']
  have hparse : parse (.ofSource "x = y * 2;") =
      .ok (.program [.assignment (.identifier "x")
        (.binary (.identifier "y") "*" (.integer 2))]) := by decide +kernel
  obtain ⟨hkind, htext, hrenaming⟩ := kind_told_by_text
  refine ⟨hsource, hsource', hkind _ _ _ _ hequality hequality' rfl, fun hcompared => ?_, ?_, ?_,
    ?_, ?_⟩
  · exact ((htext _ _ hliteral).1 hcompared).1 rfl
  · exact ((htext _ _ htag).1 (by decide)).1
  · exact (htext _ _ hequality).2.1.2 (.inr (.inl rfl))
  · exact (htext _ _ hnumber).2.2.1.2 rfl
  · rw [hrenaming, hparse]
    rfl

end MiniLang
