import MiniLang.Proofs.Grammar.WellFormed
import MiniLang.Proofs.Lines
import MiniLang.Proofs.Outline.Determined
/-!
# Outlines of parsed source texts

Only a string literal can have a line break in the tree of a source text, and it is written with it.
So two source texts with different trees can have the same outline, where a literal goes on, behind
a quote and a line break, with what looks like another line.  `eq_or_mimics_of_parse` says that
nothing else is in the way.
-/

set_option autoImplicit false

namespace MiniLang

open Node Outline

/-! ## Tokens with line breaks -/

namespace Token.Lexical

variable {t : Token}

/-- A text that a kind admits, unless it is a literal, is accepted by the rule of the kind. -/
theorem exists_accepts (h : t.Lexical) (hk : t.kind ≠ .string) :
    ∃ rule : Rule, rule ≠ .string ∧ rule ≠ .newlines ∧ rule.accepts t.text.toList = true := by
  unfold Token.Lexical at h
  generalize t.text.toList = text at h
  cases ht : t.kind with
  | keyword => exact ⟨.keyword, by simp, by simp, by rwa [ht] at h⟩
  | integer => exact ⟨.integer, by simp, by simp, by rwa [ht] at h⟩
  | string => exact absurd ht hk
  | identifier =>
    refine ⟨.identifier, by simp, by simp, ?_⟩
    match text, ht ▸ h with
    | c :: cs, h => exact (Bool.and_eq_true_iff.1 h).1
  | operation =>
    refine ⟨.operation, by simp, by simp, ?_⟩
    match text, ht ▸ h with
    | [c], h => exact h
  | comparison =>
    refine ⟨.comparison, by simp, by simp, ?_⟩
    match text, ht ▸ h with
    | [c, d], h => exact h
  | assign =>
    refine ⟨.assign, by simp, by simp, ?_⟩
    match text, ht ▸ h with
    | [c], h => exact h
  | special =>
    refine ⟨.special, by simp, by simp, ?_⟩
    match text, ht ▸ h with
    | [c], h => exact h
  | other name =>
    rw [ht] at h
    simp [Kind.admits] at h

/-- A token with a line break is a string literal. -/
theorem kind_of_newline (h : t.Lexical) (hn : '\n' ∈ t.text.toList) : t.kind = .string := by
  by_contra hk
  obtain ⟨rule, hs, hnew, haccepts⟩ := h.exists_accepts hk
  exact (ne_of_accepts haccepts hs hnew _ hn).2 rfl

theorem text_ne_nil (h : t.Lexical) : t.text.toList ≠ [] := by
  intro hnil
  unfold Token.Lexical at h
  rw [hnil] at h
  cases hk : t.kind <;> simp [hk, Kind.admits, isKeyword, keywords, isDecimal] at h

end Token.Lexical

/-! ## Trees of source texts -/

namespace Vocabulary

variable {V : Vocabulary} {n : Node}

/-- The words of a vocabulary. -/
def Word (V : Vocabulary) (text : String) : Prop :=
  V.name text ∨ V.operator text ∨ V.tag text ∨ V.itemTag text

theorem words_each {nodes : List Node} (h : ∀ n ∈ nodes, ∀ text ∈ n.words, V.Word text) :
    ∀ text ∈ wordsEach nodes, V.Word text := by
  induction nodes with
  | nil => simp [wordsEach]
  | cons n nodes ih =>
    obtain ⟨hn, hnodes⟩ := List.forall_mem_cons.1 h
    exact List.forall_mem_append.2 ⟨hn, ih hnodes⟩

theorem Expression.words (h : V.Expression n) : ∀ text ∈ n.words, V.Word text := by
  induction h with
  | identifier h => simpa [Node.words] using .inl h
  | integer => simp [Node.words]
  | string => simp [Node.words]
  | binary _ ho _ ihl ihr =>
    exact List.forall_mem_cons.2 ⟨.inr (.inl ho), List.forall_mem_append.2 ⟨ihl, ihr⟩⟩

theorem Call.words (h : V.Call n) : ∀ text ∈ n.words, V.Word text := by
  cases h with
  | mk hn ha =>
    exact List.forall_mem_append.2 ⟨hn.expression.words, words_each fun a h => (ha a h).words⟩

theorem words_declaration {tag : String} {name body : Node} {parameters : List Node}
    (ht : V.Word tag) (hn : V.Name name) (hp : ∀ p ∈ parameters, V.Name p)
    (hb : ∀ text ∈ body.words, V.Word text) :
    ∀ text ∈ (Node.declaration tag name parameters body).words, V.Word text := by
  refine List.forall_mem_cons.2 ⟨ht, List.forall_mem_append.2 ⟨hn.expression.words, ?_⟩⟩
  exact List.forall_mem_append.2 ⟨words_each fun p h => (hp p h).expression.words, hb⟩

theorem Statement.words (h : V.Statement n) : ∀ text ∈ n.words, V.Word text := by
  induction h with
  | expression h => exact h.words
  | call h => exact h.words
  | assignment ht hv =>
    exact List.forall_mem_append.2 ⟨ht.expression.words, hv.elim (·.words) (·.words)⟩
  | returning h => exact h.words
  | block _ ih => exact words_each ih
  | conditional hc _ iht =>
    refine List.forall_mem_append.2 ⟨hc.words, List.forall_mem_append.2 ⟨iht, ?_⟩⟩
    simp [Node.words]
  | alternative hc _ _ iht ihu =>
    exact List.forall_mem_append.2 ⟨hc.words, List.forall_mem_append.2 ⟨iht, ihu⟩⟩
  | declaration ht hn hp _ ihb => exact words_declaration (.inr (.inr (.inl ht))) hn hp ihb

theorem Item.words (h : V.Item n) : ∀ text ∈ n.words, V.Word text := by
  cases h with
  | statement h => exact h.words
  | declaration ht hn hp hb => exact words_declaration (.inr (.inr (.inr ht))) hn hp hb.words

/-- No word of a source text has a line break. -/
theorem newline_not_mem_of_word {text : String} (h : language.Word text) : '\n' ∉ text.toList := by
  have hlists : ∀ text ∈ Level.equality.reach ++ "int" :: Grammar.tags, '\n' ∉ text.toList := by
    decide +kernel
  rcases h with hname | hoperator | htag | htag
  · intro hbreak
    have hl : (⟨.identifier, text, .start⟩ : Token).Lexical := hname
    cases hl.kind_of_newline hbreak
  · exact hlists text (List.mem_append.2 (.inl hoperator))
  · exact hlists text (List.mem_append.2 (.inr (.tail _ htag)))
  · exact hlists text (List.mem_append.2 (.inr htag))

end Vocabulary

/-! ## Outlines of source texts -/

/-- What is known of the tree of a source text: its items are whole, none of its words has a line
break, and its strings are texts of its tokens. -/
theorem exists_items_of_parse {source : String} {p : Node} (h : parse (.ofSource source) = .ok p) :
    ∃ items, p = .program items ∧ (∀ i ∈ items, i.Whole Text.Writable) ∧
      (∀ text ∈ p.words, '\n' ∉ text.toList) ∧
      ∀ v ∈ p.strings, ∃ t : Token, t.Lexical ∧ t.text = v := by
  have hl : ∀ t ∈ (tokenize source).tokens, t.Lexical := fun t => lexical_of_mem_tokenize
  rw [ofSource_of_fault_eq_none (fault_of_parse_ofSource h)] at h
  have hlenient := lenient_of_parse hl h
  obtain ⟨hitems⟩ := hlenient.wellFormed hl
  rename_i items
  refine ⟨items, rfl, fun i hi => (hitems i hi).whole, ?_, fun v hv => ?_⟩
  · have hwords := Vocabulary.words_each fun i hi => (hitems i hi).words
    exact fun text ht => Vocabulary.newline_not_mem_of_word (hwords text ht)
  · obtain ⟨t, ht, hstands, _⟩ := Grammar.exists_standsFor hlenient hl v hv
    exact ⟨t, hl t ht, hstands⟩

/-- A text of a token that goes on behind another one with a line break is a string literal, and so
is the other one. -/
theorem isQuoted_of_mimics {t u : Token} (ht : t.Lexical) (hu : u.Lexical)
    (h : Mimics t.text u.text) : IsQuoted t.text ∧ IsQuoted u.text := by
  have hk := ht.kind_of_newline (newline_mem_of_mimics h)
  have hquoted := ht.isQuoted hk
  refine ⟨hquoted, hu.isQuoted (hu.kind_of_quote ?_)⟩
  obtain ⟨depth, word, rest, htext⟩ := h
  have hhead := hquoted.1
  rw [htext, String.toList_append, String.toList_append, List.append_assoc] at hhead
  rwa [← List.head?_append_of_ne_nil _ hu.text_ne_nil]

/-- Where the words of a tree have no line breaks, only its strings can mimic a line. -/
theorem exists_strings_of_mimics {words words' strings strings' : List String}
    {es es' : List Entry} (hs : Supplied words strings es) (hs' : Supplied words' strings' es')
    (hw : ∀ text ∈ words, '\n' ∉ text.toList) {e e' : Entry} (he : e ∈ es) (he' : e' ∈ es')
    (h : e.Mimics e') : ∃ v ∈ strings, ∃ w ∈ strings', Mimics v w := by
  obtain ⟨hword, v, w, hv, hv', hm⟩ := h
  have hstring : e.word = .string := by
    by_contra hne
    exact hw v ((hs e he v hv).2 hne (newline_mem_of_mimics hm)) (newline_mem_of_mimics hm)
  exact ⟨v, (hs e he v hv).1 hstring, w, (hs' e' he' w hv').1 (hword ▸ hstring), hm⟩

/-- Two source texts have the same outline if they have the same tree.  If they have the same
outline, they have the same tree, or a string literal of one of them goes on, behind a literal of
the other, with a line break and what looks like a line of an outline. -/
theorem eq_or_mimics_of_parse {source source' : String} {p q : Node}
    (hp : parse (.ofSource source) = .ok p) (hq : parse (.ofSource source') = .ok q) :
    ∃ s t, p.render = .ok s ∧ q.render = .ok t ∧ (p = q → s = t) ∧
      (s = t → p = q ∨ ∃ v ∈ p.strings, ∃ w ∈ q.strings, IsQuoted v ∧ IsQuoted w ∧
        (Mimics v w ∨ Mimics w v)) := by
  obtain ⟨a, rfl, ha, haw, has⟩ := exists_items_of_parse hp
  obtain ⟨b, rfl, hb, hbw, hbs⟩ := exists_items_of_parse hq
  refine ⟨_, _, render_program ha, render_program hb, ?_, fun h => ?_⟩
  · intro heq
    rw [heq]
  · refine (eq_or_mimics_of_text_eq ha hb h).imp_right ?_
    have hquoted : ∀ {v w}, (∃ t : Token, t.Lexical ∧ t.text = v) →
        (∃ t : Token, t.Lexical ∧ t.text = w) → Mimics v w → IsQuoted v ∧ IsQuoted w := by
      rintro _ _ ⟨t, ht, rfl⟩ ⟨u, hu, rfl⟩ hm
      exact isQuoted_of_mimics ht hu hm
    rintro ⟨e, he, e', he', hm | hm⟩
    · obtain ⟨v, hv, w, hw, hm⟩ := exists_strings_of_mimics (supplied_program ha 0)
        (supplied_program hb 0) haw he he' hm
      obtain ⟨hqv, hqw⟩ := hquoted (has v hv) (hbs w hw) hm
      exact ⟨v, hv, w, hw, hqv, hqw, .inl hm⟩
    · obtain ⟨w, hw, v, hv, hm⟩ := exists_strings_of_mimics (supplied_program hb 0)
        (supplied_program ha 0) hbw he' he hm
      obtain ⟨hqw, hqv⟩ := hquoted (hbs w hw) (has v hv) hm
      exact ⟨v, hv, w, hw, hqv, hqw, .inr hm⟩

/-- A literal with an escaped quote, a line break and a label passes for two. -/
theorem eq_or_mimics_of_parse_of_arguments :
    ∃ p q text,
      parse (.ofSource "f(\"a\", \"b\")") = .ok p ∧
      parse (.ofSource "f(\"a\\\"\\n        StringLiteral: \\\"b\")") = .ok q ∧
      p ≠ q ∧ p.render = .ok text ∧ q.render = .ok text ∧
      ∃ v ∈ p.strings, ∃ w ∈ q.strings, IsQuoted v ∧ IsQuoted w ∧ (Mimics v w ∨ Mimics w v) := by
  have hp : parse (.ofSource "f(\"a\", \"b\")") =
      .ok (.program [.call (.identifier "f") [.string "\"a\"", .string "\"b\""]]) := by
    decide +kernel
  have hq : parse (.ofSource "f(\"a\\\"\\n        StringLiteral: \\\"b\")") =
      .ok (.program [.call (.identifier "f")
        [.string "\"a\"\n        StringLiteral: \"b\""]]) := by
    decide +kernel
  obtain ⟨s, t, hs, ht, -, hsame⟩ := eq_or_mimics_of_parse hp hq
  have hne : Node.program [.call (.identifier "f") [.string "\"a\"", .string "\"b\""]] ≠
      .program [.call (.identifier "f") [.string "\"a\"\n        StringLiteral: \"b\""]] := by
    decide +kernel
  have heq : s = t := by
    have hrender : (Except.ok s : Except Fault String) = .ok t := by
      rw [← hs, ← ht]
      decide +kernel
    exact Except.ok.inj hrender
  subst heq
  exact ⟨_, _, s, hp, hq, hne, hs, ht, (hsame rfl).resolve_left hne⟩

end MiniLang
