import MiniLang.Proofs.Concatenation
/-!
# Values of assignments

What stands behind the equals sign of an assignment is read as it is read on its own, whatever
expression it is (`parse_assignment`).  There is one exception.  Whether a call or an expression
stands there is told by the second token, and two opening parentheses look like a call that has no
name: such a value is refused, at its first token.
-/

set_option autoImplicit false

namespace MiniLang

open Window Grammar

/-! ## Which values look like calls -/

instance (ts : List Token) : Decidable (OpensTwice ts) :=
  match ts with
  | [] => inferInstanceAs (Decidable False)
  | [_] => inferInstanceAs (Decidable False)
  | l :: r :: _ => inferInstanceAs (Decidable (l.text = "(" ∧ r.text = "("))

theorem nextReads_of_opensTwice {ts : List Token} (h : OpensTwice ts) (rest : List Token) :
    (facing (ts ++ rest)).nextReads "(" = true := by
  match ts with
  | [] => exact h.elim
  | [_] => exact h.elim
  | l :: r :: ts =>
    rw [List.cons_append, List.cons_append, nextReads_facing]
    exact decide_eq_true h.2

/-- A parenthesis is no name, so no call begins with it. -/
theorem run_call_of_opensTwice {ts : List Token} (hl : ∀ t ∈ ts, t.Lexical) (h : OpensTwice ts)
    (rest : List Token) :
    Phrase.call.run (facing (ts ++ rest)) =
      .fail (.syntactic (.mismatched "identifier" ts.head?)) (facing (ts ++ rest)) := by
  match ts with
  | [] => exact h.elim
  | [_] => exact h.elim
  | l :: r :: ts =>
    have hk : l.kind = .special := (hl l (by simp)).kind_of_text h.1
    rw [Phrase.run_call]
    simp [identifier, mismatch, hk]

/-! ## One assignment -/

section

variable {x a : Token}

/-- The item that begins with a name and an equals sign is an assignment of what follows. -/
theorem run_item_assignment (hl : x.Lexical) (hk : x.kind = .identifier) (hint : x.text ≠ "int")
    (ha : a.kind = .assign) (behind : Bool) (ts : List Token) :
    (x.item behind).run (facing (x :: a :: ts)) =
      (if (facing ts).nextReads "(" then Phrase.call.run (facing ts)
        else Phrase.expression.run (facing ts)).andThen fun value w =>
          .ok (.assignment (.identifier x.text) value) w := by
  have hitem : x.item behind = .statement := by
    have hbrace : x.text ≠ "\x7b" := text_ne_of_word hl (.inr hk) _ (by simp)
    simp [Token.item, hbrace, hint]
  rw [hitem, run_statement_assignment hk ha]

/-- A program that begins with such an item. -/
theorem parse_item_assignment (hl : x.Lexical) (hk : x.kind = .identifier)
    (hint : x.text ≠ "int") (ha : a.kind = .assign) (ts : List Token) :
    parse (.ofTokens ((x :: a :: ts).map some)) =
      ((if (facing ts).nextReads "(" then Phrase.call.run (facing ts)
        else Phrase.expression.run (facing ts)).andThen fun value w =>
          readFrom false [.assignment (.identifier x.text) value] w).result := by
  have hs : x.text ≠ ";" := text_ne_of_word hl (.inr hk) _ (by simp)
  rw [parse_eq_readFrom, readFrom_item hl hs, run_item_assignment hl hk hint ha,
    Outcome.andThen_assoc]
  rfl

end

/-! ## Every value -/

/-- A list of tokens that is read as an expression, up to its end, is the value of an assignment
that stands before a semicolon, unless it begins with two opening parentheses.  In that case its
first token is refused where the name of a call should be. -/
theorem parse_assignment {x a s : Token} {ts : List Token} {value : Node} (hx : x.Lexical)
    (hk : x.kind = .identifier) (hint : x.text ≠ "int") (ha : a.kind = .assign)
    (hs : s.text = ";") (h : Phrase.expression.run (facing ts) = .ok value (facing [])) :
    (¬ OpensTwice ts →
        parse (.ofTokens ((x :: a :: (ts ++ [s])).map some)) =
          .ok (.program [.assignment (.identifier x.text) value])) ∧
      (OpensTwice ts → (∀ t ∈ ts, t.Lexical) →
        parse (.ofTokens ((x :: a :: (ts ++ [s])).map some)) =
          .error (.syntactic (.mismatched "identifier" ts.head?))) := by
  rw [parse_item_assignment hx hk hint ha]
  constructor
  · intro ho
    have hforeign : Foreign [s] := by
      have hk : s.text ∉ Level.equality.reach := by
        rw [hs]
        decide
      exact ⟨hk, by simp [StartsWith, hs], by simp [StartsWith, hs], by simp [StartsWith, hs]⟩
    obtain ⟨us, rest, hts, hend, hderived, -⟩ := sound_expression ts value _ h
    obtain rfl : [] = rest := eq_of_facing_eq hend
    rw [List.append_nil] at hts
    subst hts
    have hcall : (facing (ts ++ [s])).nextReads "(" = false :=
      nextReads_of_expression hderived ho hforeign.parenthesis
    -- the semicolon is nothing that the value goes on into
    obtain ⟨rest, hrest, hread⟩ :=
      Phrase.carries hforeign hforeign.stopsAt_expression ts value _ h
    obtain rfl : [] = rest := eq_of_facing_eq hrest
    rw [hcall, if_neg Bool.false_ne_true, hread, Outcome.andThen_ok, List.nil_append,
      readFrom_separator hs, readFrom_nil]
    rfl
  · intro ho hl
    rw [nextReads_of_opensTwice ho, if_pos rfl, run_call_of_opensTwice hl ho]
    rfl

/-- In `x = (a = 1) - "b";` one parenthesis opens the value, in `x = ((a = 1) - "b");` there are
two. -/
theorem parse_assignment_of_parentheses :
    parse (.ofTokens ((⟨.identifier, "x", ⟨1, 1⟩⟩ :: ⟨.assign, "=", ⟨1, 3⟩⟩ ::
        ((tokenize "(a = 1) - \"b\"").tokens ++ [⟨.special, ";", ⟨2, 1⟩⟩])).map some)) =
        .ok (.program [.assignment (.identifier "x")
          (.binary (.binary (.identifier "a") "=" (.integer 1)) "-" (.string "\"b\""))]) ∧
      parse (.ofTokens ((⟨.identifier, "x", ⟨1, 1⟩⟩ :: ⟨.assign, "=", ⟨1, 3⟩⟩ ::
        ((tokenize "((a = 1) - \"b\")").tokens ++ [⟨.special, ";", ⟨2, 1⟩⟩])).map some)) =
        .error (.syntactic (.mismatched "identifier" (some ⟨.special, "(", ⟨1, 1⟩⟩))) := by
  have hx : (⟨.identifier, "x", ⟨1, 1⟩⟩ : Token).Lexical := by decide
  have ha : (⟨.assign, "=", ⟨1, 3⟩⟩ : Token).kind = .assign := rfl
  have hs : (⟨.special, ";", ⟨2, 1⟩⟩ : Token).text = ";" := rfl
  have hone : Phrase.expression.run (facing (tokenize "(a = 1) - \"b\"").tokens) =
      .ok (.binary (.binary (.identifier "a") "=" (.integer 1)) "-" (.string "\"b\""))
        (facing []) := by
    decide +kernel
  have htwo : Phrase.expression.run (facing (tokenize "((a = 1) - \"b\")").tokens) =
      .ok (.binary (.binary (.identifier "a") "=" (.integer 1)) "-" (.string "\"b\""))
        (facing []) := by
    decide +kernel
  have hhead : (tokenize "((a = 1) - \"b\")").tokens.head? = some ⟨.special, "(", ⟨1, 1⟩⟩ := by
    decide +kernel
  constructor
  · exact (parse_assignment hx rfl (by decide) ha hs hone).1 (by decide +kernel)
  · rw [← hhead]
    exact (parse_assignment hx rfl (by decide) ha hs htwo).2 (by decide +kernel)
      fun _ => lexical_of_mem_tokenize

/-- A name in two pairs of parentheses is an expression that no assignment takes. -/
theorem exists_value_not_assigned :
    ∃ (x a s : Token) (ts : List Token) (value : Node),
      (x.Lexical ∧ x.kind = .identifier ∧ x.text ≠ "int") ∧ (a.Lexical ∧ a.text = "=") ∧
      (s.Lexical ∧ s.text = ";") ∧ (∀ t ∈ ts, t.Lexical) ∧
      Phrase.expression.run (facing ts) = .ok value (facing []) ∧
      parse (.ofTokens ((x :: a :: (ts ++ [s])).map some)) ≠
        .ok (.program [.assignment (.identifier x.text) value]) := by
  refine ⟨⟨.identifier, "x", ⟨1, 1⟩⟩, ⟨.assign, "=", ⟨1, 3⟩⟩, ⟨.special, ";", ⟨1, 10⟩⟩,
    [⟨.special, "(", ⟨1, 5⟩⟩, ⟨.special, "(", ⟨1, 6⟩⟩, ⟨.identifier, "a", ⟨1, 7⟩⟩,
      ⟨.special, ")", ⟨1, 8⟩⟩, ⟨.special, ")", ⟨1, 9⟩⟩], .identifier "a", ?_, ?_, ?_, ?_, ?_, ?_⟩
  all_goals decide +kernel

end MiniLang
