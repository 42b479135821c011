import MiniLang.Phrase
import MiniLang.Reading
/-!
# Reading phrases

How each phrase is read from a window.  Reading looks at the two tokens in view and never further:
it takes the current token's text or kind, now and then the next token's, and moves on.  A phrase
that cannot be read keeps what it has passed.

`Phrase.read` carries the bound on what is left through every step, which is why it ends.
`Phrase.run` is the reading without the bound, and the equations `Phrase.run_primary`,
`Phrase.run_chain` and so on, one for each phrase, say all there is to know of it.
-/

set_option autoImplicit false

namespace MiniLang

/-! ## Reading -/

/-- Reads the parameters after those that have been read. -/
def readMoreParameters (parameters : List Node) (w : Window) : Reading (List Node) 0 w :=
  if w.reads "," then
    (Reading.accept w ",").andThen fun _ w₁ _ =>
      (Reading.identifier w₁).andThen fun parameter w₂ _ =>
        readMoreParameters (parameters ++ [parameter]) w₂
  else .done parameters
termination_by w.left
decreasing_by omega

/-- Reads parameters up to a closing parenthesis. -/
def readParameters (w : Window) : Reading (List Node) 0 w :=
  if w.reads ")" then .done []
  else
    (Reading.identifier w).andThen fun parameter w₁ _ => readMoreParameters [parameter] w₁

namespace Phrase

/-- Reads a phrase.  The outcome is a node, which may be `absent` for the phrases that take nothing
at least, or the fault of the first token in view that does not fit. -/
def read (phrase : Phrase) (w : Window) : Reading Node (phrase.leastFrom w) w :=
  match phrase with
  | .identifier => Reading.identifier w
  | .primary => (
    match hc : w.current with
    | none => .fault (w.mismatch "expression")
    | some t =>
      (Reading.advance w (Option.isSome_of_eq_some hc)).andThen fun _ w₁ _ =>
        if t.text = "(" then
          (read expression w₁).andThen fun node w₂ _ =>
            (Reading.accept w₂ ")").andThen fun _ w₃ _ => .done node
        else
          match t.operand with
          | .ok node => .done node
          | .error digits => .fault (.tooManyDigits digits) : Reading Node 1 w)
  | .chain operators operand =>
    ((read operand w).weaken (operand.least_le_leastFrom w)).andThen fun left w₁ _ =>
      (read (.chained operators operand left) w₁).weaken
  | .chained operators operand left => (
    match hc : w.current with
    | none => .done left
    | some t =>
      if t.text ∈ operators then
        (Reading.advance w (Option.isSome_of_eq_some hc)).andThen fun _ w₁ _ =>
          (read operand w₁).andThen fun right w₂ _ =>
            (read (.chained operators operand (.binary left t.text right)) w₂).weaken
      else .done left : Reading Node 0 w)
  | .call => (
    (Reading.identifier w).andThen fun name w₁ _ =>
      (Reading.accept w₁ "(").andThen fun _ w₂ _ =>
        if w₂.reads ")" then
          (Reading.accept w₂ ")").andThen fun _ w₃ _ => .done (.call name [])
        else
          (read expression w₂).andThen fun argument w₃ _ =>
            (read (.arguments name [argument]) w₃).weaken : Reading Node 1 w)
  | .arguments name args => (
    if w.reads "," then
      (Reading.accept w ",").andThen fun _ w₁ _ =>
        (read expression w₁).andThen fun argument w₂ _ =>
          (read (.arguments name (args ++ [argument])) w₂).weaken
    else
      (Reading.accept w ")").andThen fun _ w₁ _ => .done (.call name args)
    : Reading Node 1 w)
  | .assignment target => (
    match hc : w.current with
    | none => .fault (w.mismatch "=")
    | some t =>
      if t.kind = .assign then
        (Reading.advance w (Option.isSome_of_eq_some hc)).andThen fun _ w₁ _ =>
          if w₁.nextReads "(" then
            (read .call w₁).andThen fun value w₂ _ => .done (.assignment target value)
          else
            (read expression w₁).andThen fun value w₂ _ => .done (.assignment target value)
      else .fault (w.mismatch "=") : Reading Node 1 w)
  | .identifierLed => (
    match hc : w.current with
    | none => .fault (.noToken .text)
    | some t =>
      match w.next with
      | none => .fault (.syntactic (.afterIdentifier none))
      | some following =>
        if following.kind = .assign then
          (Reading.advance w (Option.isSome_of_eq_some hc)).andThen fun _ w₁ _ =>
            (read (.assignment (.identifier t.text)) w₁).weaken
        else if following.kind = .operation then (read expression w).weaken
        else if following.text = "(" then (read .call w).weaken
        else .fault (.syntactic (.afterIdentifier (some following))) : Reading Node 1 w)
  | .returning => (
    (Reading.accept w "return").andThen fun _ w₁ _ =>
      (read expression w₁).andThen fun node w₂ _ =>
        (Reading.accept w₂ ";").andThen fun _ w₃ _ => .done (.returning node) : Reading Node 1 w)
  | .conditional => (
    (Reading.accept w "if").andThen fun _ w₁ _ =>
      (Reading.accept w₁ "(").andThen fun _ w₂ _ =>
        (read expression w₂).andThen fun condition w₃ _ =>
          (Reading.accept w₃ ")").andThen fun _ w₄ _ =>
            (read .block w₄).andThen fun thenBlock w₅ _ =>
              if w₅.reads "else" then
                (Reading.accept w₅ "else").andThen fun _ w₆ _ =>
                  (read .block w₆).andThen fun elseBlock w₇ _ =>
                    .done (.conditional condition thenBlock elseBlock)
              else .done (.conditional condition thenBlock .absent) : Reading Node 1 w)
  | .declaration => (
    match hc : w.current with
    | none => .fault (.noToken .text)
    | some t =>
      (Reading.advance w (Option.isSome_of_eq_some hc)).andThen fun _ w₁ _ =>
        (Reading.identifier w₁).andThen fun name w₂ _ =>
          (Reading.accept w₂ "(").andThen fun _ w₃ _ =>
            (readParameters w₃).andThen fun parameters w₄ _ =>
              (Reading.accept w₄ ")").andThen fun _ w₅ _ =>
                (read .block w₅).andThen fun body w₆ _ =>
                  .done (.declaration t.text name parameters body) : Reading Node 1 w)
  | .block => (
    (Reading.accept w "\x7b").andThen fun _ w₁ _ => (read (.statements []) w₁).weaken
    : Reading Node 1 w)
  | .statements body => (
    if hend : w.current.isNone ∨ w.reads "\x7d" then
      (Reading.accept w "\x7d").andThen fun _ w₁ _ => .done (.block body)
    else if w.reads ";" then
      (Reading.accept w ";").andThen fun _ w₁ _ => (read (.statements body) w₁).weaken
    else if hopen : w.reads "\x7b" then
      (read .block w).andThen fun node w₁ _ => (read (.statements (body ++ [node])) w₁).weaken
    else
      have hleast := one_le_leastFrom_sentence (fun hc => hend (.inl hc)) hopen
      ((read .sentence w).weaken hleast).andThen fun node w₁ _ =>
        (read (.statements (body ++ [node])) w₁).weaken : Reading Node 1 w)
  | .statement => (
    match w.current with
    | none => .fault (.syntactic (.expectedStatement none))
    | some t =>
      if t.kind = .keyword then
        if t.text = "return" then (read .returning w).weaken
        else if t.text = "if" then (read .conditional w).weaken
        else (read .declaration w).weaken
      else if t.kind = .identifier then (read .identifierLed w).weaken
      else .fault (.syntactic (.expectedStatement (some t))) : Reading Node 1 w)
  | .sentence => (
    if w.reads ";" then
      (Reading.accept w ";").andThen (fun _ w₁ _ => (read .sentence w₁).weaken)
        (leastFrom_sentence_le_one w)
    else if hend : w.current.isNone ∨ w.reads "\x7b" then
      (Reading.done .absent).weaken (leastFrom_sentence_le_zero hend)
    else (read .statement w).weaken (leastFrom_sentence_le_one w)
    : Reading Node (leastFrom .sentence w) w)
termination_by 12 * w.left + phrase.rank
decreasing_by
  all_goals
    simp only [rank, leastFrom, least, expression, comparison, sum, product] at *
    omega

/-- Reads a phrase from a window: its node or a fault, and the window afterwards. -/
def run (phrase : Phrase) (w : Window) : Outcome Node := (phrase.read w).val

/-- A phrase that is read takes as many tokens as it takes at least; one that is not moves the
window forward at most. -/
theorem within_run (phrase : Phrase) (w : Window) : (phrase.run w).Within phrase.least w :=
  (phrase.read w).property.mono (phrase.least_le_leastFrom w)

end Phrase

/-- Reads the parameters after those that have been read. -/
def runMoreParameters (parameters : List Node) (w : Window) : Outcome (List Node) :=
  (readMoreParameters parameters w).val

/-- Reads parameters up to a closing parenthesis. -/
def runParameters (w : Window) : Outcome (List Node) := (readParameters w).val

/-! ## The equations of the phrases -/

theorem runMoreParameters_eq (parameters : List Node) (w : Window) :
    runMoreParameters parameters w =
      if w.reads "," then
        (w.accept ",").andThen fun _ w₁ =>
          w₁.identifier.andThen fun parameter w₂ =>
            runMoreParameters (parameters ++ [parameter]) w₂
      else .ok parameters w := by
  rw [runMoreParameters, readMoreParameters]
  split
  · exact Reading.val_andThen _ fun _ _ _ => Reading.val_andThen _ fun _ _ _ => rfl
  · rfl

theorem runParameters_eq (w : Window) :
    runParameters w =
      if w.reads ")" then .ok [] w
      else w.identifier.andThen fun parameter w₁ => runMoreParameters [parameter] w₁ := by
  rw [runParameters, readParameters]
  split
  · rfl
  · exact Reading.val_andThen _ fun _ _ _ => rfl

namespace Phrase

theorem run_identifier (w : Window) : run .identifier w = w.identifier := by
  rw [run, read]
  rfl

theorem run_primary (w : Window) :
    run .primary w =
      match w.current with
      | none => .fail (w.mismatch "expression") w
      | some t =>
        w.advance.andThen fun _ w₁ =>
          if t.text = "(" then
            (run expression w₁).andThen fun node w₂ =>
              (w₂.accept ")").andThen fun _ w₃ => .ok node w₃
          else
            match t.operand with
            | .ok node => .ok node w₁
            | .error digits => .fail (.tooManyDigits digits) w₁ := by
  rw [run, read]
  split
  · rename_i hc; simp only [hc]; rfl
  · rename_i t hc
    simp only [hc]
    refine Reading.val_andThen _ fun _ _ _ => ?_
    split
    · exact Reading.val_andThen _ fun _ _ _ => Reading.val_andThen _ fun _ _ _ => rfl
    · cases t.operand <;> rfl

theorem run_chain (operators : List String) (operand : Phrase) (w : Window) :
    run (.chain operators operand) w =
      (run operand w).andThen fun left w₁ => run (.chained operators operand left) w₁ := by
  rw [run, read]
  exact Reading.val_andThen _ fun _ _ _ => rfl

theorem run_chained (operators : List String) (operand : Phrase) (left : Node) (w : Window) :
    run (.chained operators operand left) w =
      match w.current with
      | none => .ok left w
      | some t =>
        if t.text ∈ operators then
          w.advance.andThen fun _ w₁ =>
            (run operand w₁).andThen fun right w₂ =>
              run (.chained operators operand (.binary left t.text right)) w₂
        else .ok left w := by
  rw [run, read]
  split
  · rename_i hc; simp only [hc]; rfl
  · rename_i t hc
    simp only [hc]
    split
    · exact Reading.val_andThen _ fun _ _ _ => Reading.val_andThen _ fun _ _ _ => rfl
    · rfl

theorem run_call (w : Window) :
    run .call w =
      w.identifier.andThen fun name w₁ =>
        (w₁.accept "(").andThen fun _ w₂ =>
          if w₂.reads ")" then
            (w₂.accept ")").andThen fun _ w₃ => .ok (.call name []) w₃
          else
            (run expression w₂).andThen fun argument w₃ =>
              run (.arguments name [argument]) w₃ := by
  rw [run, read]
  refine Reading.val_andThen _ fun _ _ _ => Reading.val_andThen _ fun _ _ _ => ?_
  split
  · exact Reading.val_andThen _ fun _ _ _ => rfl
  · exact Reading.val_andThen _ fun _ _ _ => rfl

theorem run_arguments (name : Node) (args : List Node) (w : Window) :
    run (.arguments name args) w =
      if w.reads "," then
        (w.accept ",").andThen fun _ w₁ =>
          (run expression w₁).andThen fun argument w₂ =>
            run (.arguments name (args ++ [argument])) w₂
      else (w.accept ")").andThen fun _ w₁ => .ok (.call name args) w₁ := by
  rw [run, read]
  split
  · exact Reading.val_andThen _ fun _ _ _ => Reading.val_andThen _ fun _ _ _ => rfl
  · exact Reading.val_andThen _ fun _ _ _ => rfl

theorem run_assignment (target : Node) (w : Window) :
    run (.assignment target) w =
      match w.current with
      | none => .fail (w.mismatch "=") w
      | some t =>
        if t.kind = .assign then
          w.advance.andThen fun _ w₁ =>
            if w₁.nextReads "(" then
              (run .call w₁).andThen fun value w₂ => .ok (.assignment target value) w₂
            else
              (run expression w₁).andThen fun value w₂ => .ok (.assignment target value) w₂
        else .fail (w.mismatch "=") w := by
  rw [run, read]
  split
  · rename_i hc; simp only [hc]; rfl
  · rename_i t hc
    simp only [hc]
    split
    · refine Reading.val_andThen _ fun _ _ _ => ?_
      split
      · exact Reading.val_andThen _ fun _ _ _ => rfl
      · exact Reading.val_andThen _ fun _ _ _ => rfl
    · rfl

theorem run_identifierLed (w : Window) :
    run .identifierLed w =
      match w.current with
      | none => .fail (.noToken .text) w
      | some t =>
        match w.next with
        | none => .fail (.syntactic (.afterIdentifier none)) w
        | some following =>
          if following.kind = .assign then
            w.advance.andThen fun _ w₁ => run (.assignment (.identifier t.text)) w₁
          else if following.kind = .operation then run expression w
          else if following.text = "(" then run .call w
          else .fail (.syntactic (.afterIdentifier (some following))) w := by
  rw [run, read]
  split
  · rename_i hc; simp only [hc]; rfl
  · rename_i t hc
    simp only [hc]
    split
    · rfl
    · split
      · exact Reading.val_andThen _ fun _ _ _ => rfl
      · split
        · rfl
        · split
          · rfl
          · rfl

theorem run_returning (w : Window) :
    run .returning w =
      (w.accept "return").andThen fun _ w₁ =>
        (run expression w₁).andThen fun node w₂ =>
          (w₂.accept ";").andThen fun _ w₃ => .ok (.returning node) w₃ := by
  rw [run, read]
  exact Reading.val_andThen _ fun _ _ _ => Reading.val_andThen _ fun _ _ _ =>
    Reading.val_andThen _ fun _ _ _ => rfl

theorem run_conditional (w : Window) :
    run .conditional w =
      (w.accept "if").andThen fun _ w₁ =>
        (w₁.accept "(").andThen fun _ w₂ =>
          (run expression w₂).andThen fun condition w₃ =>
            (w₃.accept ")").andThen fun _ w₄ =>
              (run .block w₄).andThen fun thenBlock w₅ =>
                if w₅.reads "else" then
                  (w₅.accept "else").andThen fun _ w₆ =>
                    (run .block w₆).andThen fun elseBlock w₇ =>
                      .ok (.conditional condition thenBlock elseBlock) w₇
                else .ok (.conditional condition thenBlock .absent) w₅ := by
  rw [run, read]
  refine Reading.val_andThen _ fun _ _ _ => Reading.val_andThen _ fun _ _ _ =>
    Reading.val_andThen _ fun _ _ _ => Reading.val_andThen _ fun _ _ _ =>
    Reading.val_andThen _ fun _ _ _ => ?_
  split
  · exact Reading.val_andThen _ fun _ _ _ => Reading.val_andThen _ fun _ _ _ => rfl
  · rfl

theorem run_declaration (w : Window) :
    run .declaration w =
      match w.current with
      | none => .fail (.noToken .text) w
      | some t =>
        w.advance.andThen fun _ w₁ =>
          w₁.identifier.andThen fun name w₂ =>
            (w₂.accept "(").andThen fun _ w₃ =>
              (runParameters w₃).andThen fun parameters w₄ =>
                (w₄.accept ")").andThen fun _ w₅ =>
                  (run .block w₅).andThen fun body w₆ =>
                    .ok (.declaration t.text name parameters body) w₆ := by
  rw [run, read]
  split
  · rename_i hc; simp only [hc]; rfl
  · rename_i t hc
    simp only [hc]
    exact Reading.val_andThen _ fun _ _ _ => Reading.val_andThen _ fun _ _ _ =>
      Reading.val_andThen _ fun _ _ _ => Reading.val_andThen _ fun _ _ _ =>
      Reading.val_andThen _ fun _ _ _ => Reading.val_andThen _ fun _ _ _ => rfl

theorem run_block (w : Window) :
    run .block w = (w.accept "\x7b").andThen fun _ w₁ => run (.statements []) w₁ := by
  rw [run, read]
  exact Reading.val_andThen _ fun _ _ _ => rfl

theorem run_statements_sentence (body : List Node) (w : Window) :
    run (.statements body) w =
      if w.current.isNone ∨ w.reads "\x7d" then
        (w.accept "\x7d").andThen fun _ w₁ => .ok (.block body) w₁
      else if w.reads ";" then
        (w.accept ";").andThen fun _ w₁ => run (.statements body) w₁
      else if w.reads "\x7b" then
        (run .block w).andThen fun node w₁ => run (.statements (body ++ [node])) w₁
      else
        (run .sentence w).andThen fun node w₁ => run (.statements (body ++ [node])) w₁ := by
  rw [run, read]
  split
  · exact Reading.val_andThen _ fun _ _ _ => rfl
  · split
    · exact Reading.val_andThen _ fun _ _ _ => rfl
    · split
      · exact Reading.val_andThen _ fun _ _ _ => rfl
      · exact Reading.val_andThen _ fun _ _ _ => rfl

theorem run_statement (w : Window) :
    run .statement w =
      match w.current with
      | none => .fail (.syntactic (.expectedStatement none)) w
      | some t =>
        if t.kind = .keyword then
          if t.text = "return" then run .returning w
          else if t.text = "if" then run .conditional w
          else run .declaration w
        else if t.kind = .identifier then run .identifierLed w
        else .fail (.syntactic (.expectedStatement (some t))) w := by
  rw [run, read]
  split
  · rfl
  · split
    · split
      · rfl
      · split
        · rfl
        · rfl
    · split
      · rfl
      · rfl

theorem run_sentence (w : Window) :
    run .sentence w =
      if w.reads ";" then (w.accept ";").andThen fun _ w₁ => run .sentence w₁
      else if w.current.isNone ∨ w.reads "\x7b" then .ok .absent w
      else run .statement w := by
  rw [run, read]
  split
  · exact Reading.val_andThen _ fun _ _ _ => rfl
  · split
    · rfl
    · rfl

/-- A sentence that begins at no semicolon, no block and not at the end is a statement. -/
theorem run_sentence_eq_statement {w : Window} (hs : ¬ w.reads ";")
    (hb : ¬ (w.current.isNone ∨ w.reads "\x7b")) : run .sentence w = run .statement w := by
  rw [run_sentence, if_neg hs, if_neg hb]

/-- The sentences of a block are statements. -/
theorem run_statements (body : List Node) (w : Window) :
    run (.statements body) w =
      if w.current.isNone ∨ w.reads "\x7d" then
        (w.accept "\x7d").andThen fun _ w₁ => .ok (.block body) w₁
      else if w.reads ";" then
        (w.accept ";").andThen fun _ w₁ => run (.statements body) w₁
      else if w.reads "\x7b" then
        (run .block w).andThen fun node w₁ => run (.statements (body ++ [node])) w₁
      else
        (run .statement w).andThen fun node w₁ => run (.statements (body ++ [node])) w₁ := by
  rw [run_statements_sentence]
  split
  · rfl
  · rename_i hend
    split
    · rfl
    · rename_i hs
      split
      · rfl
      · rename_i hopen
        have hb : ¬ (w.current.isNone ∨ w.reads "\x7b") :=
          not_or.2 ⟨fun hc => hend (.inl hc), hopen⟩
        rw [run_sentence_eq_statement hs hb]

/-- A sentence at a token that opens no block takes a token. -/
theorem within_run_sentence {w : Window} {t : Token} (hc : w.current = some t)
    (ht : t.text ≠ "\x7b") : (run .sentence w).Within 1 w := by
  rw [run_sentence]
  split
  · have ha := Window.within_accept w ";"
    exact ha.andThen fun _ w₁ => within_run .sentence w₁
  · have hb : ¬ (w.current.isNone = true ∨ w.reads "\x7b" = true) := by
      simp [hc, Window.reads, ht]
    rw [if_neg hb]
    exact within_run .statement w

end Phrase

end MiniLang
