import MiniLang.Proofs.Replay.Phrases
/-!
# Reading with more behind

What has been read up to the end of a list, or to some place before it, is read in the same way
where more tokens stand behind the list, if they begin with nothing that a phrase goes on with: no
operator, no opening parenthesis, no comma and no `else` (`Phrase.carries`).

A plan is `Steady` if that is true of each of its looks.  A look in the middle of the list shows the
same; a look at the end shows a token more, and either comes to no value there or does not mind it.
-/

set_option autoImplicit false

namespace MiniLang

open Window

/-! ## What no phrase goes on into -/

/-- Tokens that begin with nothing that a phrase goes on with. -/
structure Foreign (more : List Token) : Prop where
  operator : Level.equality.Stops more
  parenthesis : ¬ StartsWith "(" more
  comma : ¬ StartsWith "," more
  alternative : ¬ StartsWith "else" more

/-- Whether a phrase that comes to an end in front of some tokens could not go on with them. -/
def Phrase.StopsAt (more : List Token) : Phrase → Prop
  | .chain operators operand => (∀ u ∈ more.head?, u.text ∉ operators) ∧ operand.StopsAt more
  | .chained operators operand _ =>
    (∀ u ∈ more.head?, u.text ∉ operators) ∧ operand.StopsAt more
  | .sentence => False
  | _ => True

theorem Foreign.not_mem_operators {more : List Token} (h : Foreign more) {operators : List String}
    (ho : ∀ text ∈ operators, text ∈ Level.equality.reach) :
    ∀ u ∈ more.head?, u.text ∉ operators := by
  intro u hu hm
  cases more with
  | nil => cases hu
  | cons v more =>
    cases hu
    exact h.operator (ho _ hm)

theorem Foreign.stopsAt_expression {more : List Token} (h : Foreign more) :
    Phrase.expression.StopsAt more :=
  ⟨h.not_mem_operators (by decide), h.not_mem_operators (by decide),
    h.not_mem_operators (by decide), h.not_mem_operators (by decide), trivial⟩

/-! ## Readings that carry over -/

/-- A window over a list that only its end follows shows all of the list. -/
theorem eq_of_facing_eq {ts us : List Token} (h : facing ts = facing us) : ts = us := by
  have hmap : (ts.drop 2).map some = (us.drop 2).map some := congrArg (fun w => w.rest.tokens) h
  have hdrop : ts.drop 2 = us.drop 2 := (List.map_inj_right fun _ _ => Option.some.inj).1 hmap
  refine List.ext_getElem? fun i => ?_
  match i with
  | 0 => exact congrArg Window.current h
  | 1 => exact congrArg Window.next h
  | i + 2 =>
    have hi := congrArg (fun tokens : List Token => tokens[i]?) hdrop
    simpa [Nat.add_comm 2 i] using hi

section

variable {α β : Type} {more ts : List Token}

/-- Whatever is read of a list is read of it with more behind. -/
def Carries (more : List Token) (read : Window → Outcome α) (ts : List Token) : Prop :=
  ∀ a w, read (facing ts) = .ok a w →
    ∃ rest, w = facing rest ∧ read (facing (ts ++ more)) = .ok a (facing (rest ++ more))

theorem Carries.andThen {f : Window → Outcome α} {g : α → Window → Outcome β}
    (hf : Carries more f ts)
    (hg : ∀ a rest, f (facing ts) = .ok a (facing rest) → Carries more (g a) rest) :
    Carries more (fun w => (f w).andThen g) ts := by
  intro b w h
  obtain ⟨a, w₁, hfirst, hsecond⟩ := Outcome.andThen_eq_ok.1 h
  obtain ⟨rest, rfl, hfirst'⟩ := hf a w₁ hfirst
  obtain ⟨rest', rfl, hsecond'⟩ := hg a rest hfirst b w hsecond
  refine ⟨rest', rfl, ?_⟩
  show (f (facing (ts ++ more))).andThen g = .ok b (facing (rest' ++ more))
  rw [hfirst', Outcome.andThen_ok, hsecond']

theorem carries_advance (t : Token) (ts : List Token) : Carries more advance (t :: ts) := by
  intro a w h
  rw [advance_facing] at h
  cases h
  exact ⟨ts, rfl, advance_facing t (ts ++ more)⟩

/-- Where there is no value, there is nothing to carry over. -/
theorem carries_of_takes {plan : Plan α} (h : plan.Takes) : Carries more plan.run [] := by
  intro a w hr
  have hleft := (h (facing [])).left_le hr
  rw [left_facing, List.length_nil] at hleft
  omega

/-- Where nothing is taken of the end of a list, nothing is taken of what stands behind it. -/
theorem carries_of_end {read : Window → Outcome α} {a : α}
    (hnil : read (facing []) = .ok a (facing []))
    (hmore : read (facing more) = .ok a (facing more)) :
    Carries more read [] := by
  intro b w h
  rw [hnil] at h
  cases h
  exact ⟨[], rfl, hmore⟩

end

/-! ## Steady plans -/

namespace Plan

variable {α : Type} {more : List Token}

/-- A plan that goes on in the same way, wherever it looks, with more tokens behind. -/
def Steady (more : List Token) : Plan α → Prop
  | .done _ => True
  | .complain _ => True
  | .look go => ∀ ts : List Token,
    let plan := go ((facing ts).current.map Token.unplaced) ((facing ts).next.map Token.unplaced)
    plan.Steady more ∧ (Carries more plan.run ts → Carries more (Plan.look go).run ts)
  | .advance go => go.Steady more
  | .phrase p go => p.StopsAt more ∧ ∀ node, (go node).Steady more
  | .parameters _ go => ∀ nodes, (go nodes).Steady more

/-- What a plan reads carries over, if the plans of all phrases are steady. -/
theorem Ends.carries (hphrase : ∀ p : Phrase, p.StopsAt more → p.plan.Steady more)
    (hparameters : ∀ read, (moreParameters read).Steady more) {plan : Plan α} {w : Window}
    (he : plan.Ends w) {ts : List Token} (hw : w = facing ts) (h : plan.Steady more) :
    Carries more plan.run ts := by
  -- the induction is on the reading, with all phrases that are read on the way
  induction he generalizing ts with
  | done =>
    intro a w hr
    cases hr
    exact ⟨ts, rfl, rfl⟩
  | complain =>
    intro a w hr
    cases hr
  | look _ ih =>
    subst hw
    obtain ⟨hgo, hlook⟩ := h ts
    exact hlook (ih rfl hgo)
  | @advance _ go w hc _ ih =>
    subst hw
    cases ts with
    | nil => exact Bool.noConfusion hc
    | cons t ts => exact (carries_advance t ts).andThen fun _ rest hr => ih (facing rest) hr rfl h
  | @phrase _ p go w _ _ ihp ih =>
    subst hw
    obtain ⟨hp, hgo⟩ := h
    have hfirst : Carries more p.run ts := by
      rw [show p.run = p.plan.run from funext p.run_eq]
      exact ihp rfl (hphrase p hp)
    exact hfirst.andThen fun node rest hr => ih node (facing rest) hr rfl (hgo node)
  | @parameters _ read go w _ _ ihp ih =>
    subst hw
    have hfirst : Carries more (runMoreParameters read) ts := by
      rw [show runMoreParameters read = _ from funext fun w => (run_moreParameters read w).symm]
      exact ihp rfl (hparameters read)
    exact hfirst.andThen fun nodes rest hr => ih nodes (facing rest) hr rfl (h nodes)

/-! ## Looks -/

theorem steady_ite {c : Prop} [Decidable c] {p q : Plan α} (hp : c → p.Steady more)
    (hq : ¬ c → q.Steady more) : (if c then p else q).Steady more := by
  split
  · exact hp ‹_›
  · exact hq ‹_›

/-- A look at the current token alone shows something else only at the end of the list. -/
theorem steady_look {go : Option Token → Option Token → Plan α}
    (hnext : ∀ current next next', go current next = go current next')
    (hend : Carries more (look go).run []) (h : ∀ current next, (go current next).Steady more) :
    (look go).Steady more := by
  refine fun ts => ⟨h _ _, fun hgo => ?_⟩
  cases ts with
  | nil => exact hend
  | cons t ts =>
    intro a w hr
    obtain ⟨rest, hw, hmore⟩ := hgo a w hr
    have hhead : (t :: ts ++ more).head? = (t :: ts).head? := rfl
    exact ⟨rest, hw, (run_look_of_current hnext hhead).trans hmore⟩

/-- A look that comes to no value at the end of the list. -/
theorem steady_look_of_takes {go : Option Token → Option Token → Plan α}
    (hnext : ∀ current next next', go current next = go current next')
    (htakes : (look go).Takes) (h : ∀ current next, (go current next).Steady more) :
    (look go).Steady more :=
  steady_look hnext (carries_of_takes htakes) h

theorem steady_accept (text : String) {go : Plan α} (h : go.Steady more) :
    (accept text go).Steady more := by
  refine steady_look_of_takes (fun _ _ _ => rfl) (takes_accept text go) fun current next => ?_
  exact steady_ite (fun _ => h) fun _ => trivial

theorem steady_identifier {go : Node → Plan α} (h : ∀ node, (go node).Steady more) :
    (identifier go).Steady more := by
  refine steady_look_of_takes (fun _ _ _ => rfl) (takes_identifier go) ?_
  rintro (_ | t) next
  · trivial
  · exact steady_ite (fun _ => h _) fun _ => trivial

theorem steady_last {p : Phrase} (h : p.StopsAt more) : (phrase p .done).Steady more :=
  ⟨h, fun _ => trivial⟩

theorem reads_eq_false_of_not {ts : List Token} {text : String} (h : ¬ StartsWith text ts) :
    (facing ts).reads text = false :=
  Bool.eq_false_iff.2 fun hr => h (reads_facing_iff.1 hr)

theorem steady_moreParameters (hm : Foreign more) (read : List Node) :
    (moreParameters read).Steady more := by
  refine steady_look (fun _ _ _ => rfl) ?_ fun current next => ?_
  · refine carries_of_end (a := read) rfl ?_
    refine (run_moreParameters read _).trans ?_
    rw [runMoreParameters_eq, reads_eq_false_of_not hm.comma, if_neg Bool.false_ne_true]
  · exact steady_ite (fun _ => steady_accept "," (steady_identifier fun _ _ => trivial))
      fun _ => trivial

theorem steady_allParameters {go : List Node → Plan α} (h : ∀ nodes, (go nodes).Steady more)
    (htakes : ∀ nodes, (go nodes).Takes) : (allParameters go).Steady more := by
  refine steady_look_of_takes (fun _ _ _ => rfl) (takes_look fun _ _ => ?_) fun current next => ?_
  · exact takes_ite (htakes []) (takes_identifier _)
  · exact steady_ite (fun _ => h []) fun _ => steady_identifier fun _ => h

theorem steady_callArguments (hm : Foreign more) (name : Node) :
    (callArguments name).Steady more := by
  refine steady_look_of_takes (fun _ _ _ => rfl) (takes_look fun _ _ => ?_) fun current next => ?_
  · exact takes_ite (takes_accept _ _) (takes_phrase rfl _)
  · exact steady_ite (fun _ => steady_accept ")" trivial)
      fun _ => ⟨hm.stopsAt_expression, fun _ => steady_last trivial⟩

theorem steady_alternative (hm : Foreign more) (condition thenBlock : Node) :
    (alternative condition thenBlock).Steady more := by
  refine steady_look (fun _ _ _ => rfl) ?_ fun current next => ?_
  · refine carries_of_end (a := .conditional condition thenBlock .absent) rfl ?_
    show (alternative condition thenBlock).run (facing more) = _
    rw [alternative, run, reads_unplaced, reads_eq_false_of_not hm.alternative]
    rfl
  · exact steady_ite (fun _ => steady_accept "else" ⟨trivial, fun _ => trivial⟩) fun _ => trivial

theorem steady_chained {operators : List String} {operand : Phrase}
    (h : Phrase.StopsAt more (.chain operators operand)) (left : Node) :
    (Phrase.chained operators operand left).plan.Steady more := by
  refine steady_look (fun _ _ _ => rfl) ?_ ?_
  · refine carries_of_end (a := left) rfl ?_
    show (Phrase.chained operators operand left).plan.run (facing more) = _
    rw [← Phrase.run_eq, Phrase.run_chained, current_facing_eq]
    cases hu : more.head? with
    | none => rfl
    | some u => exact if_neg (h.1 u hu)
  · rintro (_ | t) next
    · trivial
    · exact steady_ite (fun _ => ⟨h.2, fun right => steady_last h⟩) fun _ => trivial

/-- What is assigned is told by its second token, which no opening parenthesis behind the list could
be. -/
theorem steady_assigned (hm : Foreign more) (target : Node) : (assigned target).Steady more := by
  refine fun ts => ⟨?_, fun h => ?_⟩
  · exact steady_ite (fun _ => ⟨trivial, fun _ => trivial⟩)
      fun _ => ⟨hm.stopsAt_expression, fun _ => trivial⟩
  · match ts with
    | [] =>
      refine carries_of_takes (takes_look fun _ _ => ?_)
      exact takes_ite (takes_phrase rfl _) (takes_phrase rfl _)
    | [t] =>
      intro a w hr
      obtain ⟨rest, hw, hmore⟩ := h a w hr
      refine ⟨rest, hw, ?_⟩
      show (assigned target).run (facing ([t] ++ more)) = _
      rw [run_assigned, List.singleton_append, nextReads_facing_cons,
        reads_eq_false_of_not hm.parenthesis, if_neg Bool.false_ne_true]
      exact hmore
    | t :: u :: ts => exact h

end Plan

namespace Phrase

open Plan

/-- The plan of a phrase is steady. -/
theorem steady_plan {more : List Token} (hm : Foreign more) {p : Phrase} (hp : p.StopsAt more) :
    p.plan.Steady more := by
  have hexpression : expression.StopsAt more := hm.stopsAt_expression
  cases p with
  | identifier => exact steady_identifier fun _ => trivial
  | primary =>
    refine steady_look_of_takes (fun _ _ _ => rfl) (takes_plan .primary rfl) ?_
    rintro (_ | t) next
    · trivial
    · refine steady_ite (fun _ => ⟨hexpression, fun _ => steady_accept ")" trivial⟩) fun _ => ?_
      cases t.operand <;> trivial
  | chain operators operand => exact ⟨hp.2, fun left => steady_last hp⟩
  | chained operators operand left => exact steady_chained hp left
  | call =>
    exact steady_identifier fun name => steady_accept "(" (steady_callArguments hm name)
  | arguments name args =>
    have htakes := takes_plan (.arguments name args) rfl
    refine steady_look_of_takes (fun _ _ _ => rfl) htakes fun current next => ?_
    refine steady_ite (fun _ => steady_accept "," ?_) fun _ => steady_accept ")" trivial
    exact ⟨hexpression, fun _ => steady_last trivial⟩
  | assignment target =>
    refine steady_look_of_takes (fun _ _ _ => rfl) (takes_plan (.assignment target) rfl) ?_
    rintro (_ | t) next
    · trivial
    · exact steady_ite (fun _ => steady_assigned hm target) fun _ => trivial
  | identifierLed =>
    refine fun ts => ⟨?_, fun h => ?_⟩
    · rcases (facing ts).current.map Token.unplaced with _ | t
      · trivial
      · rcases (facing ts).next.map Token.unplaced with _ | following
        · trivial
        · refine steady_ite (fun _ => steady_last trivial) fun _ => ?_
          exact steady_ite (fun _ => steady_last hexpression) fun _ =>
            steady_ite (fun _ => steady_last trivial) fun _ => trivial
    · -- nothing is read of a name alone
      match ts with
      | [] => exact fun _ _ hr => nomatch hr
      | [t] => exact fun _ _ hr => nomatch hr
      | t :: u :: ts => exact h
  | returning =>
    exact steady_accept "return" ⟨hexpression, fun _ => steady_accept ";" trivial⟩
  | conditional =>
    refine steady_accept "if" (steady_accept "(" ⟨hexpression, fun condition => ?_⟩)
    exact steady_accept ")" ⟨trivial, steady_alternative hm condition⟩
  | declaration =>
    refine steady_look_of_takes (fun _ _ _ => rfl) (takes_plan .declaration rfl) ?_
    rintro (_ | t) next
    · trivial
    · have hbody : ∀ name parameters, (phrase .block fun body =>
          done (Node.declaration t.text name parameters body)).Steady more :=
        fun _ _ => ⟨trivial, fun _ => trivial⟩
      exact steady_identifier fun name => steady_accept "(" (steady_allParameters
        (fun parameters => steady_accept ")" (hbody name parameters)) fun _ => takes_accept _ _)
  | block => exact steady_accept "\x7b" (steady_last trivial)
  | statements body =>
    have htakes := takes_plan (.statements body) rfl
    refine steady_look_of_takes (fun _ _ _ => rfl) htakes fun current next => ?_
    refine steady_ite (fun _ => steady_accept _ trivial) fun _ => ?_
    refine steady_ite (fun _ => steady_accept _ (steady_last trivial)) fun _ => ?_
    exact steady_ite (fun _ => ⟨trivial, fun _ => steady_last trivial⟩)
      fun _ => ⟨trivial, fun _ => steady_last trivial⟩
  | statement =>
    refine steady_look_of_takes (fun _ _ _ => rfl) (takes_plan .statement rfl) ?_
    rintro (_ | t) next
    · trivial
    · refine steady_ite (fun _ => ?_) fun _ =>
        steady_ite (fun _ => steady_last trivial) fun _ => trivial
      refine steady_ite (fun _ => steady_last trivial) fun _ => ?_
      exact steady_ite (fun _ => steady_last trivial) fun _ => steady_last trivial
  | sentence => exact hp.elim

/-- Whatever is read as a phrase is read with more behind that no phrase goes on into. -/
theorem carries {more : List Token} (hm : Foreign more) {p : Phrase} (hp : p.StopsAt more)
    (ts : List Token) : Carries more p.run ts := by
  rw [show p.run = p.plan.run from funext p.run_eq]
  exact (p.ends (facing ts)).carries (fun _ => steady_plan hm) (steady_moreParameters hm) rfl
    (steady_plan hm hp)

end Phrase

end MiniLang
