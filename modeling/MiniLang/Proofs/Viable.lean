import MiniLang.Proofs.Grammar.Exact
import MiniLang.Proofs.Replay.Phrases
/-!
# Where faults show

A source text is left at the first token that no program goes on with: what has been passed can be
completed (`exists_completion`), unless it ends with a number of too many digits, and the fault
hangs on what has been passed and the two tokens in view alone (`sharing`).
-/

set_option autoImplicit false

namespace MiniLang

open Window

/-! ## Programs can be completed -/

theorem Token.regular_topLevel (t : Token) : t.topLevel.Regular :=
  t.topLevel_cases trivial trivial trivial trivial

theorem Token.follow_topLevel (t : Token) : t.topLevel.Follow [] :=
  t.topLevel_cases (P := fun p => p.Follow []) closes_nil closes_nil closes_nil rfl

/-- Of two ways to split a list, the one with the longer rest has the shorter front. -/
theorem exists_of_append_eq {us rest us' rest' : List Token} (h : us ++ rest = us' ++ rest')
    (hle : rest.length ≤ rest'.length) : ∃ more, us = us' ++ more ∧ rest' = more ++ rest := by
  rcases List.append_eq_append_iff.1 h with ⟨more, hus, hrest⟩ | ⟨more, hus, hrest⟩
  · have hnil : more = [] := by
      have hlen := congrArg List.length hrest
      rw [List.length_append] at hlen
      exact List.length_eq_zero_iff.1 (by omega)
    subst hnil
    exact ⟨[], by simpa using hus.symm, by simpa using hrest.symm⟩
  · exact ⟨more, hus, hrest⟩

/-- The items behind one are read with it or without it. -/
theorem readOn_eq (items : List Node) (n : Node) (w : Window) :
    Grammar.readOn items n w =
      (readItems (if n = .absent then items else items ++ [n]) w).outcome := by
  unfold Grammar.readOn
  split <;> rfl

theorem readItems_nil (items : List Node) :
    (readItems items (facing [])).outcome = .ok (.program items) (facing []) := by
  rw [outcome_readItems]
  rfl

theorem readOn_nil (items : List Node) (n : Node) :
    ∃ p, Grammar.readOn items n (facing []) = .ok p (facing []) :=
  ⟨_, (readOn_eq items n _).trans (readItems_nil _)⟩

/-- Where the items behind an item cannot be read, what has been passed begins with the item. -/
theorem exists_front_of_fail {items : List Node} {t : Token} {us rest us' rest' : List Token}
    {n : Node} {fault : Fault} (hts : t :: us ++ rest = us' ++ rest')
    (hread : t.topLevel.run (facing (t :: (us ++ rest))) = .ok n (facing rest'))
    (h : Grammar.readOn items n (facing rest') = .fail fault (facing rest)) :
    ∃ more, t :: us = us' ++ more ∧ rest' = more ++ rest ∧ more.length < (t :: us).length := by
  have hleft : rest.length ≤ rest'.length := by
    have hwithin := Lockstep.within_outcome_readItems
      (if n = .absent then items else items ++ [n]) (facing rest')
    rw [← readOn_eq, h] at hwithin
    simpa only [Outcome.after, left_facing] using hwithin.after_le
  obtain ⟨more, hus, hrest⟩ := exists_of_append_eq hts hleft
  refine ⟨more, hus, hrest, ?_⟩
  have htakes := (t.within_run_topLevel (current_facing t _)).left_le hread
  simp only [left_facing, hrest, List.length_cons, List.length_append] at htakes ⊢
  omega

/-- What has been read of items that cannot be read is the front of items that can. -/
theorem exists_completion {items : List Node} {us rest : List Token} {fault : Fault}
    (hl : ∀ t ∈ us ++ rest, t.Lexical) (hmendable : fault.IsMendable)
    (h : (readItems items (facing (us ++ rest))).outcome = .fail fault (facing rest)) :
    ∃ ext : List Token, (∀ t ∈ ext, t.Lexical) ∧
      ∃ p, (readItems items (facing (us ++ ext))).outcome = .ok p (facing []) := by
  induction hn : us.length using Nat.strongRecOn generalizing items us with
  | ind n ih =>
    cases us with
    | nil => exact ⟨[], List.forall_mem_nil _, .program items, readItems_nil items⟩
    | cons t us =>
      rw [List.cons_append, Grammar.outcome_readItems_facing] at h
      simp only [List.cons_append, Grammar.outcome_readItems_facing]
      cases Phrase.replays t.regular_topLevel hl with
      | @fail us' rest' fault' hts hfail hext =>
        rw [List.cons_append] at hfail
        rw [hfail] at h
        injection h with hfault hover
        obtain ⟨hus, _⟩ := List.append_inj' hts (length_of_facing_eq hover).symm
        obtain ⟨ext, hext, m, hm⟩ := hext (hfault ▸ hmendable) (hus ▸ List.cons_ne_nil t us)
        have hread := hm [] t.follow_topLevel
        rw [← hus, List.append_nil, List.cons_append] at hread
        obtain ⟨p, hp⟩ := readOn_nil items m
        exact ⟨ext, hext, p, by rw [hread, Outcome.andThen_ok, hp]⟩
      | @ok us' rest' m hts hok =>
        have hread := hok rest' (.inl rfl)
        rw [← hts, List.cons_append] at hread
        rw [hread, Outcome.andThen_ok] at h
        obtain ⟨more, hus, hrest, hlt⟩ := exists_front_of_fail hts hread h
        obtain ⟨ext, hext, hsame, p, hp⟩ : ∃ ext : List Token, (∀ t ∈ ext, t.Lexical) ∧
            ((more ++ ext).head? = rest'.head? ∨ t.topLevel.Follow (more ++ ext)) ∧
              ∃ p, Grammar.readOn items m (facing (more ++ ext)) = .ok p (facing []) := by
          by_cases hmore : more = []
          · subst hmore
            exact ⟨[], List.forall_mem_nil _, .inr t.follow_topLevel, readOn_nil items m⟩
          · have hlmore : ∀ t ∈ more ++ rest, t.Lexical :=
              fun t ht => hl t (by rw [hts, hrest]; exact List.mem_append_right us' ht)
            rw [hrest, readOn_eq] at h
            obtain ⟨ext, hext, p, hp⟩ := ih more.length (hn ▸ hlt) hlmore h rfl
            exact ⟨ext, hext, .inl (hrest ▸ head?_append hmore _ _), p, (readOn_eq _ _ _).trans hp⟩
        refine ⟨ext, hext, p, ?_⟩
        have hread' := hok (more ++ ext) hsame
        rw [← List.append_assoc, ← hus, List.cons_append] at hread'
        rw [hread', Outcome.andThen_ok, hp]

/-! ## Faults hang on what is in view -/

/-- Lists that agree up to a place behind a common front show the same there. -/
theorem view_of_agree {us rest rest' : List Token} {k : Nat} (hk : us.length ≤ k)
    (h : ∀ i ≤ k + 1, (us ++ rest')[i]? = (us ++ rest)[i]?) :
    (facing rest').current = (facing rest).current ∧ (facing rest').next = (facing rest).next := by
  have hplace : ∀ i ≤ 1, rest'[i]? = rest[i]? := by
    intro i hi
    have := h (us.length + i) (by omega)
    rwa [List.getElem?_append_right (Nat.le_add_right _ _),
      List.getElem?_append_right (Nat.le_add_right _ _), Nat.add_sub_cancel_left] at this
  exact ⟨hplace 0 (by omega), hplace 1 (by omega)⟩

/-- Where lists that agree up to a place show a token, it is the same. -/
theorem exists_cons_of_agree {us rest rest' : List Token} {k : Nat} (hk : us.length ≤ k)
    (h : ∀ i ≤ k + 1, (us ++ rest')[i]? = (us ++ rest)[i]?)
    (hc : (facing rest).current.isSome = true) :
    ∃ t more more', rest = t :: more ∧ rest' = t :: more' := by
  have hcurrent := (view_of_agree hk h).1
  match rest, rest', hc with
  | t :: more, t' :: more', _ =>
    cases hcurrent
    exact ⟨t, more, more', rfl, rfl⟩

/-- Behind a front that is longer than a place is deep, less is left than behind the place. -/
theorem length_add_lt {us rest : List Token} {k : Nat} (t : Token) (hk : ¬ us.length + 1 ≤ k) :
    rest.length + k < (us ++ t :: rest).length := by
  rw [List.length_append, List.length_cons]
  omega

/-- Reading two lists that agree up to the token behind the one at a place.  The two readings part
only where the first has passed that place. -/
def sharing (ts ts' : List Token) (k : Nat) (h : ∀ i ≤ k + 1, ts'[i]? = ts[i]?) : Lockstep where
  level w w' := ∃ us rest rest', ts = us ++ rest ∧ ts' = us ++ rest' ∧ us.length ≤ k ∧
    w = facing rest ∧ w' = facing rest'
  apart o o' := (∃ fault w w', o = .fail fault w ∧ o' = .fail fault w') ∨
    o.after.left + k < ts.length
  same_view := by
    rintro _ _ ⟨us, rest, rest', rfl, rfl, hk, rfl, rfl⟩
    obtain ⟨hcurrent, hnext⟩ := view_of_agree hk h
    rw [hcurrent, hnext]
    exact ⟨rfl, rfl⟩
  complain := by
    rintro α _ _ ⟨us, rest, rest', rfl, rfl, hk, rfl, rfl⟩ complaint
    obtain ⟨hcurrent, hnext⟩ := view_of_agree hk h
    refine .inl ⟨complaint.fault (facing rest), facing rest, facing rest', rfl, ?_⟩
    cases complaint <;> simp only [Complaint.fault, Window.mismatch, hcurrent, hnext]
  advance := by
    rintro _ _ ⟨us, rest, rest', rfl, rfl, hk, rfl, rfl⟩ hc
    obtain ⟨t, rest, rest', rfl, rfl⟩ := exists_cons_of_agree hk h hc
    by_cases hlt : us.length + 1 ≤ k
    · refine .inl ⟨facing rest, facing rest', advance_facing t rest, advance_facing t rest', ?_⟩
      exact ⟨us ++ [t], rest, rest', List.append_cons us t rest, List.append_cons us t rest',
        List.length_append ▸ hlt, rfl, rfl⟩
    · refine .inr (.inr ?_)
      rw [advance_facing, Outcome.after, left_facing]
      exact length_add_lt t hlt
  stay := by
    rintro α β o o' go (⟨fault, w, w', rfl, rfl⟩ | hleft) hgo
    · exact .inl ⟨fault, w, w', rfl, rfl⟩
    · refine .inr ?_
      cases o with
      | ok a w => exact Nat.lt_of_le_of_lt (Nat.add_le_add_right (hgo a w).after_le k) hleft
      | fail fault w => exact hleft

/-- A fault hangs on what has been passed and the two tokens in view alone. -/
theorem FailsAfter.of_agree {ts ts' read : List Token} {fault : Fault}
    (h : FailsAfter ts read fault) (hts : ∀ i ≤ read.length + 1, ts'[i]? = ts[i]?) :
    parse (.ofTokens (ts'.map some)) = .error fault := by
  obtain ⟨rest, rfl, hfail⟩ := failsAfter_iff.1 h
  have hrun : (sharing (read ++ rest) ts' read.length hts).Agree (facing (read ++ rest)).program
      (facing ts').program :=
    Lockstep.run_program ⟨[], _, _, rfl, rfl, Nat.zero_le _, rfl, rfl⟩
  rw [hfail] at hrun
  rw [parse_ofTokens]
  generalize (facing ts').program = o at hrun
  cases hrun with
  | apart ha =>
    rcases ha with ⟨fault', w, w', hf, rfl⟩ | hleft
    · cases hf
      rfl
    · simp only [Outcome.after, left_facing, List.length_append] at hleft
      omega

/-- What has been passed before a fault is the front of a program. -/
theorem FailsAfter.exists_completion {ts read : List Token} {fault : Fault}
    (h : FailsAfter ts read fault) (hl : ∀ t ∈ ts, t.Lexical) (hmendable : fault.IsMendable) :
    ∃ ext : List Token, (∀ t ∈ ext, t.Lexical) ∧
      ∃ p, parse (.ofTokens ((read ++ ext).map some)) = .ok p := by
  obtain ⟨rest, rfl, hfail⟩ := failsAfter_iff.1 h
  obtain ⟨ext, hext, p, hp⟩ := MiniLang.exists_completion hl hmendable hfail
  exact ⟨ext, hext, p, by rw [parse_ofTokens, Window.program_eq, hp]; rfl⟩

/-- A list of tokens that is not parsed fails somewhere. -/
theorem exists_failsAfter {ts : List Token} {fault : Fault}
    (h : parse (.ofTokens (ts.map some)) = .error fault) : ∃ read, FailsAfter ts read fault := by
  rw [parse_ofTokens] at h
  cases hr : (facing ts).program with
  | ok p w =>
    rw [hr] at h
    cases h
  | fail fault' w =>
    rw [hr] at h
    cases h
    obtain ⟨read, rest, rfl, rfl⟩ := exists_rest_of_fail hr
    exact ⟨read, failsAfter_iff.2 ⟨rest, rfl, hr⟩⟩

/-- A source text of tokens that is not parsed fails neither early nor late.  What has been passed
can be completed to a program, and whatever begins with what has been passed and shows the same two
tokens behind it fails in the same way. -/
theorem failsAfter_of_parse {source : String} {fault : Fault} (h : (tokenize source).fault = none)
    (hp : parse (.ofSource source) = .error fault) :
    ∃ read, FailsAfter (tokenize source).tokens read fault ∧
      ((∀ digits, fault ≠ .tooManyDigits digits) → ∃ ext : List Token, (∀ t ∈ ext, t.Lexical) ∧
        ∃ p, parse (.ofTokens ((read ++ ext).map some)) = .ok p) ∧
      ∀ ts' : List Token, (∀ i ≤ read.length + 1, ts'[i]? = (tokenize source).tokens[i]?) →
        parse (.ofTokens (ts'.map some)) = .error fault := by
  rw [ofSource_of_fault_eq_none h] at hp
  obtain ⟨read, hfails⟩ := exists_failsAfter hp
  have hl : ∀ t ∈ (tokenize source).tokens, t.Lexical := fun t => lexical_of_mem_tokenize
  refine ⟨read, hfails, fun hdigits => ?_, fun ts' hts => hfails.of_agree hts⟩
  exact hfails.exists_completion hl (Fault.isMendable_iff.2 hdigits)

/-- The end of the text is met behind `f ( 1`. -/
theorem failsAfter_of_parse_of_call :
    ∃ read : List Token, read.map Token.text = ["f", "(", "1"] ∧
      FailsAfter (tokenize "f(1").tokens read (.syntactic (.mismatched ")" none)) ∧
        ∃ ext p, parse (.ofTokens ((read ++ ext).map some)) = .ok p := by
  have hfault : parse (.ofSource "f(1") = .error (.syntactic (.mismatched ")" none)) := by
    decide +kernel
  obtain ⟨read, hfails, hmended, _⟩ := failsAfter_of_parse (by decide +kernel) hfault
  obtain ⟨ext, _, p, hp⟩ := hmended nofun
  refine ⟨read, ?_, hfails, ext, p, hp⟩
  have hall : FailsAfter (tokenize "f(1").tokens (tokenize "f(1").tokens
      (.syntactic (.mismatched ")" none)) :=
    failsAfter_iff.2 ⟨[], by simp, by decide +kernel⟩
  rw [(hfails.unique hall).1]
  decide +kernel

end MiniLang
