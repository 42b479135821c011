import MiniLang.Proofs.CommandLine
import MiniLang.Proofs.Faults
/-!
# Lexical faults and syntax faults

A source text is read as its tokens are made, and a lexical fault shows when it would come into
view.  So it goes before every other fault whose phrase fails within the last two tokens, and behind
all others (`lexical_precedence`).
-/

set_option autoImplicit false

namespace MiniLang

open Window

/-! ## The two commands -/

namespace CommandLine

/-- A program whose outline is printed has been parsed. -/
theorem exists_parse_of_outline {source : String} (h : (Command.outline source).fault = none) :
    ∃ p, parse (.ofSource source) = .ok p := by
  obtain ⟨log, hwork⟩ := exists_outline_eq source
  rw [hwork] at h
  cases hp : parse (.ofSource source) with
  | ok p => exact ⟨p, rfl⟩
  | error fault =>
    rw [parseAndRender, hp] at h
    cases h

/-- A file whose program is printed has a token table. -/
theorem status_tokens_of_parse {verbose : Bool} {path : String}
    {content : Except OpenFault ByteArray} {report : Report}
    (h : Command.report .parse verbose path content = .ok report) (hs : report.status = 0) :
    ∃ report', Command.report .tokens verbose path content = .ok report' ∧ report'.status = 0 := by
  unfold Command.report at h ⊢
  split at h
  · cases h
  · rename_i hpath
    rw [if_neg hpath]
    cases content with
    | error fault =>
      cases h
      cases hs
    | ok bytes =>
      cases hsource : SourceText.ofBytes? bytes with
      | none =>
        simp only [hsource] at h
        cases h
      | some source =>
        simp only [hsource] at h ⊢
        obtain ⟨p, hp⟩ := exists_parse_of_outline ((status_report h).1 hs)
        have hfault : (Command.tabulate source).fault = none := by
          rw [Command.tabulate, fault_of_parse_ofSource hp]
          rfl
        exact ⟨_, report_of_fault_eq_none _ hfault, rfl⟩

/-- A command line that prints a program prints a token table with the other command. -/
theorem status_respond_tokens {read : String → Except OpenFault ByteArray} {verbose : Bool}
    {rest : List String} {report : Report}
    (h : respond read (line verbose .parse rest) = .ok report) (hs : report.status = 0) :
    ∃ report', respond read (line verbose .tokens rest) = .ok report' ∧ report'.status = 0 := by
  unfold respond at h ⊢
  rw [ofArguments_line] at h ⊢
  cases hf : Request.firstAmbiguous rest with
  | some fault =>
    simp only [hf] at h
    cases h
    cases hs
  | none =>
    simp only [hf] at h ⊢
    cases hp : Request.beforePath [] rest with
    | error fault =>
      simp only [hp] at h
      cases h
      cases hs
    | ok reading =>
      cases reading with
      | help => exact ⟨_, rfl, rfl⟩
      | found found =>
        simp only [hp] at h ⊢
        by_cases hstrangers : found.strangers = []
        · simp only [if_pos hstrangers] at h ⊢
          exact status_tokens_of_parse h hs
        · simp only [if_neg hstrangers] at h
          cases h
          cases hs

end CommandLine

/-! ## The order of faults -/

open CommandLine in
/-- A source text without a lexical fault is parsed as its tokens are.  One with a lexical fault is
never parsed: where the tokens alone fail and two of them at least are left, their fault comes out,
a complaint or that of a number with too many digits, and everywhere else the lexical fault does.
So a file whose program is printed has a token table. -/
theorem lexical_precedence (source : String) :
    ((tokenize source).fault = none →
      parse (.ofSource source) = parse (.ofTokens ((tokenize source).tokens.map some))) ∧
    (∀ e, (tokenize source).fault = some e →
      (∀ p, parse (.ofSource source) ≠ .ok p) ∧
      (∀ fault read, FailsAfter (tokenize source).tokens read fault →
        read.length + 2 ≤ (tokenize source).tokens.length →
          parse (.ofSource source) = .error fault ∧
            (fault.IsComplaint ∨ ∃ t ∈ (tokenize source).tokens, fault.IsOverflowOf t)) ∧
      ((∀ fault read, FailsAfter (tokenize source).tokens read fault →
        (tokenize source).tokens.length < read.length + 2) →
          parse (.ofSource source) = .error (.lexical e))) ∧
    ∀ (read : String → Except OpenFault ByteArray) (verbose : Bool) (path : String)
      (report : Report), respond read (line verbose .parse [path]) = .ok report →
        report.status = 0 →
          ∃ report', respond read (line verbose .tokens [path]) = .ok report' ∧
            report'.status = 0 := by
  refine ⟨fun h => by rw [ofSource_of_fault_eq_none h], fun e h => ?_,
    fun read verbose path report => status_respond_tokens⟩
  refine ⟨fun p hp => ?_, fun fault read hfails hlen => ⟨?_, ?_⟩, fun hall => ?_⟩
  · rw [fault_of_parse_ofSource hp] at h
    cases h
  · rcases parse_of_fault h with ⟨fault', read', hfails', _, hp⟩ | ⟨hall, _⟩
    · rw [hp, (hfails.unique hfails').2]
    · exact absurd (hall fault read hfails) (by omega)
  · rcases fault_of_parse hfails.parse_eq with hc | ⟨e, he, _⟩ | ⟨t, ht, hoverflow⟩
    · exact .inl hc
    · cases he
    · obtain ⟨t, ht, ⟨⟩⟩ := List.mem_map.1 ht
      exact .inr ⟨t, ht, hoverflow⟩
  · rcases parse_of_fault h with ⟨fault, read, hfails, hlen, _⟩ | ⟨_, hp⟩
    · exact absurd (hall fault read hfails) (by omega)
    · exact hp

/-- The semicolon behind a name is met before the mark that begins no token, and at the end of the
list it is not. -/
theorem lexical_precedence_of_semicolon :
    parse (.ofSource "x ; y !") =
        .error (.syntactic (.afterIdentifier (some ⟨.special, ";", ⟨1, 3⟩⟩))) ∧
      parse (.ofSource "x !") = .error (.lexical ⟨.unknownCharacter "!", ⟨1, 3⟩⟩) := by
  have hfails : FailsAfter (tokenize "x ; y !").tokens []
      (.syntactic (.afterIdentifier (some ⟨.special, ";", ⟨1, 3⟩⟩))) :=
    failsAfter_iff.2 ⟨(tokenize "x ; y !").tokens, rfl, by decide +kernel⟩
  have hlen : (tokenize "x !").tokens.length = 1 := by decide +kernel
  have hfault : (tokenize "x ; y !").fault = some ⟨.unknownCharacter "!", ⟨1, 7⟩⟩ := by
    decide +kernel
  refine ⟨((lexical_precedence _).2.1 _ hfault).2.1 _ [] hfails (by decide +kernel) |>.1, ?_⟩
  apply ((lexical_precedence "x !").2.1 _ (by decide +kernel)).2.2
  intro fault read _
  rw [hlen]
  omega

end MiniLang
