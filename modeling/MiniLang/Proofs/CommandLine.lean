import MiniLang.CommandLine.Report
/-!
# Command lines with a command

What becomes of a command line that is a command and its arguments, behind the switch for log
entries or not: `ofArguments_line` reads the command, and `ofArguments_path` a path behind it.  The
switch in front of any command line asks for the same with log entries (`ofArguments_verbose`).

`exists_outline_eq` says what the work of `parse` comes to, and a report has status zero exactly
where the work of the command has no fault.
-/

set_option autoImplicit false

namespace MiniLang.CommandLine

open Request

/-! ## Arguments -/

/-- A command line of a command and its arguments, with the switch for log entries or without. -/
def line (verbose : Bool) (command : Command) (rest : List String) : List String :=
  if verbose then "-v" :: command.name :: rest else command.name :: rest

theorem ofName?_name (command : Command) : Command.ofName? command.name = some command := by
  cases command <;> decide

theorem form_name (command : Command) :
    Form.of programSwitches command.name.toList = .plain := by
  cases command <;> decide

theorem form_verbose : Form.of programSwitches "-v".toList = .given [.verbose] := by
  decide

/-! ## The switch for log entries -/

/-- The same request, with log entries. -/
def Request.verbosely : Request → Request
  | .help page => .help page
  | .run _ command path => .run true command path

theorem map_verbosely_ofCommand (verbose : Bool) (strangers : List String) (name : String)
    (rest : List String) :
    (ofCommand verbose strangers name rest).map Request.verbosely =
      ofCommand true strangers name rest := by
  unfold ofCommand
  cases Command.ofName? name with
  | none => rfl
  | some command =>
    simp only
    cases beforePath [] rest with
    | error fault => rfl
    | ok reading =>
      cases reading with
      | help => rfl
      | found found =>
        simp only
        split <;> rfl

/-- Once the switch has been read, more of it makes no difference. -/
theorem map_verbosely_beforeCommand (verbose : Bool) (strangers arguments : List String) :
    (beforeCommand verbose strangers arguments).map Request.verbosely =
      beforeCommand true strangers arguments := by
  induction arguments generalizing verbose strangers with
  | nil => rfl
  | cons argument rest ih =>
    rw [beforeCommand, beforeCommand]
    split
    · split
      · rfl
      · exact map_verbosely_ofCommand verbose strangers argument rest
    · split
      · split
        · rfl
        · exact ih true strangers
      · rfl
      · exact ih verbose _
      · exact map_verbosely_ofCommand verbose strangers argument rest

theorem firstAmbiguous_verbose (arguments : List String) :
    firstAmbiguous ("-v" :: arguments) = firstAmbiguous arguments := by
  have hne : "-v" ≠ divider := by decide
  rw [firstAmbiguous, if_neg hne, form_verbose]

theorem beforeCommand_verbose (strangers arguments : List String) :
    beforeCommand false strangers ("-v" :: arguments) =
      beforeCommand true strangers arguments := by
  have hne : "-v" ≠ divider := by decide
  rw [beforeCommand, if_neg hne, form_verbose]
  rfl

/-- The switch for log entries in front of a command line asks for the same with log entries. -/
theorem ofArguments_verbose (arguments : List String) :
    ofArguments ("-v" :: arguments) = (ofArguments arguments).map Request.verbosely := by
  rw [ofArguments, ofArguments, firstAmbiguous_verbose]
  cases firstAmbiguous arguments with
  | some fault => rfl
  | none =>
    simp only
    rw [map_verbosely_beforeCommand, beforeCommand_verbose]

/-! ## Requests -/

theorem firstAmbiguous_line (verbose : Bool) (command : Command) (rest : List String) :
    firstAmbiguous (line verbose command rest) = firstAmbiguous rest := by
  have hname : firstAmbiguous (command.name :: rest) = firstAmbiguous rest := by
    have hne : command.name ≠ divider := by cases command <;> decide
    rw [firstAmbiguous, if_neg hne, form_name]
  cases verbose with
  | false => exact hname
  | true => exact (firstAmbiguous_verbose _).trans hname

/-- The command of a command line is read behind the switch for log entries. -/
theorem ofArguments_line (verbose : Bool) (command : Command) (rest : List String) :
    ofArguments (line verbose command rest) =
      match firstAmbiguous rest with
      | some fault => .error ⟨.program, fault⟩
      | none =>
        match beforePath [] rest with
        | .error fault => .error ⟨.command command, fault⟩
        | .ok .help => .ok (.help (.command command))
        | .ok (.found found) =>
          if found.strangers = [] then .ok (.run verbose command found.path)
          else .error ⟨.program, .unrecognized found.strangers⟩ := by
  have hname : ∀ verbose, beforeCommand verbose [] (command.name :: rest) =
      ofCommand verbose [] command.name rest := by
    intro verbose
    have hne : command.name ≠ divider := by cases command <;> decide
    rw [beforeCommand, if_neg hne, form_name]
  have hline : beforeCommand false [] (line verbose command rest) =
      ofCommand verbose [] command.name rest := by
    cases verbose with
    | false => exact hname false
    | true => exact (beforeCommand_verbose [] _).trans (hname true)
  rw [ofArguments, firstAmbiguous_line, hline, ofCommand, ofName?_name]
  rfl

/-! ## Paths -/

theorem Form.ofStranger_ne_ambiguous (text : List Char) (candidates : List Switch) :
    Form.ofStranger text ≠ .ambiguous candidates := by
  unfold Form.ofStranger
  split <;> nofun

theorem Form.ofLetters_ne_ambiguous (known before : List Switch) (switch : Switch)
    (text : List Char) (candidates : List Switch) :
    Form.ofLetters known before switch text ≠ .ambiguous candidates := by
  induction text generalizing before switch with
  | nil => nofun
  | cons c rest ih =>
    rw [Form.ofLetters]
    split
    · nofun
    · exact ih _ _

/-- Only the empty front begins the words of several switches, and a command has one of these. -/
theorem form_ne_ambiguous {text : List Char} (h : Form.of commandSwitches text = .plain)
    (candidates : List Switch) : Form.of programSwitches text ≠ .ambiguous candidates := by
  intro ha
  unfold Form.of at h ha
  -- behind two dashes the words decide, and letters behind one dash are never ambiguous
  split at ha
  · rename_i rest
    simp only [Form.ofWord, programSwitches, commandSwitches, List.filter] at h ha
    cases hhelp : (rest.takeWhile fun c => c != '=').isPrefixOf Switch.help.word.toList with
    | true =>
      rw [hhelp] at h
      simp only at h
      split at h <;> cases h
    | false =>
      cases hverbose : (rest.takeWhile fun c => c != '=').isPrefixOf
          Switch.verbose.word.toList with
      | true =>
        rw [hhelp, hverbose] at ha
        simp only at ha
        split at ha <;> cases ha
      | false =>
        rw [hhelp, hverbose] at ha
        exact Form.ofStranger_ne_ambiguous _ _ ha
  · rename_i c rest hc
    split at ha
    · unfold Form.ofLetter at ha
      split at ha
      · cases ha
      · exact Form.ofLetters_ne_ambiguous _ _ _ _ _ ha
      · exact Form.ofLetters_ne_ambiguous _ _ _ _ _ ha
    · exact Form.ofStranger_ne_ambiguous _ _ ha
  · cases ha

/-- An argument that does not begin with a dash is no switch. -/
theorem Form.of_eq_plain {known : List Switch} {text : List Char} (h : text.head? ≠ some '-') :
    Form.of known text = .plain := by
  match text with
  | [] => rfl
  | c :: cs =>
    have hc : c ≠ '-' := fun hc => h (by rw [hc]; rfl)
    unfold Form.of
    split
    · rename_i heq
      exact absurd (List.cons.inj heq).1 hc
    · rename_i heq
      exact absurd (List.cons.inj heq).1 hc
    · rfl

/-- A command with an argument that is no switch is asked for on the path that it names. -/
theorem ofArguments_path {path : String} (h : Form.of commandSwitches path.toList = .plain)
    (verbose : Bool) (command : Command) :
    ofArguments (line verbose command [path]) = .ok (.run verbose command path) := by
  have hne : path ≠ divider := by
    rintro rfl
    revert h
    decide
  have hambiguous : firstAmbiguous [path] = none := by
    rw [firstAmbiguous, if_neg hne]
    split
    · rename_i candidates ha
      exact absurd ha (form_ne_ambiguous h candidates)
    · rfl
  have hbefore : beforePath [] [path] = .ok (.found ⟨path, []⟩) := by
    rw [beforePath, if_neg hne, h]
    rfl
  rw [ofArguments_line, hambiguous]
  simp only [hbefore, ↓reduceIte]

/-! ## Work -/

/-- The work of `parse` on a source text: what parsing it and printing the tree come to, with some
log entries. -/
theorem exists_outline_eq (source : String) :
    ∃ log, Command.outline source =
      match parseAndRender (.ofSource source) with
      | .ok text => ⟨text, log, none⟩
      | .error fault => ⟨"", log, some fault⟩ := by
  unfold Command.outline parseAndRender parse
  cases Window.start (.ofSource source) with
  | error e => exact ⟨[], rfl⟩
  | ok w =>
    simp only [Window.program]
    cases (readItems [] w).ending with
    | fail fault w₁ => exact ⟨_, rfl⟩
    | ok u w₁ =>
      simp only [Outcome.andThen_ok, Outcome.result]
      cases (Node.program (readItems [] w).items).render <;> exact ⟨_, rfl⟩

/-! ## Reports -/

/-- A report says that all went well exactly where the work of the command has no fault. -/
theorem status_report {work : Work} {told : String} {report : Report}
    (h : work.report told = .ok report) : report.status = 0 ↔ work.fault = none := by
  unfold Work.report at h
  split at h
  · rename_i hf
    cases h
    simp [hf]
  · rename_i hf
    split at h
    · cases h
      simp [hf]
    · cases h

theorem report_of_fault_eq_none {work : Work} (told : String) (h : work.fault = none) :
    work.report told = .ok ⟨0, work.output, told⟩ := by
  rw [Work.report, h]

end MiniLang.CommandLine
