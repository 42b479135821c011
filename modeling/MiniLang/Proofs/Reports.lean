import Mathlib.Data.List.Forall2
import MiniLang.Proofs.CommandLine
import MiniLang.Proofs.Faults
import MiniLang.Proofs.WellFormed
/-!
# What commands report

A command line of a command and a path comes to what opening the path gives, and, if that is a text
in UTF-8, to what parsing or tokenizing the text gives.

There is a report in every case but two: bytes that are no UTF-8, and a program to be parsed that is
read up to a number of too many digits (`exists_report_iff`).  A report of `parse` has the outline
of the program or nothing for its output, a report of `tokens` has a row for each token up to the
fault, and log entries change neither that nor the exit status (`respond_eq`).
-/

set_option autoImplicit false

namespace MiniLang

/-! ## Files -/

/-- The bytes that write a text have this text, with its lines ended by line feeds. -/
theorem SourceText.ofBytes?_toUTF8 (text : String) :
    ofBytes? text.toUTF8 = some (normalize text) := by
  rw [ofBytes?, String.fromUTF8?, String.toUTF8_eq_toByteArray, dif_pos text.isValidUTF8]
  rfl

/-- The bytes of a file have no text where they write none. -/
theorem SourceText.ofBytes?_eq_none {bytes : ByteArray} (h : ∀ text : String, text.toUTF8 ≠ bytes) :
    ofBytes? bytes = none := by
  have hvalid : ¬ bytes.IsValidUTF8 := fun hb => h (.fromUTF8 bytes hb) rfl
  rw [ofBytes?, String.fromUTF8?, dif_neg hvalid]
  rfl

namespace CommandLine

/-! ## Command lines with a path -/

/-- A command and a path ask for a report on the path. -/
theorem respond_path {path : String} (h : Form.of Request.commandSwitches path.toList = .plain)
    (read : String → Except OpenFault ByteArray) (verbose : Bool) (command : Command) :
    respond read (line verbose command [path]) = command.report verbose path (read path) := by
  rw [respond, ofArguments_path h]

/-! ## Work -/

/-- A program that is parsed is printed. -/
theorem exists_parseAndRender_eq {stream : Stream} {p : Node} (h : parse stream = .ok p) :
    ∃ text, p.render = .ok text ∧ parseAndRender stream = .ok text := by
  obtain ⟨text, htext⟩ := (program_of_parse h).exists_render
  exact ⟨text, htext, by rw [parseAndRender, h]; exact htext⟩

/-- Whatever parsing a source text fails with is a fault of its characters or of the order of its
tokens, or that of a token with too many digits. -/
theorem fault_of_parse_ofSource_error {source : String} {fault : Fault}
    (h : parse (.ofSource source) = .error fault) :
    (∃ e, fault = .lexical e) ∨ (∃ e, fault = .syntactic e) ∨
      ∃ t ∈ (tokenize source).tokens, fault.IsOverflowOf t := by
  rcases fault_of_parse h with (⟨_, _, hf⟩ | ⟨_, hf⟩ | ⟨_, hf⟩) | ⟨e, _, hf⟩ | ⟨t, ht, hf⟩
  · exact .inr (.inl ⟨_, hf⟩)
  · exact .inr (.inl ⟨_, hf⟩)
  · exact .inr (.inl ⟨_, hf⟩)
  · exact .inl ⟨e, hf⟩
  · obtain ⟨t, ht, ⟨⟩⟩ := List.mem_map.1 ht
    exact .inr (.inr ⟨t, ht, hf⟩)

/-- The work of a command on a source text breaks down at a number of too many digits: parsing has
come to it, and its fault has no line. -/
def Command.BreaksAt (command : Command) (source : String) (fault : Fault) : Prop :=
  command = .parse ∧ MiniLang.parse (.ofSource source) = .error fault ∧
    ∃ t ∈ (tokenize source).tokens, fault.IsOverflowOf t

theorem faultLine?_of_isOverflowOf {fault : Fault} {t : Token} (h : fault.IsOverflowOf t) :
    faultLine? fault = none := by
  obtain ⟨-, -, rfl⟩ := h
  rfl

theorem fault_outline_of_error {source : String} {fault : Fault}
    (h : parse (.ofSource source) = .error fault) :
    (Command.outline source).fault = some fault := by
  obtain ⟨log, hwork⟩ := exists_outline_eq source
  rw [hwork, parseAndRender, h]

/-- The fault that ends the work of a command has a line of its own, unless the work breaks down. -/
theorem exists_faultLine {command : Command} {source : String} {fault : Fault}
    (h : (command.work source).fault = some fault) :
    (∃ line, faultLine? fault = some line) ∨ command.BreaksAt source fault := by
  cases command with
  | tokens =>
    obtain ⟨e, _, rfl⟩ := Option.map_eq_some_iff.1 h
    exact .inl ⟨_, rfl⟩
  | parse =>
    cases hp : parse (.ofSource source) with
    | ok p =>
      obtain ⟨log, hwork⟩ := exists_outline_eq source
      obtain ⟨text, _, htext⟩ := exists_parseAndRender_eq hp
      rw [Command.work, hwork, htext] at h
      cases h
    | error fault' =>
      rw [Command.work, fault_outline_of_error hp] at h
      cases h
      rcases fault_of_parse_ofSource_error hp with ⟨e, rfl⟩ | ⟨e, rfl⟩ | hoverflow
      · exact .inl ⟨_, rfl⟩
      · exact .inl ⟨_, rfl⟩
      · exact .inr ⟨rfl, hp, hoverflow⟩

/-! ## There is a report -/

/-- What a report may be: all went well; the source text has a fault, which the last line of the
error output names; or the path cannot be read, which the error output says. -/
inductive Report.Accounts (path : String) : Report → Prop where
  | done (output told : String) : Accounts path ⟨0, output, told⟩
  | faulty (output told : String) {fault : Fault} {line : String}
      (h : faultLine? fault = some line) : Accounts path ⟨1, output, told ++ line⟩
  | unreadable (fault : OpenFault) :
      Accounts path
        ⟨2, "", "Error: cannot read '" ++ path ++ "': " ++ fault.message ++ "\n"⟩

/-- Work that breaks down makes no report. -/
theorem Command.BreaksAt.report_eq {command : Command} {source : String} {fault : Fault}
    (h : command.BreaksAt source fault) (told : String) :
    (command.work source).report told = .error (.fault fault) := by
  obtain ⟨rfl, hp, t, _, hoverflow⟩ := h
  rw [Work.report, Command.work, fault_outline_of_error hp]
  simp only [faultLine?_of_isOverflowOf hoverflow]

/-- Parsing breaks down where more decimal digits are assigned than a number may have. -/
theorem Command.breaksAt_of_digits {digits gap : List Char} (hall : digits.all Char.isDigit = true)
    (hgap : ∀ c ∈ gap, isLayout c = true) (hl : Text.digitLimit < digits.length) :
    Command.parse.BreaksAt (assignmentText digits gap) (.tooManyDigits digits.length) := by
  have hparse := (parse_assignment_of_digits hall hgap hl).2
  rcases fault_of_parse_ofSource_error hparse with ⟨e, he⟩ | ⟨e, he⟩ | hoverflow
  · cases he
  · cases he
  · exact ⟨rfl, hparse, hoverflow⟩

/-- Any other work of a command on a source text makes one. -/
theorem report_work_cases (command : Command) (source told path : String) :
    ((∃ report, (command.work source).report told = .ok report ∧ report.Accounts path) ∧
        ∀ fault, ¬ command.BreaksAt source fault) ∨
      ∃ fault, (command.work source).report told = .error (.fault fault) ∧
        command.BreaksAt source fault := by
  by_cases hbreaks : ∃ fault, command.BreaksAt source fault
  · obtain ⟨fault, hbreaks⟩ := hbreaks
    exact .inr ⟨fault, hbreaks.report_eq told, hbreaks⟩
  · refine .inl ⟨?_, not_exists.1 hbreaks⟩
    unfold Work.report
    cases hf : (command.work source).fault with
    | none => exact ⟨_, rfl, .done _ _⟩
    | some fault =>
      obtain ⟨line, hline⟩ := (exists_faultLine hf).resolve_right fun h => hbreaks ⟨fault, h⟩
      simp only [hline]
      exact ⟨_, rfl, .faulty _ _ hline⟩

section

variable {path : String} (hnull : '\x00' ∉ path.toList) (command : Command) (verbose : Bool)

include hnull

/-- The report on a path that cannot be read. -/
theorem report_of_unreadable (fault : OpenFault) :
    command.report verbose path (.error fault) =
      .ok ⟨2, "", "Error: cannot read '" ++ path ++ "': " ++ fault.message ++ "\n"⟩ := by
  unfold Command.report
  rw [if_neg (by simpa using hnull)]

/-- The report on a file that holds a text in UTF-8. -/
theorem report_of_text (text : String) :
    let source := SourceText.normalize text
    command.report verbose path (.ok text.toUTF8) =
      (command.work source).report
        (logText verbose (.sourceRead source.length path :: (command.work source).log)) := by
  unfold Command.report
  rw [if_neg (by simpa using hnull)]
  simp only [SourceText.ofBytes?_toUTF8]

/-- There is no report on a file that holds no text in UTF-8. -/
theorem report_of_undecodable {bytes : ByteArray} (h : ∀ text : String, text.toUTF8 ≠ bytes) :
    command.report verbose path (.ok bytes) = .error .undecodable := by
  unfold Command.report
  rw [if_neg (by simpa using hnull)]
  simp only [SourceText.ofBytes?_eq_none h]

end

/-- A command on a path comes to a report, whatever opening the path gives, unless it gives bytes
that write no text in UTF-8 or a text that is parsed up to a number of too many digits; and every
report accounts for what has become of the path. -/
theorem exists_report_iff {path : String} (hpath : path.toList.head? ≠ some '-')
    (hnull : '\x00' ∉ path.toList) (read : String → Except OpenFault ByteArray) (verbose : Bool)
    (command : Command) :
    ((∃ report, respond read (line verbose command [path]) = .ok report) ↔
      ∀ bytes, read path = .ok bytes → ∃ text : String, text.toUTF8 = bytes ∧
        ∀ fault, ¬ command.BreaksAt (SourceText.normalize text) fault) ∧
    (∀ report, respond read (line verbose command [path]) = .ok report → report.Accounts path) ∧
    ∀ breakdown, respond read (line verbose command [path]) = .error breakdown →
      breakdown = .undecodable ∨ ∃ (text : String) (fault : Fault), read path = .ok text.toUTF8 ∧
        command.BreaksAt (SourceText.normalize text) fault ∧ breakdown = .fault fault := by
  rw [respond_path (Form.of_eq_plain hpath)]
  cases read path with
  | error fault =>
    rw [report_of_unreadable hnull]
    refine ⟨⟨fun _ _ h => ?_, fun _ => ⟨_, rfl⟩⟩, fun _ h => ?_, fun _ h => ?_⟩
    · cases h
    · cases h
      exact .unreadable fault
    · cases h
  | ok bytes =>
    by_cases htext : ∃ text : String, text.toUTF8 = bytes
    · obtain ⟨text, rfl⟩ := htext
      rw [report_of_text hnull]
      rcases report_work_cases command (SourceText.normalize text)
          (logText verbose (.sourceRead _ path :: _)) path with
        ⟨⟨report, hreport, haccounts⟩, hbreaks⟩ | ⟨fault, hreport, hbreaks⟩
      · rw [hreport]
        refine ⟨⟨fun _ _ h => ?_, fun _ => ⟨report, rfl⟩⟩, fun _ h => ?_, fun _ h => ?_⟩
        · cases h
          exact ⟨text, rfl, hbreaks⟩
        · cases h
          exact haccounts
        · cases h
      · rw [hreport]
        refine ⟨⟨fun ⟨_, h⟩ => ?_, fun h => ?_⟩, fun _ h => ?_, fun _ h => ?_⟩
        · cases h
        · -- the bytes write no other text
          obtain ⟨text', hsame, hnone⟩ := h _ rfl
          have heq : text' = text := String.toByteArray_inj.1 hsame
          exact absurd hbreaks (heq ▸ hnone fault)
        · cases h
        · cases h
          exact .inr ⟨text, fault, rfl, hbreaks, rfl⟩
    · rw [report_of_undecodable hnull _ _ (not_exists.1 htext)]
      refine ⟨⟨fun ⟨_, h⟩ => ?_, fun h => ?_⟩, fun _ h => ?_, fun _ h => ?_⟩
      · cases h
      · obtain ⟨text, hbytes, _⟩ := h bytes rfl
        exact absurd ⟨text, hbytes⟩ htext
      · cases h
      · cases h
        exact .inl rfl

/-- A file of two bytes, the second of which begins nothing in UTF-8, has no report, and a path that
leads to no file has one. -/
theorem exists_report_iff_of_byte :
    let folder : Folder := ⟨[("p.pt", some ⟨#[0x78, 0xff]⟩)]⟩
    respond folder.read ["parse", "p.pt"] = .error .undecodable ∧
      ∃ report, respond folder.read ["-v", "tokens", "q.pt"] = .ok report ∧
        report.Accounts "q.pt" := by
  intro folder
  have hread : folder.read "p.pt" = .ok ⟨#[0x78, 0xff]⟩ := by rfl
  have hinvalid : ¬ (⟨#[0x78, 0xff]⟩ : ByteArray).IsValidUTF8 := by decide +kernel
  obtain ⟨hreport, -, hbreakdown⟩ := @exists_report_iff "p.pt" (by decide) (by decide)
    folder.read false .parse
  obtain ⟨hreport', haccounts, -⟩ := @exists_report_iff "q.pt" (by decide) (by decide)
    folder.read true .tokens
  constructor
  · cases hrespond : respond folder.read ["parse", "p.pt"] with
    | ok report =>
      obtain ⟨text, htext, _⟩ := hreport.1 ⟨report, hrespond⟩ _ hread
      exact absurd (htext ▸ text.isValidUTF8) hinvalid
    | error breakdown =>
      rcases hbreakdown breakdown hrespond with rfl | ⟨text, _, htext, _⟩
      · rfl
      · have hbytes := Except.ok.inj (hread.symm.trans htext)
        exact absurd (hbytes ▸ text.isValidUTF8) hinvalid
  · obtain ⟨report, hrespond⟩ := hreport'.2 fun bytes h => by cases h
    exact ⟨report, hrespond, haccounts report hrespond⟩

/-! ## What a report says -/

namespace Table

/-- A cell of a column: a text with blanks around it, as many behind it as in front or one more, and
no more than make it as wide as the column. -/
def IsCell (width : Nat) (text cell : String) : Prop :=
  ∃ left right, cell = blanks left ++ text ++ blanks right ∧ left ≤ right ∧ right ≤ left + 1 ∧
    left + text.length + right = max width text.length

theorem isCell_centred (width : Nat) (text : String) : IsCell width text (centred width text) := by
  refine ⟨_, _, rfl, ?_, ?_, ?_⟩
  · omega
  · omega
  · omega

/-- A row of a token: its line, its column and its kind in the middle of their columns, and its
text as it is. -/
def IsRow (token : Token) (row : String) : Prop :=
  ∃ line column kind, IsCell 10 (toString token.position.line) line ∧
    IsCell 10 (toString token.position.column) column ∧ IsCell 15 token.kind.name kind ∧
    row = "| " ++ line ++ " | " ++ column ++ " | " ++ kind ++ " |   " ++ token.text ++ "\n"

theorem isRow_tokenRow (token : Token) : IsRow token (tokenRow token) := by
  refine ⟨_, _, _, isCell_centred 10 _, isCell_centred 10 _, isCell_centred 15 _, ?_⟩
  have hgap : " |   " = " | " ++ "  " := by decide
  rw [tokenRow, row, hgap]
  simp only [String.append_assoc]

/-- The names of the columns stand in the middle of theirs. -/
theorem heading_eq_lines :
    heading = "|    Line    |   Column   |      Token      |   Value   \n"
      ++ "|------------|------------|-----------------|------------\n" := by
  decide +kernel

theorem forall₂_isRow (tokens : List Token) : List.Forall₂ IsRow tokens (tokens.map tokenRow) :=
  List.forall₂_map_right_iff.2 (List.forall₂_same.2 fun token _ => isRow_tokenRow token)

end Table

theorem report_of_faultLine {work : Work} {fault : Fault} {line : String} (told : String)
    (h : work.fault = some fault) (hline : faultLine? fault = some line) :
    work.report told = .ok ⟨1, work.output, told ++ line⟩ := by
  rw [Work.report, h]
  simp only [hline]

/-- The log entries go to the error output and nowhere else. -/
theorem map_report_told (work : Work) (told told' : String) :
    (work.report told).map (fun report => (report.status, report.output)) =
      (work.report told').map fun report => (report.status, report.output) := by
  unfold Work.report
  cases work.fault with
  | none => rfl
  | some fault =>
    simp only
    cases faultLine? fault <;> rfl

theorem map_report_verbose (command : Command) (verbose verbose' : Bool) (path : String)
    (content : Except OpenFault ByteArray) :
    (command.report verbose path content).map (fun report => (report.status, report.output)) =
      (command.report verbose' path content).map
        fun report => (report.status, report.output) := by
  unfold Command.report
  split
  · rfl
  · cases content with
    | error fault => rfl
    | ok bytes =>
      simp only
      cases SourceText.ofBytes? bytes with
      | none => rfl
      | some source => exact map_report_told _ _ _

/-- The switch for log entries in front of a command line changes nothing but the error output. -/
theorem map_respond_verbose (read : String → Except OpenFault ByteArray)
    (arguments : List String) :
    (respond read ("-v" :: arguments)).map (fun report => (report.status, report.output)) =
      (respond read arguments).map fun report => (report.status, report.output) := by
  unfold respond
  rw [ofArguments_verbose]
  cases Request.ofArguments arguments with
  | error refusal => rfl
  | ok request =>
    cases request with
    | help page => rfl
    | run verbose command path => exact map_report_verbose command true verbose path (read path)

section

variable {read : String → Except OpenFault ByteArray} {path text : String}
  (hpath : Form.of Request.commandSwitches path.toList = .plain) (hnull : '\x00' ∉ path.toList)
  (hread : read path = .ok text.toUTF8)

include hpath hnull hread

/-- The report of a command on a file that holds a text in UTF-8, without log entries. -/
theorem respond_text (command : Command) :
    respond read [command.name, path] =
      (command.work (SourceText.normalize text)).report "" := by
  have hrespond := respond_path hpath read false command
  rw [hread, report_of_text hnull] at hrespond
  exact hrespond

/-- A program that is parsed is printed, and nothing besides. -/
theorem respond_parse_of_ok {p : Node} (h : parse (.ofSource (SourceText.normalize text)) = .ok p) :
    ∃ outline, p.render = .ok outline ∧
      respond read ["parse", path] = .ok ⟨0, outline, ""⟩ := by
  obtain ⟨outline, hrender, hparse⟩ := exists_parseAndRender_eq h
  obtain ⟨log, hwork⟩ := exists_outline_eq (SourceText.normalize text)
  refine ⟨outline, hrender, (respond_text hpath hnull hread .parse).trans ?_⟩
  rw [Command.work, hwork, hparse]
  rfl

/-- Where parsing fails nothing is printed, and the line of the fault is reported. -/
theorem respond_parse_of_error {fault : Fault} {line : String}
    (h : parse (.ofSource (SourceText.normalize text)) = .error fault)
    (hline : faultLine? fault = some line) :
    respond read ["parse", path] = .ok ⟨1, "", line⟩ := by
  obtain ⟨log, hwork⟩ := exists_outline_eq (SourceText.normalize text)
  refine (respond_text hpath hnull hread .parse).trans ?_
  rw [Command.work, hwork, parseAndRender, h, report_of_faultLine "" rfl hline, String.empty_append]

/-- Where it comes to a number of too many digits, there is no report. -/
theorem respond_parse_of_breaksAt {fault : Fault}
    (h : Command.parse.BreaksAt (SourceText.normalize text) fault) :
    respond read ["parse", path] = .error (.fault fault) :=
  (respond_text hpath hnull hread .parse).trans (h.report_eq "")

/-- All tokens are printed where there is no lexical fault. -/
theorem respond_tokens_of_ok (h : (tokenize (SourceText.normalize text)).fault = none) :
    respond read ["tokens", path] =
      .ok ⟨0, table (tokenize (SourceText.normalize text)).tokens, ""⟩ := by
  refine (respond_text hpath hnull hread .tokens).trans ?_
  rw [Command.work, Command.tabulate, h]
  rfl

/-- The tokens before a lexical fault are printed, and the fault is reported. -/
theorem respond_tokens_of_error {e : LexicalFault} {line : String}
    (h : (tokenize (SourceText.normalize text)).fault = some e)
    (hline : faultLine? (.lexical e) = some line) :
    respond read ["tokens", path] =
      .ok ⟨1, table (tokenize (SourceText.normalize text)).tokens, line⟩ := by
  refine (respond_text hpath hnull hread .tokens).trans ?_
  rw [Command.work, Command.tabulate, h, report_of_faultLine "" rfl hline, String.empty_append]

end

/-- The commands report what the library comes to.  Of a file that holds a text in UTF-8, `parse`
prints the outline of the program and nothing besides, or nothing but the fault of parsing, but it
reports nothing if a token is met that writes a number of too many digits, as it is where more than
so many digits are assigned; and `tokens` prints two lines of heading and a row for each token, in
their order, up to the lexical fault if there is one.
The path may be any that is not taken for a switch, as one that begins with a dash may be.  Whatever
the command line and the file, the switch for log entries changes neither the exit status nor the
output. -/
theorem respond_eq (read : String → Except OpenFault ByteArray) :
    (∀ path text source : String, Form.of Request.commandSwitches path.toList = .plain →
      '\x00' ∉ path.toList → read path = .ok text.toUTF8 → source = SourceText.normalize text →
      (∀ p, parse (.ofSource source) = .ok p →
        ∃ outline, p.render = .ok outline ∧
          respond read ["parse", path] = .ok ⟨0, outline, ""⟩) ∧
      (∀ fault, parse (.ofSource source) = .error fault →
        (∃ e, fault = .lexical e ∧
          respond read ["parse", path] = .ok ⟨1, "", "Lexer error: " ++ e.message ++ "\n"⟩) ∨
        (∃ e, fault = .syntactic e ∧
          respond read ["parse", path] = .ok ⟨1, "", "Parser error: " ++ e.message ++ "\n"⟩) ∨
        (∃ t ∈ (tokenize source).tokens, fault.IsOverflowOf t) ∧
          respond read ["parse", path] = .error (.fault fault)) ∧
      (∀ digits gap, digits.all Char.isDigit = true → (∀ c ∈ gap, isLayout c = true) →
        Text.digitLimit < digits.length → source = assignmentText digits gap →
          respond read ["parse", path] = .error (.fault (.tooManyDigits digits.length))) ∧
      ∃ rows output, List.Forall₂ Table.IsRow (tokenize source).tokens rows ∧
        output = "|    Line    |   Column   |      Token      |   Value   \n"
          ++ "|------------|------------|-----------------|------------\n" ++ String.join rows ∧
        ((tokenize source).fault = none →
          respond read ["tokens", path] = .ok ⟨0, output, ""⟩) ∧
        ∀ e, (tokenize source).fault = some e →
          respond read ["tokens", path] =
            .ok ⟨1, output, "Lexer error: " ++ e.message ++ "\n"⟩) ∧
    ∀ arguments : List String,
      (respond read ("-v" :: arguments)).map (fun report => (report.status, report.output)) =
        (respond read arguments).map fun report => (report.status, report.output) := by
  refine ⟨?_, map_respond_verbose read⟩
  rintro path text _ hpath hnull hread rfl
  refine ⟨fun p h => respond_parse_of_ok hpath hnull hread h, fun fault h => ?_,
    fun digits gap hall hgap hl hsource => ?_,
    (tokenize (SourceText.normalize text)).tokens.map Table.tokenRow, _, Table.forall₂_isRow _,
    rfl, fun h => ?_, fun e h => ?_⟩
  · rcases fault_of_parse_ofSource_error h with ⟨e, rfl⟩ | ⟨e, rfl⟩ | hoverflow
    · exact .inl ⟨e, rfl, respond_parse_of_error hpath hnull hread h rfl⟩
    · exact .inr (.inl ⟨e, rfl, respond_parse_of_error hpath hnull hread h rfl⟩)
    · have hbreaks : Command.parse.BreaksAt (SourceText.normalize text) fault := ⟨rfl, h, hoverflow⟩
      exact .inr (.inr ⟨hoverflow, respond_parse_of_breaksAt hpath hnull hread hbreaks⟩)
  · refine respond_parse_of_breaksAt hpath hnull hread ?_
    rw [hsource]
    exact Command.breaksAt_of_digits hall hgap hl
  · rw [respond_tokens_of_ok hpath hnull hread h, table, Table.heading_eq_lines]
  · rw [respond_tokens_of_error hpath hnull hread h rfl, table, Table.heading_eq_lines]

/-- The fault stands on the second line once the carriage return is gone, behind three rows of the
table and an item of the program that is not printed. -/
theorem respond_eq_of_mark :
    let folder : Folder := ⟨[("p.pt", some "x = 1\r\n!".toUTF8)]⟩
    let line := "Lexer error: " ++ LexicalFault.message ⟨.unknownCharacter "!", ⟨2, 1⟩⟩ ++ "\n"
    respond folder.read ["parse", "p.pt"] = .ok ⟨1, "", line⟩ ∧
      ∃ rows output, rows.length = 3 ∧
        output = "|    Line    |   Column   |      Token      |   Value   \n"
          ++ "|------------|------------|-----------------|------------\n" ++ String.join rows ∧
        respond folder.read ["tokens", "p.pt"] = .ok ⟨1, output, line⟩ ∧
        (respond folder.read ["-v", "tokens", "p.pt"]).map
          (fun report => (report.status, report.output)) = .ok (1, output) := by
  intro folder line
  obtain ⟨htext, hverbose⟩ := respond_eq folder.read
  obtain ⟨-, hparse, -, rows, output, hrows, houtput, -, htokens⟩ :=
    htext "p.pt" "x = 1\r\n!" "x = 1\n!\n" (by decide) (by decide) rfl (by decide +kernel)
  have hfault : (tokenize "x = 1\n!\n").fault = some ⟨.unknownCharacter "!", ⟨2, 1⟩⟩ := by
    decide +kernel
  have htable := htokens _ hfault
  refine ⟨?_, rows, output, ?_, houtput, htable, ?_⟩
  · have hfails : parse (.ofSource "x = 1\n!\n") =
        .error (.lexical ⟨.unknownCharacter "!", ⟨2, 1⟩⟩) := by decide +kernel
    rcases hparse _ hfails with ⟨e, he, hrespond⟩ | ⟨e, he, _⟩ | ⟨⟨t, _, _, _, hf⟩, _⟩
    · cases he
      exact hrespond
    · cases he
    · cases hf
  · rw [← hrows.length_eq]
    decide +kernel
  · exact (hverbose ["tokens", "p.pt"]).trans (congrArg (Except.map _) htable)

end CommandLine

end MiniLang
