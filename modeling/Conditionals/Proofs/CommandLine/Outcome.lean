import Conditionals.CommandLine.Run
import Conditionals.Proofs.Fold.Trace

/-!
# How a run ends

A run fails, shows the usage, or tells one result. `Ends` lists the ways with all that is printed in each,
and `outcome_ends` shows that there are no others: a failure prints no result and a result is printed
whole. The exit code and whether anything was printed tell the three apart (`Ends.helped_iff`,
`Ends.told_iff`), which ties them to what the command line asks for and to whether its file can be read.
-/

namespace Conditionals

theorem Diagnostic.newline_not_mem_message (diagnostic : Diagnostic) : '\n' ∉ diagnostic.message.toList := by
  obtain ⟨fault, line, kind⟩ := diagnostic
  have number : '\n' ∉ Nat.toDigits 10 line := Text.not_mem_ofNat rfl line
  have place : '\n' ∉ (toString "line ").toList ∧ '\n' ∉ (toString ": ").toList := by decide
  have name : '\n' ∉ (toString kind.display).toList := by cases kind <;> decide
  cases fault <;> simp [message, place, name, number]

namespace CommandLine

/-! ### Reading files -/

theorem fromUTF8?_eq_some_iff {bytes : ByteArray} {text : String} :
    String.fromUTF8? bytes = some text ↔ bytes = text.toUTF8 := by
  constructor
  · intro decoded
    unfold String.fromUTF8? at decoded
    split at decoded
    · cases decoded
      rfl
    · cases decoded
  · rintro rfl
    exact dif_pos text.isValidUTF8

theorem readText_eq_ok_iff {read : Reader} {file text : Text} :
    readText read file = .ok text ↔ read file = .ok (String.ofList text).toUTF8 := by
  unfold readText
  cases read file with
  | error failure => simp [bind, Except.bind]
  | ok bytes =>
    have decoded : (∃ string, String.fromUTF8? bytes = some string ∧ string.toList = text) ↔
        bytes = (String.ofList text).toUTF8 := by
      simp only [fromUTF8?_eq_some_iff]
      constructor
      · rintro ⟨string, rfl, rfl⟩
        rw [String.ofList_toList]
      · rintro rfl
        exact ⟨_, rfl, String.toList_ofList⟩
    simp only [bind, Except.bind, Except.ok.injEq, ← decoded]
    cases String.fromUTF8? bytes with
    | none => simp [throw, throwThe, MonadExceptOf.throw]
    | some string => simp [pure, Except.pure]

/-- A name of something that stands in the working directory itself. -/
structure PlainName (name : Text) : Prop where
  nonempty : name ≠ []
  flat : '/' ∉ name
  here : name ≠ ['.']
  above : name ≠ ['.', '.']
  short : Text.byteLength name ≤ nameLimit

namespace WorkingDirectory

theorem follow_plain (files : WorkingDirectory) {name : Text} (plain : PlainName name) :
    files.follow name = files.find .working name := by
  have relative : name.head? ≠ some '/' := fun slash => plain.flat (List.mem_of_head? slash)
  rw [follow, if_neg relative, List.splitOn_eq_singleton plain.flat]
  have named : files.step (.directory .working) name = files.find .working name := by
    rw [step]
    · exact plain.nonempty
    · exact plain.here
    · exact plain.above
  simp [named]

theorem read_plain (files : WorkingDirectory) {name : Text} (plain : PlainName name) (bytes : ByteArray) :
    files.read name = .ok bytes ↔ '\x00' ∉ name ∧ files.get? name = some (.file bytes) := by
  have short : ¬pathLimit < Text.byteLength name := by
    have := plain.short
    unfold nameLimit at this
    unfold pathLimit
    omega
  unfold read
  by_cases nul : '\x00' ∈ name
  · simp [nul]
  · rw [if_neg nul, if_neg short, if_neg plain.nonempty, files.follow_plain plain, and_iff_right nul]
    unfold find
    rw [if_neg (Nat.not_lt.mpr plain.short)]
    cases files.get? name with
    | none => simp [bind, Except.bind]
    | some entry =>
      cases entry with
      | file contents => simp [bind, Except.bind, pure, Except.pure]
      | directory => simp [bind, Except.bind, throw, throwThe, MonadExceptOf.throw]

end WorkingDirectory

/-! ### What is printed -/

/-- Mistakes in how the program is called, and lines that are no numbers. -/
inductive Error.Misuse : Error → Prop where
  | option (argument : Text) : Misuse (.unknownOption argument)
  | command (name : Text) : Misuse (.unknownCommand name)
  | arguments (name : Text) : Misuse (.wrongArguments name)
  | line (value : Text) : Misuse (.invalidLine value)

theorem Error.wantsUsage_iff {error : Error} : error.wantsUsage = true ↔ error.Misuse := by
  constructor
  · intro wants
    cases error with
    | unknownOption argument => exact .option argument
    | unknownCommand name => exact .command name
    | wrongArguments name => exact .arguments name
    | invalidLine value => exact .line value
    | unknownCategory unknown => cases wants
    | unreadable file failure => cases wants
  · intro misuse
    cases misuse <;> rfl

/-- One line for each diagnostic, in their order, and nothing else. -/
def Warned (diagnostics : List Diagnostic) (printed : String) : Prop :=
  printed.toList.splitOn '\n' =
    diagnostics.map (fun diagnostic => ("warning: " ++ diagnostic.message).toList) ++ [[]]

theorem warned_warnings (diagnostics : List Diagnostic) : Warned diagnostics (warnings diagnostics) := by
  unfold Warned warnings
  rw [String.toList_join]
  induction diagnostics with
  | nil => rfl
  | cons diagnostic rest ih =>
    have line : '\n' ∉ ("warning: " ++ diagnostic.message).toList := by
      rw [String.toList_append, List.mem_append, not_or]
      exact ⟨by decide, diagnostic.newline_not_mem_message⟩
    have newline : "\n".toList = ['\n'] := rfl
    rw [List.map_cons, List.flatMap_cons, String.toList_append, newline, List.append_assoc, List.singleton_append,
      List.splitOn_append_cons_self, List.splitOn_eq_singleton line, ih]
    rfl

/-- What a task finds in a text, with the diagnostics of the scan it makes. A folding scan that nobody stops
comes to its end. -/
inductive Task.Finds (chosen : Categories) (text : Text) : Task → Report → List Diagnostic → Prop where
  | fold {folding : Fold.Folding} (scanned : (Fold.scanText chosen .never text).result = .ok folding) :
    Finds chosen text .fold (.folding folding) folding.diagnostics
  | path (line : Nat) :
    Finds chosen text (.path line) (.decorations text (Decoration.decorate text line))
      (Decoration.decorate text line).diagnostics
  | enclosing (line : Nat) :
    Finds chosen text (.enclosing line) (.enclosing (sectionAt text.terminatedLines line)) []
  | replay (cursors : List Cursor) :
    Finds chosen text (.replay cursors) (.replay (Replay.run chosen text cursors).value) []

theorem Task.report_finds (chosen : Categories) (text : Text) (task : Task) :
    task.Finds chosen text (task.report chosen text).value (task.report chosen text).value.diagnostics := by
  cases task with
  | fold => exact .fold (Fold.scan_never chosen _)
  | path line => exact .path line
  | enclosing line => exact .enclosing line
  | replay cursors => exact .replay cursors

/-! ### Endings -/

section Endings

variable (arguments : List Text) (environment : Option Text) (read : Reader)

/-- The command line asks for a task, and the text of its file can be read. -/
def Examines (json : Bool) (chosen : Categories) (task : Task) (text : Text) : Prop :=
  ∃ file, Invocation.read arguments environment = .ok { command := .examine file task, json, chosen } ∧
    read file = .ok (String.ofList text).toUTF8

/-- The command line is not understood, or its file cannot be read. -/
inductive Raises : Error → Prop where
  | line {error : Error} (wrong : Invocation.read arguments environment = .error error) : Raises error
  | file {file : Text} {task : Task} {json : Bool} {chosen : Categories} {failure : ReadFailure}
    (understood : Invocation.read arguments environment = .ok { command := .examine file task, json, chosen })
    (failed : readText read file = .error failure) : Raises (.unreadable file failure)

/-- How a run can end, and what it leaves behind. -/
inductive Ends : Outcome → Prop where
  | misused {error : Error} (raised : Raises arguments environment read error) (misuse : error.Misuse) :
    Ends { stdout := "", stderr := "error: " ++ error.message ++ "\n" ++ "\n" ++ usage, exitCode := 1 }
  | failed {error : Error} (raised : Raises arguments environment read error) (proper : ¬error.Misuse) :
    Ends { stdout := "", stderr := "error: " ++ error.message ++ "\n", exitCode := 1 }
  | helped {json : Bool} {chosen : Categories}
    (understood : Invocation.read arguments environment = .ok { command := .help, json, chosen }) :
    Ends { stdout := "", stderr := usage, exitCode := 0 }
  | plain {chosen : Categories} {task : Task} {text : Text} {report : Report} {diagnostics : List Diagnostic}
    {printed : String} (examined : Examines arguments environment read false chosen task text)
    (found : task.Finds chosen text report diagnostics) (warned : Warned diagnostics printed) :
    Ends { stdout := report.plain ++ "\n", stderr := printed, exitCode := 0 }
  | document {chosen : Categories} {task : Task} {text : Text} {report : Report} {diagnostics : List Diagnostic}
    (examined : Examines arguments environment read true chosen task text)
    (found : task.Finds chosen text report diagnostics) :
    Ends { stdout := report.document.render ++ "\n", stderr := "", exitCode := 0 }

end Endings

variable {arguments : List Text} {environment : Option Text} {read : Reader}

theorem ends_printError {error : Error} (raised : Raises arguments environment read error) :
    Ends arguments environment read { printError error with exitCode := 1 } := by
  unfold printError
  by_cases misuse : error.Misuse
  · rw [if_pos (Error.wantsUsage_iff.mpr misuse), ← String.append_assoc]
    exact .misused raised misuse
  · rw [if_neg fun wants => misuse (Error.wantsUsage_iff.mp wants), String.append_empty]
    exact .failed raised misuse

theorem outcome_ends (arguments : List Text) (environment : Option Text) (read : Reader) :
    Ends arguments environment read (outcome arguments environment read) := by
  unfold outcome execute
  cases understood : Invocation.read arguments environment with
  | error error => exact ends_printError (.line understood)
  | ok invocation =>
    obtain ⟨command, json, chosen⟩ := invocation
    cases command with
    | help => exact .helped understood
    | examine file task =>
      cases contents : readText read file with
      | error failure =>
        have ends := ends_printError (.file understood contents)
        simpa [bind, Except.bind, Invocation.run, contents] using ends
      | ok text =>
        have readable := readText_eq_ok_iff.mp contents
        have found := task.report_finds chosen text
        simp only [bind, Except.bind, Invocation.run, contents, Logged.map, printReport]
        cases json with
        | false => exact .plain ⟨file, understood, readable⟩ found (warned_warnings _)
        | true => exact .document ⟨file, understood, readable⟩ found

/-! ### Telling endings apart -/

theorem Raises.not_help {error : Error} (raised : Raises arguments environment read error) (json : Bool)
    (chosen : Categories) : Invocation.read arguments environment ≠ .ok { command := .help, json, chosen } := by
  intro help
  cases raised with
  | line wrong =>
    rw [wrong] at help
    cases help
  | file understood _ =>
    rw [understood] at help
    cases help

theorem Raises.not_examines {error : Error} (raised : Raises arguments environment read error) {json : Bool}
    {chosen : Categories} {task : Task} {text : Text} :
    ¬Examines arguments environment read json chosen task text := by
  rintro ⟨file, understood, readable⟩
  cases raised with
  | line wrong =>
    rw [wrong] at understood
    cases understood
  | file other failed =>
    rw [other] at understood
    cases understood
    rw [readText_eq_ok_iff.mpr readable] at failed
    cases failed

theorem Examines.not_help {json : Bool} {chosen : Categories} {task : Task} {text : Text}
    (examined : Examines arguments environment read json chosen task text) (json' : Bool) (chosen' : Categories) :
    Invocation.read arguments environment ≠ .ok { command := .help, json := json', chosen := chosen' } := by
  intro help
  obtain ⟨file, understood, _⟩ := examined
  rw [understood] at help
  cases help

theorem append_newline_ne (text : String) : text ++ "\n" ≠ "" := by
  simp

theorem Ends.helped_iff {ended : Outcome} (ends : Ends arguments environment read ended) :
    ended.exitCode = 0 ∧ ended.stdout = "" ↔
      ∃ json chosen, Invocation.read arguments environment = .ok { command := .help, json, chosen } := by
  cases ends with
  | misused raised _ | failed raised _ =>
    exact iff_of_false (by simp) fun ⟨json, chosen, help⟩ => raised.not_help json chosen help
  | helped understood => exact iff_of_true ⟨rfl, rfl⟩ ⟨_, _, understood⟩
  | plain examined | document examined =>
    exact iff_of_false (fun silent => append_newline_ne _ silent.2) fun ⟨json, chosen, help⟩ =>
      examined.not_help json chosen help

theorem Ends.told_iff {ended : Outcome} (ends : Ends arguments environment read ended) :
    ended.exitCode = 0 ∧ ended.stdout ≠ "" ↔
      ∃ json chosen task text, Examines arguments environment read json chosen task text := by
  cases ends with
  | misused raised _ | failed raised _ =>
    exact iff_of_false (by simp) fun ⟨_, _, _, _, examined⟩ => raised.not_examines examined
  | helped understood =>
    exact iff_of_false (by simp) fun ⟨_, _, _, _, examined⟩ => examined.not_help _ _ understood
  | plain examined | document examined =>
    exact iff_of_true ⟨rfl, append_newline_ne _⟩ ⟨_, _, _, _, examined⟩

theorem Ends.examined_iff {ended : Outcome} (ends : Ends arguments environment read ended) {file : Text}
    {task : Task} {json : Bool} {chosen : Categories}
    (understood : Invocation.read arguments environment = .ok { command := .examine file task, json, chosen }) :
    ended.exitCode = 0 ↔ ∃ text : Text, read file = .ok (String.ofList text).toUTF8 := by
  constructor
  · intro zero
    have told : ended.stdout ≠ "" := by
      intro silent
      obtain ⟨json, chosen, help⟩ := ends.helped_iff.mp ⟨zero, silent⟩
      rw [understood] at help
      cases help
    obtain ⟨_, _, _, text, _, other, readable⟩ := ends.told_iff.mp ⟨zero, told⟩
    rw [understood] at other
    cases other
    exact ⟨text, readable⟩
  · rintro ⟨text, readable⟩
    exact (ends.told_iff.mpr ⟨json, chosen, task, text, file, understood, readable⟩).1

/-- A run ends in one of the listed ways. It succeeds without a result exactly if help is asked for, and with one
exactly if a task is asked for and its file holds a text. In a working directory the latter means that such a
file stands under the name. -/
theorem outcome_threefold (arguments : List Text) (environment : Option Text) (read : Reader) :
    Ends arguments environment read (outcome arguments environment read) ∧
    ((outcome arguments environment read).exitCode = 0 ∧ (outcome arguments environment read).stdout = "" ↔
      ∃ json chosen, Invocation.read arguments environment = .ok { command := .help, json, chosen }) ∧
    ((outcome arguments environment read).exitCode = 0 ∧ (outcome arguments environment read).stdout ≠ "" ↔
      ∃ json chosen task text, Examines arguments environment read json chosen task text) ∧
    ∀ (files : WorkingDirectory) (file : Text) (task : Task) (json : Bool) (chosen : Categories),
      Invocation.read arguments environment = .ok { command := .examine file task, json, chosen } → PlainName file →
      ((outcome arguments environment files.read).exitCode = 0 ↔
        '\x00' ∉ file ∧ ∃ text : Text, files.get? file = some (.file (String.ofList text).toUTF8)) := by
  have ends := outcome_ends arguments environment read
  refine ⟨ends, ends.helped_iff, ends.told_iff, ?_⟩
  intro files file task json chosen understood plain
  rw [(outcome_ends arguments environment files.read).examined_iff understood]
  simp only [files.read_plain plain, exists_and_left]

theorem outcome_threefold_stored :
    (outcome ["fold".toList, "a.c".toList] none
      (({} : WorkingDirectory).put "a.c".toList (.file "#if A".toUTF8)).read).exitCode = 0 ∧
    (outcome ["fold".toList, "a.c".toList] none
      (({} : WorkingDirectory).put "a.c".toList .directory).read).exitCode ≠ 0 := by
  have understood : Invocation.read ["fold".toList, "a.c".toList] none =
      .ok { command := .examine "a.c".toList .fold, json := false, chosen := .standard } := by decide +kernel
  have plain : PlainName "a.c".toList := ⟨by decide, by decide, by decide, by decide, by decide⟩
  have stored := fun files => (outcome_threefold ["fold".toList, "a.c".toList] none
    (({} : WorkingDirectory).read)).2.2.2 files _ _ _ _ understood plain
  constructor
  · refine (stored _).mpr ⟨by decide, "#if A".toList, ?_⟩
    rw [WorkingDirectory.get?_put_self, String.ofList_toList]
  · intro zero
    obtain ⟨_, text, file⟩ := (stored _).mp zero
    rw [WorkingDirectory.get?_put_self] at file
    cases file

end CommandLine
end Conditionals
