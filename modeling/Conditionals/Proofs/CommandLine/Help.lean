import Conditionals.Proofs.CommandLine.Options
import Mathlib.Data.List.TakeWhile

/-!
# Asking for help

A request for help ends the reading of arguments: nothing behind it is looked at, and the words in front
of it are dropped (`Invocation.read_help`). Two things can still keep help from being shown: a wrong option
in front of the request, and a wrong list of categories in the environment if no option there has one.
`help_shown_iff` says that nothing else can.
-/

namespace Conditionals.CommandLine

namespace Argument

def asksHelp (argument : Text) : Bool :=
  argument = "-h".toList || argument = "--help".toList

theorem asksHelp_iff {argument : Text} : asksHelp argument = true ↔ Argument.of argument = .help := by
  rw [asksHelp, Bool.or_eq_true, decide_eq_true_eq, decide_eq_true_eq]
  refine ⟨?_, of_eq_help⟩
  rintro (rfl | rfl) <;> rfl

/-- A word, or an option that is known and right. -/
def Proper (argument : Text) : Prop :=
  looksOption argument = true →
    argument = jsonOption ∨ ∃ list chosen, argument = debugOption list ∧ Categories.parse list = .ok chosen

theorem fault?_eq_none_iff {argument : Text} (helpless : Argument.of argument ≠ .help) :
    fault? argument = none ↔ Proper argument := by
  obtain ⟨kind, rfl⟩ | ⟨list, kind, rfl⟩ | ⟨kind, _⟩ | ⟨kind, looks⟩ | ⟨kind, looks⟩ := of_cases argument
  · exact iff_of_true rfl fun _ => Or.inl rfl
  · have looks : looksOption (debugOption list) = true := by
      rw [← Bool.not_eq_false, ← of_eq_word_iff, kind]
      simp
    cases parsed : Categories.parse list with
    | ok chosen => exact iff_of_true (fault?_debugOption parsed) fun _ => Or.inr ⟨list, chosen, rfl, parsed⟩
    | error cause =>
      refine iff_of_false (by simp [fault?, kind, parsed]) fun proper => ?_
      rcases proper looks with json | ⟨other, chosen, same, right⟩
      · rw [json, of_json] at kind
        cases kind
      · rw [← List.append_cancel_left same, parsed] at right
        cases right
  · exact absurd kind helpless
  · refine iff_of_false (by simp [fault?, kind]) fun proper => ?_
    rcases proper looks with rfl | ⟨list, chosen, rfl, _⟩
    · cases kind
    · rw [of_debug] at kind
      cases kind
  · exact iff_of_true (fault?_word kind) fun option => by simp [looks] at option

end Argument

/-- The arguments in front of the first request for help. -/
def beforeHelp (arguments : List Text) : List Text :=
  arguments.takeWhile fun argument => !Argument.asksHelp argument

theorem plain_beforeHelp (arguments : List Text) : Plain (beforeHelp arguments) := by
  intro argument member help
  have kept := List.mem_takeWhile_imp member
  rw [Argument.asksHelp_iff.mpr help] at kept
  cases kept

theorem split_at_help {arguments : List Text} (asked : "-h".toList ∈ arguments ∨ "--help".toList ∈ arguments) :
    ∃ flag after, arguments = beforeHelp arguments ++ flag :: after ∧ Argument.of flag = .help := by
  unfold beforeHelp
  cases rest : arguments.dropWhile fun argument => !Argument.asksHelp argument with
  | nil =>
    have none := List.dropWhile_eq_nil_iff.mp rest
    rcases asked with short | long
    · cases none _ short
    · cases none _ long
  | cons flag after =>
    have stopped := List.head?_dropWhile_not (fun argument => !Argument.asksHelp argument) arguments
    rw [rest] at stopped
    refine ⟨flag, after, by rw [← rest, List.takeWhile_append_dropWhile], ?_⟩
    exact Argument.asksHelp_iff.mp (by simpa using stopped)

theorem firstFault?_eq_none_iff {arguments : List Text} (plain : Plain arguments) :
    firstFault? arguments = none ↔ ∀ argument ∈ arguments, Argument.Proper argument := by
  rw [firstFault?, List.head?_eq_none_iff, List.filterMap_eq_nil_iff]
  refine forall₂_congr fun argument member => ?_
  exact Argument.fault?_eq_none_iff (plain argument member)

theorem lastChoice?_isSome_iff {arguments : List Text} (proper : ∀ argument ∈ arguments, Argument.Proper argument) :
    (lastChoice? arguments).isSome ↔ ∃ list, debugOption list ∈ arguments := by
  constructor
  · intro some_
    obtain ⟨chosen, last⟩ := Option.isSome_iff_exists.mp some_
    obtain ⟨argument, member, choice⟩ := List.mem_filterMap.mp (List.mem_of_getLast? last)
    by_contra none
    have silent := Argument.choice?_eq_none fun list same => none ⟨list, same ▸ member⟩
    rw [silent] at choice
    cases choice
  · rintro ⟨list, member⟩
    have kind := Argument.of_debug list
    have faultless := (Argument.fault?_eq_none_iff (by simp [kind])).mpr (proper _ member)
    cases parsed : Categories.parse list with
    | ok chosen => exact exists_lastChoice member parsed
    | error cause => simp [Argument.fault?, kind, parsed] at faultless

theorem Options.exists_chosen_iff (options : Options) (environment : Option Text) :
    (∃ chosen, options.chosen environment = .ok chosen) ↔
      options.debug.isSome ∨ ∀ list, environment = some list → ∃ chosen, Categories.parse list = .ok chosen := by
  obtain ⟨json, debug, words⟩ := options
  cases debug with
  | some chosen => simp [Options.chosen]
  | none =>
    cases environment with
    | none => simp [Options.chosen]
    | some list => cases parsed : Categories.parse list <;> simp [Options.chosen, parsed, Except.mapError]

theorem Invocation.read_help {arguments : List Text}
    (asked : "-h".toList ∈ arguments ∨ "--help".toList ∈ arguments) (environment : Option Text) :
    Invocation.read arguments environment = match firstFault? (beforeHelp arguments) with
      | some error => .error error
      | none => ((Options.gather {} (beforeHelp arguments)).chosen environment).map fun chosen =>
        { command := .help, json := asksJson (beforeHelp arguments), chosen } := by
  obtain ⟨flag, after, split, help⟩ := split_at_help asked
  have options : Options.read {} arguments = match firstFault? (beforeHelp arguments) with
      | some error => .error error
      | none => .ok { Options.gather {} (beforeHelp arguments) with words := [helpWord] } := by
    nth_rewrite 1 [split]
    rw [Options.read_append (plain_beforeHelp arguments)]
    cases firstFault? (beforeHelp arguments) with
    | some error => rfl
    | none => simp only [Options.read, help]
  rw [Invocation.read, options]
  cases firstFault? (beforeHelp arguments) with
  | some error => rfl
  | none =>
    -- The choice of categories does not depend on the words.
    have same : Options.chosen { Options.gather {} (beforeHelp arguments) with words := [helpWord] } environment =
        (Options.gather {} (beforeHelp arguments)).chosen environment := rfl
    simp only [bind, Except.bind, same]
    cases (Options.gather {} (beforeHelp arguments)).chosen environment <;> rfl

/-- A request for help is granted exactly if nothing wrong stands in front of it and, unless an option there
chooses the categories, the environment lists none that are wrong. No other command comes of it. -/
theorem help_shown_iff {arguments : List Text}
    (asked : "-h".toList ∈ arguments ∨ "--help".toList ∈ arguments) (environment : Option Text) :
    ((∃ invocation, Invocation.read arguments environment = .ok invocation ∧ invocation.command = .help) ↔
      (∀ argument ∈ beforeHelp arguments, Argument.Proper argument) ∧
      ((∃ list, debugOption list ∈ beforeHelp arguments) ∨
        ∀ list, environment = some list → ∃ chosen, Categories.parse list = .ok chosen)) ∧
    ∀ invocation, Invocation.read arguments environment = .ok invocation → invocation.command = .help := by
  have plain := plain_beforeHelp arguments
  have debug : (Options.gather {} (beforeHelp arguments)).debug = lastChoice? (beforeHelp arguments) := Option.or_none
  rw [Invocation.read_help asked, ← firstFault?_eq_none_iff plain]
  cases faults : firstFault? (beforeHelp arguments) with
  | some error => simp
  | none =>
    have proper := (firstFault?_eq_none_iff plain).mp faults
    have granted := Options.exists_chosen_iff (Options.gather {} (beforeHelp arguments)) environment
    rw [debug, lastChoice?_isSome_iff proper] at granted
    rw [and_iff_right rfl, ← granted]
    cases (Options.gather {} (beforeHelp arguments)).chosen environment with
    | error error => simp [Except.map]
    | ok chosen => simp [Except.map]

/-- With a list among the options, neither that of the environment nor what follows the request is looked at. -/
theorem help_shown_iff_late :
    ∃ invocation,
      Invocation.read ["path".toList, "--debug=none".toList, "--help".toList, "--fast".toList]
        (some "verbose".toList) = .ok invocation ∧ invocation.command = .help := by
  refine (help_shown_iff (Or.inr (by decide)) _).1.mpr ⟨?_, Or.inl ⟨"none".toList, by decide +kernel⟩⟩
  have before : beforeHelp ["path".toList, "--debug=none".toList, "--help".toList, "--fast".toList] =
      ["path".toList, "--debug=none".toList] := by decide +kernel
  rw [before]
  refine List.forall_mem_cons.mpr ⟨fun option => ?_, List.forall_mem_singleton.mpr fun _ => ?_⟩
  · exact absurd option (by decide)
  · exact Or.inr ⟨"none".toList, .quiet, rfl, rfl⟩

/-- An option that is not known in front of the request, and a wrong list in the environment. -/
theorem help_refused :
    Invocation.read ["--fast".toList, "-h".toList] none = .error (.unknownOption "--fast".toList) ∧
    Invocation.read ["-h".toList] (some "verbose".toList) =
      .error (.unknownCategory { word := "verbose".toList }) ∧
    ¬∀ arguments environment, "-h".toList ∈ arguments →
      ∃ invocation, Invocation.read arguments environment = .ok invocation ∧ invocation.command = .help := by
  have option : Invocation.read ["--fast".toList, "-h".toList] none =
      .error (.unknownOption "--fast".toList) := by decide +kernel
  refine ⟨option, by decide +kernel, fun always => ?_⟩
  obtain ⟨invocation, read, _⟩ := always ["--fast".toList, "-h".toList] none (by decide)
  rw [option] at read
  cases read

end Conditionals.CommandLine
