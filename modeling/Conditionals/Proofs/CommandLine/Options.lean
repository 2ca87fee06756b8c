import Conditionals.CommandLine.Invocation
import Mathlib.Data.List.Basic

/-!
# Options among words

Without a request for help, reading arguments from left to right only gathers: the first fault, whether
JSON is asked for, the last choice of categories, and the words. `Options.read_eq` says so. None of the
four depends on how options and words are mixed, which is what `options_anywhere` draws from it.
-/

namespace Conditionals.CommandLine

def jsonOption : Text := "--json".toList

def debugOption (list : Text) : Text := "--debug=".toList ++ list

namespace Argument

/-- Whether an argument looks like an option: it starts with `-` and is longer than one byte. -/
def looksOption (argument : Text) : Bool :=
  argument.head? = some '-' && 1 < Text.byteLength argument

theorem looksOption_iff (argument : Text) :
    looksOption argument = true ↔ argument.head? = some '-' ∧ 1 < argument.length := by
  unfold looksOption
  rw [Bool.and_eq_true, decide_eq_true_eq, decide_eq_true_eq]
  refine and_congr_right fun dash => ?_
  cases argument with
  | nil => cases dash
  | cons c rest =>
    obtain rfl := Option.some.inj dash
    rw [Text.byteLength_cons, List.length_cons, show Char.utf8Size '-' = 1 from rfl]
    cases rest with
    | nil => simp
    | cons d rest =>
      have wide := d.utf8Size_pos
      rw [Text.byteLength_cons, List.length_cons]
      omega

theorem of_json : Argument.of jsonOption = .json := rfl

theorem of_debug (list : Text) : Argument.of (debugOption list) = .debug list := by
  have other : debugOption list ≠ ['-', '-', 'j', 's', 'o', 'n'] := by
    intro same
    cases (List.cons.inj (List.cons.inj (List.cons.inj same).2).2).1
  have split : Text.after? ['-', '-', 'd', 'e', 'b', 'u', 'g', '='] (debugOption list) = some list :=
    Text.after?_eq_some_iff.mpr rfl
  rw [Argument.of, if_neg other, split]

/-- The kinds of arguments with all that is known about each. -/
theorem of_cases (argument : Text) :
    (Argument.of argument = .json ∧ argument = jsonOption) ∨
    (∃ list, Argument.of argument = .debug list ∧ argument = debugOption list) ∨
    (Argument.of argument = .help ∧ (argument = "-h".toList ∨ argument = "--help".toList)) ∨
    (Argument.of argument = .unknown ∧ looksOption argument = true) ∨
    (Argument.of argument = .word ∧ looksOption argument = false) := by
  unfold Argument.of
  split
  · rename_i json
    exact Or.inl ⟨rfl, json⟩
  split
  · rename_i list split
    exact Or.inr (Or.inl ⟨list, rfl, Text.after?_eq_some_iff.mp split⟩)
  split
  · rename_i help
    exact Or.inr (Or.inr (Or.inl ⟨rfl, help⟩))
  split
  · rename_i dash
    exact Or.inr (Or.inr (Or.inr (Or.inl ⟨rfl, (looksOption_iff argument).mpr dash⟩)))
  · rename_i plain
    have other := Bool.eq_false_iff.mpr fun option => plain ((looksOption_iff argument).mp option)
    exact Or.inr (Or.inr (Or.inr (Or.inr ⟨rfl, other⟩)))

theorem eq_debugOption {argument list : Text} (debug : Argument.of argument = .debug list) :
    argument = debugOption list := by
  obtain ⟨kind, _⟩ | ⟨_, kind, same⟩ | ⟨kind, _⟩ | ⟨kind, _⟩ | ⟨kind, _⟩ := of_cases argument
  all_goals
    rw [kind] at debug
    cases debug
  exact same

theorem of_eq_help {argument : Text} (help : Argument.of argument = .help) :
    argument = "-h".toList ∨ argument = "--help".toList := by
  obtain ⟨kind, _⟩ | ⟨_, kind, _⟩ | ⟨_, same⟩ | ⟨kind, _⟩ | ⟨kind, _⟩ := of_cases argument
  case inr.inr.inl => exact same
  all_goals
    rw [kind] at help
    cases help

/-- What does not look like an option is a word, and nothing else is. -/
theorem of_eq_word_iff {argument : Text} : Argument.of argument = .word ↔ looksOption argument = false := by
  obtain ⟨kind, rfl⟩ | ⟨list, kind, rfl⟩ | ⟨kind, same⟩ | ⟨kind, looks⟩ | ⟨kind, looks⟩ := of_cases argument
  · exact iff_of_false (by simp [kind]) (by decide)
  · have dashes : debugOption list = '-' :: '-' :: ("debug=".toList ++ list) := rfl
    have looks : looksOption (debugOption list) = true := by
      rw [looksOption_iff, dashes]
      exact ⟨rfl, Nat.succ_lt_succ (Nat.succ_pos _)⟩
    exact iff_of_false (by simp [kind]) (by simp [looks])
  · refine iff_of_false (by simp [kind]) ?_
    rcases same with rfl | rfl <;> decide
  · exact iff_of_false (by simp [kind]) (by simp [looks])
  · exact iff_of_true kind looks

/-- The error that an argument causes wherever it is read. -/
def fault? (argument : Text) : Option Error :=
  match Argument.of argument with
  | .debug list =>
    match Categories.parse list with
    | .ok _ => none
    | .error cause => some (.unknownCategory cause)
  | .unknown => some (.unknownOption argument)
  | .json | .help | .word => none

/-- The categories that an argument chooses. -/
def choice? (argument : Text) : Option Categories :=
  match Argument.of argument with
  | .debug list => (Categories.parse list).toOption
  | _ => none

theorem fault?_debugOption {list : Text} {chosen : Categories} (valid : Categories.parse list = .ok chosen) :
    fault? (debugOption list) = none := by
  simp only [fault?, of_debug, valid]

theorem choice?_debugOption {list : Text} {chosen : Categories} (valid : Categories.parse list = .ok chosen) :
    choice? (debugOption list) = some chosen := by
  simp only [choice?, of_debug, valid, Except.toOption]

theorem choice?_eq_none {argument : Text} (other : ∀ list, argument ≠ debugOption list) : choice? argument = none := by
  unfold choice?
  split
  · rename_i list debug
    exact absurd (eq_debugOption debug) (other list)
  · rfl

theorem fault?_word {argument : Text} (word : Argument.of argument = .word) : fault? argument = none := by
  simp only [fault?, word]

theorem choice?_word {argument : Text} (word : Argument.of argument = .word) : choice? argument = none := by
  simp only [choice?, word]

end Argument

/-! ### What reading gathers -/

/-- No argument asks for help. -/
def Plain (arguments : List Text) : Prop :=
  ∀ argument ∈ arguments, Argument.of argument ≠ .help

def firstFault? (arguments : List Text) : Option Error :=
  (arguments.filterMap Argument.fault?).head?

def asksJson (arguments : List Text) : Bool :=
  arguments.any fun argument => Argument.of argument = .json

def lastChoice? (arguments : List Text) : Option Categories :=
  (arguments.filterMap Argument.choice?).getLast?

def wordsOf (arguments : List Text) : List Text :=
  arguments.filter fun argument => Argument.of argument = .word

section Append

variable (first second : List Text)

theorem firstFault?_append : firstFault? (first ++ second) = (firstFault? first).or (firstFault? second) := by
  rw [firstFault?, List.filterMap_append, List.head?_append]
  rfl

theorem asksJson_append : asksJson (first ++ second) = (asksJson first || asksJson second) :=
  List.any_append

theorem lastChoice?_append : lastChoice? (first ++ second) = (lastChoice? second).or (lastChoice? first) := by
  rw [lastChoice?, List.filterMap_append, List.getLast?_append]
  rfl

theorem wordsOf_append : wordsOf (first ++ second) = wordsOf first ++ wordsOf second :=
  List.filter_append ..

end Append

namespace Options

/-- The options and words of more arguments. -/
def gather (seen : Options) (arguments : List Text) : Options :=
  { json := seen.json || asksJson arguments
    debug := (lastChoice? arguments).or seen.debug
    words := seen.words ++ wordsOf arguments }

theorem gather_append (seen : Options) (first second : List Text) :
    seen.gather (first ++ second) = (seen.gather first).gather second := by
  simp only [gather, asksJson_append, lastChoice?_append, wordsOf_append, Bool.or_assoc, Option.or_assoc,
    List.append_assoc]

theorem read_cons {argument : Text} (helpless : Argument.of argument ≠ .help) (seen : Options) (rest : List Text) :
    Options.read seen (argument :: rest) = match Argument.fault? argument with
      | some error => .error error
      | none => Options.read (seen.gather [argument]) rest := by
  rw [Options.read]
  cases kind : Argument.of argument with
  | json => simp [Argument.fault?, gather, asksJson, lastChoice?, wordsOf, Argument.choice?, kind]
  | debug list =>
    cases parsed : Categories.parse list with
    | ok chosen =>
      simp [Argument.fault?, gather, asksJson, lastChoice?, wordsOf, Argument.choice?, kind, parsed, Except.toOption]
    | error cause => simp [Argument.fault?, kind, parsed]
  | help => exact absurd kind helpless
  | unknown => simp [Argument.fault?, kind]
  | word => simp [Argument.fault?, gather, asksJson, lastChoice?, wordsOf, Argument.choice?, kind]

theorem read_append {before : List Text} (plain : Plain before) (seen : Options) (rest : List Text) :
    Options.read seen (before ++ rest) = match firstFault? before with
      | some error => .error error
      | none => Options.read (seen.gather before) rest := by
  -- Each argument adds to what was seen, so that has to be general.
  induction before generalizing seen with
  | nil => simp [firstFault?, gather, asksJson, lastChoice?, wordsOf]
  | cons argument before ih =>
    obtain ⟨helpless, plain⟩ := List.forall_mem_cons.mp plain
    rw [List.cons_append, read_cons helpless, firstFault?, List.filterMap_cons]
    cases Argument.fault? argument with
    | some error => rfl
    | none =>
      show Options.read (seen.gather [argument]) (before ++ rest) = _
      rw [ih plain, ← gather_append, List.singleton_append]
      rfl

theorem read_eq {arguments : List Text} (plain : Plain arguments) (seen : Options) :
    Options.read seen arguments = match firstFault? arguments with
      | some error => .error error
      | none => .ok (seen.gather arguments) := by
  have all := read_append plain seen []
  rw [List.append_nil] at all
  exact all

end Options

namespace Invocation

/-- Arguments that gather the same are read the same. -/
theorem read_congr {first second : List Text} (plain : Plain first) (plain' : Plain second)
    (faults : firstFault? first = firstFault? second) (json : asksJson first = asksJson second)
    (choices : lastChoice? first = lastChoice? second) (words : wordsOf first = wordsOf second)
    (environment : Option Text) : Invocation.read first environment = Invocation.read second environment := by
  have options : Options.read {} first = Options.read {} second := by
    rw [Options.read_eq plain, Options.read_eq plain', faults, Options.gather, Options.gather, json, choices, words]
  rw [Invocation.read, Invocation.read, options]

theorem read_chosen {arguments : List Text} (plain : Plain arguments) {chosen : Categories}
    (last : lastChoice? arguments = some chosen) (environment : Option Text) :
    Invocation.read arguments environment = match firstFault? arguments with
      | some error => .error error
      | none => (Command.ofWords (wordsOf arguments)).map fun command =>
        { command, json := asksJson arguments, chosen } := by
  rw [Invocation.read, Options.read_eq plain]
  cases firstFault? arguments with
  | some error => rfl
  | none =>
    have own : (Options.gather {} arguments).chosen environment = .ok chosen := by
      simp [Options.chosen, Options.gather, last]
    have words : (Options.gather {} arguments).words = wordsOf arguments := List.nil_append _
    simp only [bind, Except.bind, own, words]
    cases Command.ofWords (wordsOf arguments) with
    | error error => rfl
    | ok command => simp [Options.gather, Except.map, pure, Except.pure]

/-- An option can be left out when it is no mistake and others say what it says. -/
theorem read_without {before after : List Text} {argument : Text} (plain : Plain (before ++ argument :: after))
    (option : Argument.of argument ≠ .word) (faultless : Argument.fault? argument = none)
    (json : Argument.of argument = .json → asksJson (before ++ after) = true)
    (choice : Argument.choice? argument = none ∨ (lastChoice? after).isSome) (environment : Option Text) :
    Invocation.read (before ++ argument :: after) environment = Invocation.read (before ++ after) environment := by
  -- The argument adds nothing to any of the four things that are gathered.
  have plain' : Plain (before ++ after) := by
    intro other member
    apply plain other
    rcases List.mem_append.mp member with front | back
    · exact List.mem_append_left _ front
    · exact List.mem_append_right _ (List.mem_cons_of_mem _ back)
  rw [List.append_cons] at plain ⊢
  refine read_congr plain plain' ?_ ?_ ?_ ?_ environment
  · have silent : firstFault? [argument] = none := by simp [firstFault?, faultless]
    simp only [firstFault?_append, silent, Option.or_none]
  · rw [asksJson_append] at json
    rw [asksJson_append, asksJson_append, asksJson_append]
    by_cases kind : Argument.of argument = .json
    · simp [Bool.or_right_comm _ _ (asksJson after), json kind]
    · simp [asksJson, kind]
  · rw [lastChoice?_append, lastChoice?_append, lastChoice?_append]
    rcases choice with none | some_
    · simp [lastChoice?, none]
    · obtain ⟨chosen, last⟩ := Option.isSome_iff_exists.mp some_
      simp [last]
  · have wordless : wordsOf [argument] = [] := by simp [wordsOf, option]
    simp only [wordsOf_append, wordless, List.append_nil]

end Invocation

/-! ### Options first -/

/-- The arguments with everything that looks like an option moved to the front. -/
def optionsFirst (arguments : List Text) : List Text :=
  arguments.filter Argument.looksOption ++ arguments.filter fun argument => !Argument.looksOption argument

theorem optionsFirst_perm (arguments : List Text) : (optionsFirst arguments).Perm arguments :=
  List.filter_append_perm Argument.looksOption arguments

/-- Nothing that only options tell is changed by moving them to the front. -/
theorem filterMap_optionsFirst {α : Type} {told : Text → Option α}
    (silent : ∀ {argument}, Argument.of argument = .word → told argument = none) (arguments : List Text) :
    (optionsFirst arguments).filterMap told = arguments.filterMap told := by
  have words : (arguments.filter fun argument => !Argument.looksOption argument).filterMap told = [] := by
    refine List.filterMap_eq_nil_iff.mpr fun argument member => silent (Argument.of_eq_word_iff.mpr ?_)
    simpa using (List.mem_filter.mp member).2
  rw [optionsFirst, List.filterMap_append, words, List.append_nil, List.filterMap_filter]
  refine List.filterMap_congr fun argument _ => ?_
  split
  · rfl
  · rename_i word
    exact (silent (Argument.of_eq_word_iff.mpr (Bool.eq_false_iff.mpr word))).symm

theorem wordsOf_eq (arguments : List Text) :
    wordsOf arguments = arguments.filter fun argument => !Argument.looksOption argument := by
  refine List.filter_congr fun argument _ => ?_
  simp only [Argument.of_eq_word_iff]
  cases Argument.looksOption argument <;> rfl

theorem wordsOf_optionsFirst (arguments : List Text) : wordsOf (optionsFirst arguments) = wordsOf arguments := by
  rw [wordsOf_eq, wordsOf_eq, optionsFirst, List.filter_append, List.filter_filter, List.filter_filter]
  simp

theorem read_optionsFirst {arguments : List Text} (plain : Plain arguments) (environment : Option Text) :
    Invocation.read (optionsFirst arguments) environment = Invocation.read arguments environment := by
  have plain' : Plain (optionsFirst arguments) := fun argument member =>
    plain argument ((optionsFirst_perm arguments).mem_iff.mp member)
  refine Invocation.read_congr plain' plain ?_ ?_ ?_ (wordsOf_optionsFirst arguments) environment
  · rw [firstFault?, filterMap_optionsFirst Argument.fault?_word, firstFault?]
  · exact (optionsFirst_perm arguments).any_eq
  · rw [lastChoice?, filterMap_optionsFirst Argument.choice?_word, lastChoice?]

theorem exists_lastChoice {arguments : List Text} {list : Text} {chosen : Categories}
    (member : debugOption list ∈ arguments) (valid : Categories.parse list = .ok chosen) :
    (lastChoice? arguments).isSome := by
  refine List.getLast?_isSome.mpr ?_
  exact List.ne_nil_of_mem (List.mem_filterMap.mpr ⟨_, member, Argument.choice?_debugOption valid⟩)

theorem lastChoice?_of_last {before after : List Text} {list : Text} {chosen : Categories}
    (valid : Categories.parse list = .ok chosen) (last : ∀ later, debugOption later ∉ after) :
    lastChoice? (before ++ debugOption list :: after) = some chosen := by
  have none : lastChoice? after = none := by
    rw [lastChoice?, List.filterMap_eq_nil_iff.mpr, List.getLast?_nil]
    intro argument member
    exact Argument.choice?_eq_none fun later same => last later (same ▸ member)
  have own : lastChoice? [debugOption list] = some chosen := by
    simp [lastChoice?, Argument.choice?_debugOption valid]
  rw [List.append_cons, lastChoice?_append, lastChoice?_append, none, own]
  rfl

/-- What the place and the number of options have to do with the reading of arguments. -/
structure OptionsAnywhere (arguments : List Text) (environment : Option Text) : Prop where
  moved : Invocation.read arguments environment = Invocation.read (optionsFirst arguments) environment
  /-- `--json` may be left out if it stands elsewhere. -/
  json_again : ∀ before after, arguments = before ++ jsonOption :: after → jsonOption ∈ before ++ after →
    Invocation.read arguments environment = Invocation.read (before ++ after) environment
  /-- A right list of categories may be left out if another one follows. -/
  debug_again : ∀ before list after later chosen chosen', arguments = before ++ debugOption list :: after →
    Categories.parse list = .ok chosen → debugOption later ∈ after → Categories.parse later = .ok chosen' →
    Invocation.read arguments environment = Invocation.read (before ++ after) environment
  debug_last : ∀ before list after chosen, arguments = before ++ debugOption list :: after →
    Categories.parse list = .ok chosen → (∀ later, debugOption later ∉ after) →
    ∀ invocation, Invocation.read arguments environment = .ok invocation → invocation.chosen = chosen
  /-- With a right list of categories, that of the environment is not looked at. -/
  environment_unread : ∀ list chosen, debugOption list ∈ arguments → Categories.parse list = .ok chosen →
    ∀ other, Invocation.read arguments environment = Invocation.read arguments other

/-- Where nobody asks for help, options may stand anywhere, and among those that contradict each other the
last one counts. -/
theorem options_anywhere {arguments : List Text} (short : "-h".toList ∉ arguments) (long : "--help".toList ∉ arguments)
    (environment : Option Text) : OptionsAnywhere arguments environment := by
  have plain : Plain arguments := by
    intro argument member help
    rcases Argument.of_eq_help help with rfl | rfl
    · exact short member
    · exact long member
  constructor
  case moved => exact (read_optionsFirst plain environment).symm
  case json_again =>
    rintro before after rfl again
    refine Invocation.read_without plain (by decide) rfl (fun _ => ?_) (Or.inl rfl) environment
    exact List.any_eq_true.mpr ⟨_, again, by decide⟩
  case debug_again =>
    rintro before list after later chosen chosen' rfl valid follows valid'
    have kind := Argument.of_debug list
    refine Invocation.read_without plain ?_ (Argument.fault?_debugOption valid) ?_ ?_ environment
    · rw [kind]
      simp
    · rw [kind]
      simp
    · exact Or.inr (exists_lastChoice follows valid')
  case debug_last =>
    rintro before list after chosen rfl valid last invocation read
    rw [Invocation.read_chosen plain (lastChoice?_of_last valid last)] at read
    split at read
    · cases read
    · cases command : Command.ofWords (wordsOf (before ++ debugOption list :: after)) with
      | error error => simp [command, Except.map] at read
      | ok command' =>
        rw [command] at read
        cases read
        rfl
  case environment_unread =>
    intro list chosen member valid other
    obtain ⟨last, found⟩ := Option.isSome_iff_exists.mp (exists_lastChoice member valid)
    rw [Invocation.read_chosen plain found, Invocation.read_chosen plain found]

/-- The first list and the wrong one of the environment make no difference, nor does the order. -/
theorem options_anywhere_repeated :
    Invocation.read ["fold".toList, "--debug=all".toList, "a.c".toList, "--debug=none".toList] (some "verbose".toList) =
      Invocation.read ["--debug=all".toList, "--debug=none".toList, "fold".toList, "a.c".toList]
        (some "verbose".toList) ∧
    Invocation.read ["fold".toList, "--debug=all".toList, "a.c".toList, "--debug=none".toList] (some "verbose".toList) =
      Invocation.read ["fold".toList, "a.c".toList, "--debug=none".toList] (some "verbose".toList) ∧
    Invocation.read ["fold".toList, "--debug=all".toList, "a.c".toList, "--debug=none".toList] (some "verbose".toList) =
      Invocation.read ["fold".toList, "--debug=all".toList, "a.c".toList, "--debug=none".toList] none := by
  have anywhere : OptionsAnywhere ["fold".toList, "--debug=all".toList, "a.c".toList, "--debug=none".toList]
      (some "verbose".toList) := options_anywhere (by decide) (by decide) _
  refine ⟨anywhere.moved, ?_, ?_⟩
  · exact anywhere.debug_again ["fold".toList] "all".toList _ "none".toList _ _ rfl rfl (by decide) rfl
  · exact anywhere.environment_unread "all".toList _ (by decide) rfl none

end Conditionals.CommandLine
