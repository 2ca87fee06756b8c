import Conditionals.Proofs.Category
import Conditionals.Proofs.CommandLine.Options
import Mathlib.Data.List.Forall2
import Mathlib.Data.List.TakeWhile

/-!
# Writing and reading command lines

`Invocation.Written` says how an invocation is written: the words of its command in their order and its
options anywhere between them. Whatever is written like that is read as the same invocation
(`read_written`), since words are never taken for options and numbers read back.
-/

namespace Conditionals

namespace Text

theorem readDecimal?_ofNat {n : Nat} (fits : n < decimalBound) : readDecimal? (ofNat n) = some n := by
  have digits : (ofNat n).all Char.isDigit = true :=
    List.all_eq_true.mpr fun digit => Nat.isDigit_of_mem_toDigits (by decide) (by decide)
  have value : digitsValue (ofNat n) = n := Nat.ofDigitChars_ten_toDigits
  have plain : unsigned (ofNat n) = ofNat n := by
    unfold unsigned
    split
    · rename_i rest same
      rw [same] at digits
      simp at digits
    · rfl
  rw [readDecimal?, plain, value, if_pos ⟨Nat.toDigits_ne_nil, digits, fits⟩]

end Text

namespace CommandLine

/-! ### Written forms -/

/-- A caret position is written with its column, which may be left out if it is the first one. -/
inductive CursorText : Cursor → Text → Prop where
  | line (line : Nat) : CursorText { line } (Text.ofNat line)
  | column (line column : Nat) : CursorText { line, column } (Text.ofNat line ++ ':' :: Text.ofNat column)

/-- The word for a task, and the words that follow the file name. -/
inductive Task.Words : Task → Text → List Text → Prop where
  | fold : Words .fold "fold".toList []
  | path (line : Nat) : Words (.path line) "path".toList [Text.ofNat line]
  | enclosing (line : Nat) : Words (.enclosing line) "section".toList [Text.ofNat line]
  | replay {cursors : List Cursor} {texts : List Text} (each : List.Forall₂ CursorText cursors texts) :
    Words (.replay cursors) "replay".toList texts

inductive Command.Words : Command → List Text → Prop where
  | help : Words .help ["help".toList]
  | examine {task : Task} {name : Text} {rest : List Text} (file : Text) (words : task.Words name rest) :
    Words (.examine file task) (name :: file :: rest)

/-- The options of an invocation, with a list that chooses its categories. -/
def Invocation.options (invocation : Invocation) (list : Text) : List Text :=
  (if invocation.json then [jsonOption] else []) ++ [debugOption list]

/-- The arguments are the options of an invocation and the words of its command. The words keep their order. -/
structure Invocation.Written (invocation : Invocation) (words : List Text) (members : List Category)
    (arguments : List Text) : Prop where
  command : invocation.command.Words words
  categories : Categories.ofMembers members = invocation.chosen
  ordered : words.Sublist arguments
  complete : arguments.Perm (invocation.options (Categories.listText members) ++ words)

/-- Numbers have 64 bits, and at least one caret position is replayed. -/
def Task.Fits : Task → Prop
  | .fold => True
  | .path line | .enclosing line => line < Text.decimalBound
  | .replay cursors => cursors ≠ [] ∧
    ∀ cursor ∈ cursors, cursor.line < Text.decimalBound ∧ cursor.column < Text.decimalBound

/-- A file name must not look like an option. -/
def Command.Fits : Command → Prop
  | .help => True
  | .examine file task => (file.head? ≠ some '-' ∨ file = ['-']) ∧ task.Fits

/-! ### Reading words back -/

theorem readLine_ofNat {line : Nat} (fits : line < Text.decimalBound) : readLine (Text.ofNat line) = .ok line := by
  rw [readLine, Text.readDecimal?_ofNat fits]

theorem readCursor_text {cursor : Cursor} {text : Text} (written : CursorText cursor text)
    (line : cursor.line < Text.decimalBound) (column : cursor.column < Text.decimalBound) :
    readCursor text = .ok cursor := by
  have uncut : ∀ n, ∀ c ∈ Text.ofNat n, decide (c ≠ ':') = true := by
    intro n c member
    refine decide_eq_true fun colon => ?_
    exact Text.not_mem_ofNat (by decide) n (colon ▸ member)
  unfold readCursor
  cases written with
  | line number =>
    rw [List.dropWhile_eq_nil_iff.mpr (uncut number)]
    simp [readLine_ofNat line, bind, Except.bind, pure, Except.pure]
  | column number place =>
    rw [List.dropWhile_append_of_pos (uncut number), List.takeWhile_append_of_pos (uncut number)]
    simp [readLine_ofNat line, readLine_ofNat column, bind, Except.bind, pure, Except.pure]

theorem mapM_readCursor {cursors : List Cursor} {texts : List Text} (each : List.Forall₂ CursorText cursors texts)
    (fits : ∀ cursor ∈ cursors, cursor.line < Text.decimalBound ∧ cursor.column < Text.decimalBound) :
    texts.mapM readCursor = .ok cursors := by
  induction each with
  | nil => rfl
  | cons written _ ih =>
    obtain ⟨⟨line, column⟩, others⟩ := List.forall_mem_cons.mp fits
    rw [List.mapM_cons, readCursor_text written line column, ih others]
    rfl

theorem ofWords_of_readTask? (verb : Verb) {rest : List Text} {task : Task}
    (read : verb.readTask? rest = some (.ok task)) (file : Text) :
    Command.ofWords (verb.name :: file :: rest) = .ok (.examine file task) := by
  have known : Verb.ofName? verb.name = some verb := by cases verb <;> rfl
  rw [Command.ofWords, if_neg (by simp), known]
  simp only [Verb.readCommand, read, Except.map]

theorem ofWords_words {command : Command} {words : List Text} (written : command.Words words)
    (fits : command.Fits) : Command.ofWords words = .ok command := by
  cases written with
  | help => rfl
  | examine file words =>
    obtain ⟨-, fits⟩ := fits
    cases words with
    | fold => exact ofWords_of_readTask? .fold rfl file
    | path line =>
      refine ofWords_of_readTask? .path ?_ file
      rw [Verb.readTask?, readLine_ofNat fits]
      rfl
    | enclosing line =>
      refine ofWords_of_readTask? .enclosing ?_ file
      rw [Verb.readTask?, readLine_ofNat fits]
      rfl
    | replay each =>
      obtain ⟨nonempty, fits⟩ := fits
      refine ofWords_of_readTask? .replay ?_ file
      have read := mapM_readCursor each fits
      cases each with
      | nil => exact absurd rfl nonempty
      | cons _ _ =>
        rw [Verb.readTask?, read]
        rfl

/-! ### Words and options apart -/

theorem of_word_of_head {argument : Text} (plain : argument.head? ≠ some '-') : Argument.of argument = .word := by
  refine Argument.of_eq_word_iff.mpr (Bool.eq_false_iff.mpr fun option => ?_)
  exact plain ((Argument.looksOption_iff argument).mp option).1

theorem ofNat_head (n : Nat) : (Text.ofNat n).head? ≠ some '-' :=
  fun dash => Text.not_mem_ofNat (by decide) n (List.mem_of_head? dash)

theorem cursorText_head {cursor : Cursor} {text : Text} (written : CursorText cursor text) :
    text.head? ≠ some '-' := by
  cases written with
  | line number => exact ofNat_head number
  | column number place =>
    have digits : Text.ofNat number ≠ [] := Nat.toDigits_ne_nil
    rw [List.head?_append_of_ne_nil _ digits]
    exact ofNat_head number

theorem of_cursorTexts {cursors : List Cursor} {texts : List Text} (each : List.Forall₂ CursorText cursors texts) :
    ∀ text ∈ texts, Argument.of text = .word := by
  induction each with
  | nil => exact List.forall_mem_nil _
  | cons written _ ih => exact List.forall_mem_cons.mpr ⟨of_word_of_head (cursorText_head written), ih⟩

theorem of_words {command : Command} {words : List Text} (written : command.Words words) (fits : command.Fits) :
    ∀ word ∈ words, Argument.of word = .word := by
  cases written with
  | help => exact List.forall_mem_singleton.mpr rfl
  | examine file words =>
    have named : Argument.of file = .word := by
      rcases fits.1 with plain | rfl
      · exact of_word_of_head plain
      · rfl
    cases words with
    | fold => exact List.forall_mem_cons.mpr ⟨rfl, List.forall_mem_singleton.mpr named⟩
    | path line | enclosing line =>
      have number := of_word_of_head (ofNat_head line)
      exact List.forall_mem_cons.mpr ⟨rfl, List.forall_mem_cons.mpr ⟨named, List.forall_mem_singleton.mpr number⟩⟩
    | replay each => exact List.forall_mem_cons.mpr ⟨rfl, List.forall_mem_cons.mpr ⟨named, of_cursorTexts each⟩⟩

/-- What arguments without faults tell, all choices of categories included. -/
structure Tell (arguments : List Text) (json : Bool) (choices : List Categories) (words : List Text) : Prop where
  plain : Plain arguments
  faultless : arguments.filterMap Argument.fault? = []
  json : asksJson arguments = json
  choices : arguments.filterMap Argument.choice? = choices
  words : wordsOf arguments = words

theorem words_tell {words : List Text} (each : ∀ word ∈ words, Argument.of word = .word) :
    Tell words false [] words where
  plain word member help := by
    rw [each word member] at help
    cases help
  faultless := List.filterMap_eq_nil_iff.mpr fun word member => Argument.fault?_word (each word member)
  json := List.any_eq_false.mpr fun word member => by simp [each word member]
  choices := List.filterMap_eq_nil_iff.mpr fun word member => Argument.choice?_word (each word member)
  words := List.filter_eq_self.mpr fun word member => decide_eq_true (each word member)

theorem options_tell (invocation : Invocation) {list : Text}
    (valid : Categories.parse list = .ok invocation.chosen) :
    Tell (invocation.options list) invocation.json [invocation.chosen] [] := by
  have kinds := Argument.of_debug list
  have silent : Argument.fault? jsonOption = none ∧ Argument.choice? jsonOption = none := ⟨rfl, rfl⟩
  unfold Invocation.options
  cases invocation.json <;> constructor <;>
    simp [Plain, asksJson, wordsOf, Argument.fault?_debugOption valid, Argument.choice?_debugOption valid, silent,
      kinds, Argument.of_json]

/-- The words are met in the order they were written in: the written ones are among those that are read, and
there are no others. -/
theorem wordsOf_written {options words arguments : List Text} (ordered : words.Sublist arguments)
    (complete : arguments.Perm (options ++ words)) (none : wordsOf options = []) (all : wordsOf words = words) :
    wordsOf arguments = words := by
  have kept : (wordsOf words).Sublist (wordsOf arguments) := ordered.filter _
  have met : (wordsOf arguments).Perm (wordsOf (options ++ words)) := complete.filter _
  rw [wordsOf_append, none, all] at met
  rw [all] at kept
  exact (kept.eq_of_length met.length_eq.symm).symm

/-! ### Whole command lines -/

theorem exists_words (command : Command) : ∃ words, command.Words words := by
  obtain _ | ⟨file, task⟩ := command
  · exact ⟨_, .help⟩
  cases task with
  | fold => exact ⟨_, .examine file .fold⟩
  | path line => exact ⟨_, .examine file (.path line)⟩
  | enclosing line => exact ⟨_, .examine file (.enclosing line)⟩
  | replay cursors =>
    have each : List.Forall₂ CursorText cursors
        (cursors.map fun cursor => Text.ofNat cursor.line ++ ':' :: Text.ofNat cursor.column) := by
      refine List.forall₂_map_right_iff.mpr (List.forall₂_same.mpr fun cursor _ => ?_)
      exact .column cursor.line cursor.column
    exact ⟨_, .examine file (.replay each)⟩

theorem exists_members (chosen : Categories) : ∃ members, Categories.ofMembers members = chosen := by
  obtain ⟨folding, decorations⟩ := chosen
  cases folding <;> cases decorations
  · exact ⟨[], rfl⟩
  · exact ⟨[.decorations], rfl⟩
  · exact ⟨[.folding], rfl⟩
  · exact ⟨[.folding, .decorations], rfl⟩

theorem exists_written (invocation : Invocation) :
    ∃ words members arguments, invocation.Written words members arguments := by
  obtain ⟨words, command⟩ := exists_words invocation.command
  obtain ⟨members, categories⟩ := exists_members invocation.chosen
  exact ⟨words, members, _, command, categories, List.sublist_append_right _ words, .refl _⟩

/-- An invocation whose numbers and file name fit can be written, and however it is written, it is read as
the same invocation, whatever the environment lists. -/
theorem Invocation.read_written {invocation : Invocation} (fits : invocation.command.Fits) :
    (∃ words members arguments, invocation.Written words members arguments) ∧
    ∀ words members arguments, invocation.Written words members arguments →
      ∀ environment, Invocation.read arguments environment = .ok invocation := by
  refine ⟨exists_written invocation, ?_⟩
  rintro words members arguments ⟨command, categories, ordered, complete⟩ environment
  have valid := Categories.parse_listText members
  rw [categories] at valid
  have options := options_tell invocation valid
  have others := words_tell (of_words command fits)
  have plain : Plain arguments := by
    intro argument member
    rcases List.mem_append.mp (complete.mem_iff.mp member) with option | word
    · exact options.plain argument option
    · exact others.plain argument word
  have faultless : firstFault? arguments = none := by
    have all := complete.filterMap Argument.fault?
    rw [List.filterMap_append, options.faultless, others.faultless] at all
    rw [firstFault?, List.perm_nil.mp all, List.head?_nil]
  have json : asksJson arguments = invocation.json := by
    have all : asksJson arguments = asksJson _ := complete.any_eq
    rw [all, asksJson_append, options.json, others.json, Bool.or_false]
  have last : lastChoice? arguments = some invocation.chosen := by
    have all := complete.filterMap Argument.choice?
    rw [List.filterMap_append, options.choices, others.choices] at all
    rw [lastChoice?, List.perm_singleton.mp all, List.getLast?_singleton]
  rw [Invocation.read_chosen plain last, faultless, wordsOf_written ordered complete options.words others.words,
    ofWords_words command fits, json]
  rfl

/-- The largest line, a column left out, and a file that is just a dash. -/
theorem Invocation.read_written_replay :
    Invocation.read ["--debug=decorations,folding".toList, "replay".toList, "-".toList, "--json".toList,
        "18446744073709551615:7".toList, "3".toList] (some "verbose".toList) =
      .ok
        { command := .examine "-".toList (.replay [{ line := 18446744073709551615, column := 7 }, { line := 3 }])
          json := true
          chosen := .all } := by
  have furthest : CursorText { line := 18446744073709551615, column := 7 } "18446744073709551615:7".toList := by
    have text : "18446744073709551615:7".toList = Text.ofNat 18446744073709551615 ++ ':' :: Text.ofNat 7 := by
      decide +kernel
    rw [text]
    exact .column _ _
  have words : Command.Words
      (.examine "-".toList (.replay [{ line := 18446744073709551615, column := 7 }, { line := 3 }]))
      ["replay".toList, "-".toList, "18446744073709551615:7".toList, "3".toList] :=
    .examine _ (.replay (.cons furthest (.cons (.line 3) .nil)))
  have categories : Categories.ofMembers [.decorations, .folding] = .all := rfl
  refine (Invocation.read_written ?_).2 _ _ _ ⟨words, categories, ?_, ?_⟩ _
  · refine ⟨Or.inr rfl, by simp, ?_⟩
    simp [Text.decimalBound]
  · decide +kernel
  · decide +kernel

end CommandLine
end Conditionals
