import Conditionals.Proofs.Occurrence.Lines
import Conditionals.Proofs.Text.Trim

/-!
# Directives at the start of lines

`classify` looks for a directive at the first non-blank character of a line, and `occurrences` looks
everywhere. `occurrences_start` compares them on one line: what `classify` finds is the first
occurrence, and when it finds nothing, every occurrence stands further right.
-/

namespace Conditionals

/-- Number of bytes before the first non-blank character of a line. -/
def Text.indent (line : Text) : Nat :=
  Text.byteLength (line.takeWhile Text.isBlank)

/-- Outside comment lines, every directive of the text is the first thing on its line. -/
def Anchored (text : Text) : Prop :=
  ∀ found ∈ occurrences text, ∀ line ∈ (LineTable.ofText text).line? ((LineTable.ofText text).lineOf found.offset),
    isComment line.text = false → found.offset = line.start + Text.indent line.text

instance (text : Text) : Decidable (Anchored text) :=
  inferInstanceAs (Decidable (∀ found ∈ occurrences text, ∀ line ∈ (LineTable.ofText text).line? _, _))

theorem solid_of_mem_spelling (keyword : Keyword) : ∀ c ∈ keyword.spelling, Text.isBlank c = false := by
  have solid : keyword.spelling.all fun c => !Text.isBlank c := by cases keyword <;> decide
  simpa only [List.all_eq_true, Bool.not_eq_true'] using solid

theorem blank_not_mem_spelling {c : Char} (blank : Text.isBlank c = true) (keyword : Keyword) :
    c ∉ keyword.spelling := by
  intro member
  rw [solid_of_mem_spelling keyword c member] at blank
  cases blank

theorem Directive.eq_append_of_read? {text : Text} {directive : Directive}
    (read : Directive.read? text = some directive) : text = directive.keyword.spelling ++ directive.condition := by
  obtain ⟨⟨keyword, condition⟩, found, rfl⟩ := Option.map_eq_some_iff.mp read
  exact Keyword.eq_append_of_read? found

/-- Blanks at the end of a text belong to the condition that is read from it and to nothing else. -/
theorem Directive.read?_trimEnd (text : Text) :
    Directive.read? (Text.trimEnd text) =
      (Directive.read? text).map fun directive => { directive with condition := Text.trimEnd directive.condition } := by
  have trimmed : ∀ {directive : Directive}, Directive.read? (Text.trimEnd text) = some directive →
      Text.trimEnd directive.condition = directive.condition := by
    intro directive read
    have split := Directive.eq_append_of_read? read
    have ends := Text.trimEnd_trimEnd text
    rw [split, Text.trimEnd_solid (solid_of_mem_spelling directive.keyword)] at ends
    exact List.append_cancel_left ends
  obtain ⟨blanks, blank, split⟩ := Text.trimEnd_append_blanks text
  have whole : Directive.read? text = (Directive.read? (Text.trimEnd text)).map fun directive =>
      { directive with condition := directive.condition ++ blanks } := by
    cases blanks with
    | nil =>
      rw [List.append_nil] at split
      simp [split]
    | cons c rest =>
      have absent := blank_not_mem_spelling (blank c List.mem_cons_self)
      rw [← Directive.read?_append absent, split]
  rw [whole]
  cases read : Directive.read? (Text.trimEnd text) with
  | none => rfl
  | some directive =>
    simp only [Option.map_some, Text.trimEnd_blanks blank, trimmed read]

theorem Occurrence.findFrom_blanks {blanks : Text} (blank : ∀ c ∈ blanks, Text.isBlank c = true) (offset : Nat)
    (text : Text) :
    findFrom offset true (blanks ++ text) = findFrom (offset + Text.byteLength blanks) true text := by
  induction blanks generalizing offset with
  | nil => rfl
  | cons c blanks ih =>
    obtain ⟨first, others⟩ := List.forall_mem_cons.mp blank
    have mark : c ≠ '#' := by
      rintro rfl
      cases first
    rw [Text.byteLength_cons, ← Nat.add_assoc, ← ih others]
    simp only [List.cons_append, findFrom, mark, decide_false, Bool.and_false, Bool.false_eq_true, if_false, ite_self]

/-- The search in a line starts at its first non-blank character. -/
theorem occurrences_trimStart (line : Text) :
    occurrences line = Occurrence.findFrom (Text.indent line) true (Text.trimStart line) := by
  have skipped := Occurrence.findFrom_blanks (fun c => List.mem_takeWhile_imp (l := line)) 0 (Text.trimStart line)
  rw [Nat.zero_add] at skipped
  rw [Text.indent, ← skipped, Text.trimStart, List.takeWhile_append_dropWhile]
  rfl

/-- The first thing on a line is a directive for `classify` exactly when it is one for
`occurrences`, and it is then the first that `occurrences` gives. Only their conditions may differ: one ends
at the last non-blank character, and the other at the first break. -/
theorem occurrences_start (line : Text) :
    (∃ directive : Directive, ∃ rest,
      classify line = some { directive with condition := Text.trimEnd directive.condition } ∧
      occurrences line =
        { offset := Text.indent line
          directive := { directive with condition := directive.condition.takeWhile fun c => !isBreak c } } :: rest) ∨
    classify line = none ∧ ∀ found ∈ occurrences line, Text.indent line < found.offset := by
  rw [occurrences_trimStart, classify, Text.trim]
  cases body : Text.trimStart line with
  | nil => exact Or.inr ⟨rfl, by simp [Occurrence.findFrom]⟩
  | cons c rest =>
    have solid : Text.isBlank c = false := by
      have first := List.head?_dropWhile_not Text.isBlank line
      rwa [← Text.trimStart, body] at first
    have inside : isBreak c = false := by
      refine Bool.eq_false_iff.mpr fun ends => ?_
      simp only [isBreak, Bool.or_eq_true, decide_eq_true_eq] at ends
      rcases ends with rfl | rfl <;> cases solid
    have later : ∀ {seeking} {found}, found ∈ Occurrence.findFrom (Text.indent line + c.utf8Size) seeking rest →
        Text.indent line < found.offset := by
      intro seeking found member
      have wide := c.utf8Size_pos
      have bounds := Occurrence.findFrom_bounds member
      omega
    rw [Text.trimEnd_cons solid, Occurrence.findFrom, if_neg (by simp [inside])]
    by_cases mark : c = '#'
    · subst mark
      rw [if_pos (by decide)]
      have trimmed := Directive.read?_trimEnd rest
      cases read : Directive.read? rest with
      | none =>
        rw [read] at trimmed
        exact Or.inr ⟨trimmed, fun found => later⟩
      | some directive =>
        rw [read] at trimmed
        exact Or.inl ⟨directive, _, trimmed, rfl⟩
    · rw [if_neg (by simp [mark])]
      refine Or.inr ⟨?_, fun found => later⟩
      split
      · rename_i first
        exact absurd (List.cons.inj first).1 mark
      · rfl

/-- On an anchored line the first occurrence is the only one. -/
theorem occurrences_anchored {line : Text} (anchored : ∀ found ∈ occurrences line, found.offset = Text.indent line) :
    (occurrences line).map (fun found => found.directive.keyword) = ((classify line).map Directive.keyword).toList := by
  rcases occurrences_start line with ⟨directive, rest, classified, split⟩ | ⟨code, further⟩
  · -- Offsets grow, and all of them are that of the first non-blank character.
    have ordered := Occurrence.findFrom_ordered 0 true line
    rw [← occurrences, split] at ordered
    rw [split] at anchored
    obtain ⟨first, others⟩ := List.forall_mem_cons.mp anchored
    have single : rest = [] := by
      refine List.eq_nil_iff_forall_not_mem.mpr fun other member => ?_
      have right := (List.pairwise_cons.mp ordered).1 other member
      have left := others other member
      omega
    rw [split, classified, single]
    rfl
  · have none : occurrences line = [] := by
      refine List.eq_nil_iff_forall_not_mem.mpr fun found member => ?_
      have right := further found member
      have left := anchored found member
      omega
    rw [none, code]
    rfl

theorem classify_comment {line : Text} (comment : isComment line = true) : classify line = none := by
  unfold classify
  split
  · rename_i rest marked
    rw [isComment, marked] at comment
    simp [Text.startsWith, Text.after?] at comment
  · rfl

theorem Anchored.line {text : Text} (anchored : Anchored text) {number : Nat} {line : Line}
    (read : (LineTable.ofText text).line? number = some line) (code : isComment line.text = false) :
    ∀ found ∈ occurrences line.text, found.offset = Text.indent line.text := by
  intro found member
  have same := anchored _ (mem_occurrences_of_line read member) line
  rw [Decoration.locate_offset read member] at same
  exact Nat.add_left_cancel (same read code)

end Conditionals
