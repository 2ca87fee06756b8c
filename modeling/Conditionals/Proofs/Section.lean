import Conditionals.CommandLine.Run
import Conditionals.Proofs.Occurrence.Lines
import Mathlib.Data.Nat.Find

/-!
# Sections

`IsSection` says what the section of a line is without searching: it starts at the nearest starter above
and stops at the first closer from there on. Nothing ties the closer to the line itself, so the section may
stop above it: `section_encloses_iff` says when. Lines count only by what they start and close, so it makes
no difference which way a text is split into lines (`section_of_either_split`).
-/

namespace Conditionals

/-- Whether a line has a directive of a wanted kind. There is none past the last line. -/
def marked (wanted : Kind → Bool) (lines : List Text) (number : Nat) : Bool :=
  lines[number]?.any (hasDirective wanted)

def starts (lines : List Text) : Nat → Bool :=
  marked Kind.startsSection lines

def closes (lines : List Text) : Nat → Bool :=
  marked (fun kind => kind = .endIf) lines

theorem lt_length_of_marked {wanted : Kind → Bool} {lines : List Text} {number : Nat}
    (mark : marked wanted lines number = true) : number < lines.length := by
  obtain ⟨line, read, _⟩ := (Option.any_eq_true _ _).mp mark
  exact (List.getElem?_eq_some_iff.mp read).1

/-! ### The two searches -/

theorem findIdx?_eq_some_iff_marked {wanted : Kind → Bool} {lines : List Text} {index : Nat} :
    lines.findIdx? (hasDirective wanted) = some index ↔
      marked wanted lines index = true ∧ ∀ number < index, marked wanted lines number = false := by
  have read : ∀ {number} (inside : number < lines.length),
      marked wanted lines number = hasDirective wanted lines[number] := by
    intro number inside
    rw [marked, List.getElem?_eq_getElem inside, Option.any_some]
  rw [List.findIdx?_eq_some_iff_getElem]
  constructor
  · rintro ⟨inside, found, before⟩
    refine ⟨(read inside).trans found, fun number below => ?_⟩
    rw [read (Nat.lt_trans below inside)]
    exact Bool.eq_false_iff.mpr (before number below)
  · rintro ⟨found, before⟩
    have inside := lt_length_of_marked found
    refine ⟨inside, (read inside).symm.trans found, fun number below => ?_⟩
    rw [← read (Nat.lt_trans below inside)]
    exact Bool.eq_false_iff.mp (before number below)

theorem findIdx?_ahead {wanted : Kind → Bool} {lines : List Text} {first ahead : Nat} :
    (lines.drop first).findIdx? (hasDirective wanted) = some ahead ↔ marked wanted lines (first + ahead) = true ∧
      ∀ number, first ≤ number → number < first + ahead → marked wanted lines number = false := by
  have moved : ∀ number, marked wanted (lines.drop first) number = marked wanted lines (first + number) := by
    intro number
    rw [marked, marked, List.getElem?_drop]
  simp only [findIdx?_eq_some_iff_marked, moved]
  refine and_congr_right fun _ => ⟨fun before number behind below => ?_, fun before number below => ?_⟩
  · have shifted := before (number - first) (by omega)
    rwa [Nat.add_sub_cancel' behind] at shifted
  · exact before _ (by omega) (by omega)

/-- The line that is looked at: a line past the end counts as the last one. -/
def reached (lines : List Text) (line : Nat) : Nat :=
  min line (lines.length - 1)

theorem length_above (lines : List Text) (line : Nat) : (lines.take (line + 1)).length - 1 = reached lines line := by
  rw [List.length_take]
  unfold reached
  omega

/-- Reversed, the lines up to a given one are met from that line upwards. -/
theorem findIdx?_back {wanted : Kind → Bool} {lines : List Text} {line back : Nat} :
    (lines.take (line + 1)).reverse.findIdx? (hasDirective wanted) = some back ↔
      back ≤ reached lines line ∧ marked wanted lines (reached lines line - back) = true ∧
      ∀ number, reached lines line - back < number → number ≤ line → marked wanted lines number = false := by
  have size := List.length_take (i := line + 1) (l := lines)
  have top := length_above lines line
  have turned : ∀ {number}, number < (lines.take (line + 1)).length →
      marked wanted (lines.take (line + 1)).reverse number = marked wanted lines (reached lines line - number) := by
    intro number inside
    rw [marked, marked, List.getElem?_reverse inside, List.getElem?_take, if_pos (by omega), top]
  rw [findIdx?_eq_some_iff_marked]
  constructor
  · rintro ⟨found, before⟩
    have inside := lt_length_of_marked found
    rw [List.length_reverse] at inside
    refine ⟨by omega, (turned inside).symm.trans found, fun number behind upto => ?_⟩
    refine Bool.eq_false_iff.mpr fun mark => ?_
    have present := lt_length_of_marked mark
    have earlier := before (reached lines line - number) (by omega)
    rw [turned (by omega), Nat.sub_sub_self (by omega), mark] at earlier
    cases earlier
  · rintro ⟨inside, found, after⟩
    have present := lt_length_of_marked found
    refine ⟨(turned (by omega)).trans found, fun number below => ?_⟩
    rw [turned (by omega)]
    exact after _ (by omega) (by omega)

/-! ### What a section is -/

/-- The section of a line among lines of which some start and some close sections. -/
structure IsSection (starts closes : Nat → Bool) (line : Nat) (span : LineRange) : Prop where
  above : span.first ≤ line
  start : starts span.first = true
  nearest : ∀ number, span.first < number → number ≤ line → starts number = false
  ordered : span.first ≤ span.last
  close : closes span.last = true
  soonest : ∀ number, span.first ≤ number → number < span.last → closes number = false

theorem sectionAt_eq_some_iff {lines : List Text} {line : Nat} {span : LineRange} :
    sectionAt lines line = some span ↔ IsSection (starts lines) (closes lines) line span := by
  have below : reached lines line ≤ line := Nat.min_le_left _ _
  unfold sectionAt
  simp only [length_above]
  constructor
  · intro found
    obtain ⟨back, behind, found⟩ := Option.bind_eq_some_iff.mp found
    obtain ⟨ahead, before, same⟩ := Option.bind_eq_some_iff.mp found
    obtain ⟨inside, start, nearest⟩ := findIdx?_back.mp behind
    obtain ⟨close, soonest⟩ := findIdx?_ahead.mp before
    obtain rfl := Option.some.inj same
    exact ⟨by dsimp only; omega, start, nearest, Nat.le_add_right _ _, close, soonest⟩
  · rintro ⟨above, start, nearest, ordered, close, soonest⟩
    obtain ⟨first, last⟩ := span
    dsimp only at above start nearest ordered close soonest
    have inside := lt_length_of_marked start
    have upto : first ≤ reached lines line := Nat.le_min.mpr ⟨above, by omega⟩
    have turned : reached lines line - (reached lines line - first) = first := Nat.sub_sub_self upto
    have moved : first + (last - first) = last := Nat.add_sub_cancel' ordered
    refine Option.bind_eq_some_iff.mpr ⟨reached lines line - first, ?_, ?_⟩
    · refine findIdx?_back.mpr ⟨Nat.sub_le _ _, ?_, ?_⟩
      · rwa [turned]
      · rwa [turned]
    · rw [turned]
      refine Option.bind_eq_some_iff.mpr ⟨last - first, ?_, ?_⟩
      · refine findIdx?_ahead.mpr ⟨?_, ?_⟩
        · rwa [moved]
        · rwa [moved]
      · rw [moved]
        rfl

theorem exists_section {starts closes : Nat → Bool} {line first closer : Nat} (above : first ≤ line)
    (start : starts first = true) (nearest : ∀ number, first < number → number ≤ line → starts number = false)
    (behind : first ≤ closer) (close : closes closer = true) : ∃ span, IsSection starts closes line span := by
  have some_ : ∃ number, first ≤ number ∧ closes number = true := ⟨closer, behind, close⟩
  obtain ⟨ordered, found⟩ := Nat.find_spec some_
  refine ⟨{ first, last := Nat.find some_ }, above, start, nearest, ordered, found, fun number from_ below => ?_⟩
  exact Bool.eq_false_iff.mpr fun closed => Nat.find_min some_ below ⟨from_, closed⟩

/-! ### Sections and the lines they were asked for -/

/-- Above a line, whatever closes a section is followed by the start of another one. -/
def Reopened (lines : List Text) (line : Nat) : Prop :=
  ∀ closer < reached lines line, closes lines closer = true → (∃ starter ≤ closer, starts lines starter = true) →
    ∃ starter, closer < starter ∧ starter ≤ reached lines line ∧ starts lines starter = true

namespace IsSection

variable {lines : List Text} {line : Nat} {span : LineRange}

theorem first_le (found : IsSection (starts lines) (closes lines) line span) : span.first ≤ reached lines line := by
  have inside := lt_length_of_marked found.start
  have above := found.above
  unfold reached
  omega

theorem reaches_iff (found : IsSection (starts lines) (closes lines) line span) :
    reached lines line ≤ span.last ↔ Reopened lines line := by
  have start := found.first_le
  constructor
  · -- No closer stands between the start and the line, so one above the line is above the start too.
    intro reaching closer below close _
    refine ⟨span.first, ?_, start, found.start⟩
    by_contra inside
    have opened := found.soonest closer (by omega) (by omega)
    rw [close] at opened
    cases opened
  · -- A section that stops above the line ends in a closer that no start follows.
    intro reopened
    by_contra short
    obtain ⟨starter, behind, upto, again⟩ :=
      reopened span.last (by omega) found.close ⟨span.first, found.ordered, found.start⟩
    have ordered := found.ordered
    have none := found.nearest starter (by omega) (Nat.le_trans upto (Nat.min_le_left _ _))
    rw [again] at none
    cases none

end IsSection

theorem reopened_of_none {lines : List Text} {line : Nat} (none : sectionAt lines line = none) :
    Reopened lines line := by
  rintro closer below close ⟨starter, upto, start⟩
  by_contra absent
  -- The last starter up to the closer is then the nearest one to the line.
  have found := Nat.findGreatest_spec (P := fun number => starts lines number = true) upto start
  have least := Nat.findGreatest_le (P := fun number => starts lines number = true) closer
  have greatest : ∀ number, Nat.findGreatest (fun number => starts lines number = true) closer < number →
      number ≤ line → starts lines number = false := by
    intro number behind above
    refine Bool.eq_false_iff.mpr fun again => ?_
    rcases Nat.lt_or_ge closer number with after | before
    · have inside := lt_length_of_marked again
      exact absent ⟨number, after, Nat.le_min.mpr ⟨above, by omega⟩, again⟩
    · exact Nat.findGreatest_is_greatest behind before again
  have above : closer ≤ line := Nat.le_trans (Nat.le_of_lt below) (Nat.min_le_left _ _)
  obtain ⟨span, found⟩ := exists_section (Nat.le_trans least above) found greatest least close
  rw [sectionAt_eq_some_iff.mpr found] at none
  cases none

/-- The section of a line starts at the line or above it, but it reaches the line only if whatever closed a
section above is followed by another start. For a line without a closer at it or below, that is
exactly when there is no section. -/
theorem section_encloses_iff (lines : List Text) (line : Nat) :
    (∀ span, sectionAt lines line = some span → span.first ≤ reached lines line ∧ span.last < lines.length ∧
      (reached lines line ≤ span.last ↔ Reopened lines line)) ∧
    ((∀ number, reached lines line ≤ number → closes lines number = false) →
      (sectionAt lines line = none ↔ Reopened lines line)) := by
  constructor
  · intro span found
    have found := sectionAt_eq_some_iff.mp found
    exact ⟨found.first_le, lt_length_of_marked found.close, found.reaches_iff⟩
  · intro open_
    refine ⟨reopened_of_none, fun reopened => ?_⟩
    refine Option.eq_none_iff_forall_not_mem.mpr fun span found => ?_
    have found := sectionAt_eq_some_iff.mp found
    have unclosed := open_ span.last (found.reaches_iff.mpr reopened)
    rw [found.close] at unclosed
    cases unclosed

/-- A line behind a closed block is given that block as its section. -/
theorem section_left_behind :
    sectionAt ["#if A".toList, "#endif".toList, "x".toList] 2 = some { first := 0, last := 1 } ∧
      reached ["#if A".toList, "#endif".toList, "x".toList] 2 = 2 ∧
      ¬∀ lines line span, sectionAt lines line = some span →
        span.first ≤ reached lines line ∧ reached lines line ≤ span.last := by
  have found : sectionAt ["#if A".toList, "#endif".toList, "x".toList] 2 = some { first := 0, last := 1 } := by
    decide +kernel
  refine ⟨found, rfl, fun always => ?_⟩
  exact absurd (always _ _ _ found).2 (by decide)

/-! ### Two ways to split a text -/

theorem sectionAt_congr {first second : List Text} (starting : starts first = starts second)
    (closing : closes first = closes second) (line : Nat) : sectionAt first line = sectionAt second line := by
  refine Option.ext fun span => ?_
  rw [sectionAt_eq_some_iff, sectionAt_eq_some_iff, starting, closing]

theorem hasDirective_dropReturn (wanted : Kind → Bool) (piece : Text) :
    hasDirective wanted (Text.dropReturn piece) = hasDirective wanted piece := by
  rw [hasDirective, hasDirective, occurrences, occurrences, Occurrence.findFrom_dropReturn]

/-- A last piece that is empty, or that keeps its carriage return, has no mark it would not have otherwise. -/
theorem marked_terminatedLines (wanted : Kind → Bool) (text : Text) :
    marked wanted text.terminatedLines = marked wanted (LineTable.ofText text).texts := by
  funext number
  rw [marked, marked, LineTable.texts_ofText, Text.terminatedLines]
  obtain ⟨pieces, last, split⟩ := (List.eq_nil_or_concat' _).resolve_left (List.splitOn_ne_nil '\n' text)
  rw [split]
  simp only [List.dropLast_concat, List.getLast?_concat, List.map_append, List.map_singleton]
  rcases Nat.lt_or_ge number (pieces.map Text.dropReturn).length with front | behind
  · rw [List.getElem?_append_left front, List.getElem?_append_left front]
  rw [List.getElem?_append_right behind, List.getElem?_append_right behind]
  cases number - (pieces.map Text.dropReturn).length with
  | zero =>
    by_cases empty : last = []
    · subst empty
      rfl
    · simp [Option.filter, empty, hasDirective_dropReturn]
  | succ index =>
    by_cases empty : last = []
    · subst empty
      rfl
    · simp [Option.filter, empty]

open CommandLine (Task) in
/-- The section of a line is the same whether a line feed ends a line or separates two, so the lines of a
report are those of the line table. -/
theorem section_of_either_split (chosen : Categories) (text : Text) (line : Nat) :
    sectionAt text.terminatedLines line = sectionAt (LineTable.ofText text).texts line ∧
    (Task.report chosen text (.enclosing line)).value =
      .enclosing (sectionAt (LineTable.ofText text).texts line) := by
  have same : sectionAt text.terminatedLines line = sectionAt (LineTable.ofText text).texts line :=
    sectionAt_congr (marked_terminatedLines _ text) (marked_terminatedLines _ text) line
  exact ⟨same, congrArg Report.enclosing same⟩

/-- The splits differ here in their number of lines and in a carriage return. -/
example :
    Text.terminatedLines "#if\r\n#endif\r".toList ≠ (LineTable.ofText "#if\r\n#endif\r".toList).texts ∧
      Text.terminatedLines "#if\n#endif\n".toList ≠ (LineTable.ofText "#if\n#endif\n".toList).texts := by
  decide +kernel

end Conditionals
