import Conditionals.Proofs.Condition.Clean
import Conditionals.Proofs.LineTable
import Conditionals.Proofs.Occurrence.Anchored

/-!
# One classifier

`classify` reads the start of a single line, and `occurrences` searches the whole text. `Leads` says that
an occurrence stands where `classify` would look. `classify_leading` shows that the two then find the
same directive under the same name, and that neither finds one there without the other.
-/

namespace Conditionals

/-! ### On a line -/

theorem trim_of_classify {line : Text} {directive : Directive} (classified : classify line = some directive) :
    Text.trim line = '#' :: (directive.keyword.spelling ++ directive.condition) := by
  unfold classify at classified
  split at classified
  · rename_i text marked
    rw [marked, Directive.eq_append_of_read? classified]
  · cases classified

/-- What `classify` finds is the first occurrence of the line. Their conditions end at different blanks when no
break stands before the last non-blank character. -/
theorem first_of_classify {line : Text} {directive : Directive} (classified : classify line = some directive) :
    ∃ first rest, occurrences line = first :: rest ∧ first.offset = Text.indent line ∧
      first.directive.keyword = directive.keyword ∧
      ((Text.trim line).OneLine → directive.condition = Text.trimEnd first.directive.condition) := by
  have trimmed := trim_of_classify classified
  rcases occurrences_start line with ⟨whole, rest, found, split⟩ | ⟨code, _⟩
  · obtain rfl := Option.some.inj (classified.symm.trans found)
    -- The first break lies among the blanks at the end, if there is one.
    refine ⟨_, rest, split, rfl, rfl, fun unbroken => (Text.trimEnd_takeWhile ?_).symm⟩
    intro c member
    have listed : c ∈ Text.trim line := by
      rw [trimmed]
      exact List.mem_cons_of_mem _ (List.mem_append_right _ member)
    have other : ∀ {d}, d ∉ Text.trim line → c ≠ d := fun absent same => absent (same ▸ listed)
    simp [isBreak, other unbroken.1, other unbroken.2]
  · rw [code] at classified
    cases classified

/-! ### In the text -/

/-- The `#` of an occurrence is the first non-blank character of a line. -/
def Occurrence.Leads (found : Occurrence) (line : Line) : Prop :=
  ∃ blanks rest, line.text = blanks ++ '#' :: rest ∧ (∀ c ∈ blanks, Text.isBlank c = true) ∧
    found.offset = line.start + Text.byteLength blanks

theorem indent_mark {blanks : Text} (blank : ∀ c ∈ blanks, Text.isBlank c = true) (rest : Text) :
    Text.indent (blanks ++ '#' :: rest) = Text.byteLength blanks := by
  rw [Text.indent, List.takeWhile_append_of_pos blank, List.takeWhile_cons_of_neg (by decide), List.append_nil]

namespace Occurrence

variable {text : Text} {number : Nat} {line : Line} {found : Occurrence}

theorem leads_of_classify {directive : Directive} (classified : classify line.text = some directive)
    (place : found.offset = line.start + Text.indent line.text) : found.Leads line := by
  obtain ⟨blanks, _, split⟩ := Text.trimEnd_append_blanks (Text.trimStart line.text)
  rw [← Text.trim, trim_of_classify classified, List.cons_append] at split
  have whole := List.takeWhile_append_dropWhile (p := Text.isBlank) (l := line.text)
  rw [← Text.trimStart, ← split] at whole
  exact ⟨_, _, whole.symm, fun _ => List.mem_takeWhile_imp, place⟩

theorem Leads.inside (leads : found.Leads line) (read : (LineTable.ofText text).line? number = some line)
    (member : found ∈ occurrences text) :
    ∃ inner ∈ occurrences line.text, inner.offset = Text.indent line.text ∧
      found = { inner with offset := line.start + inner.offset } := by
  obtain ⟨blanks, rest, split, blank, place⟩ := leads
  have indent : Text.indent line.text = Text.byteLength blanks := by rw [split, indent_mark blank]
  have width : Text.byteLength blanks ≤ Text.byteLength line.text := by
    rw [split, Text.byteLength_append]
    omega
  -- The offset lies between the ends of the line, so the search of the line alone finds it too.
  have held : (LineTable.ofText text).lineOf found.offset = number := by
    refine LineTable.lineOf_eq read ?_ ?_
    · omega
    · rw [Line.stop]
      omega
  have listed : found ∈ (occurrences text).filter fun other => (LineTable.ofText text).lineOf other.offset = number :=
    List.mem_filter.mpr ⟨member, decide_eq_true held⟩
  rw [occurrences_on_line read] at listed
  obtain ⟨inner, present, rfl⟩ := List.mem_map.mp listed
  exact ⟨inner, present, (Nat.add_left_cancel place).trans indent.symm, rfl⟩

theorem Leads.eq_first {first : Occurrence} {rest : List Occurrence} (leads : found.Leads line)
    (read : (LineTable.ofText text).line? number = some line) (member : found ∈ occurrences text)
    (split : occurrences line.text = first :: rest) (place : first.offset = Text.indent line.text) :
    found = { first with offset := line.start + first.offset } := by
  obtain ⟨inner, present, same, rfl⟩ := leads.inside read member
  have ordered := findFrom_ordered 0 true line.text
  rw [← occurrences, split] at ordered
  rw [split] at present
  rcases List.mem_cons.mp present with rfl | later
  · rfl
  · have further := (List.pairwise_cons.mp ordered).1 inner later
    omega

end Occurrence

/-- Where the first non-blank character of a line is a `#`, `classify` finds a directive exactly when the
search of the whole text does. It is the first directive of the line, and only a carriage return in the middle
of the line can make the two conditions differ by more than blanks. -/
theorem classify_leading {text : Text} {number : Nat} {line : Line}
    (read : (LineTable.ofText text).line? number = some line) :
    ((∃ directive, classify line.text = some directive) ↔ ∃ found ∈ occurrences text, found.Leads line) ∧
    ∀ directive found, classify line.text = some directive → found ∈ occurrences text → found.Leads line →
      ((occurrences text).filter fun other => (LineTable.ofText text).lineOf other.offset = number).head? = some found ∧
      found.directive.kind = directive.kind ∧ found.directive.keyword = directive.keyword ∧
      ('\r' ∉ Text.trim line.text →
        directive.condition = Text.trimEnd found.directive.condition ∧
        Condition.name directive.condition = Condition.name found.directive.condition) := by
  refine ⟨⟨?_, ?_⟩, ?_⟩
  · rintro ⟨directive, classified⟩
    obtain ⟨first, rest, split, place, _⟩ := first_of_classify classified
    have member : first ∈ occurrences line.text := by
      rw [split]
      exact List.mem_cons_self
    refine ⟨_, mem_occurrences_of_line read member, Occurrence.leads_of_classify classified ?_⟩
    rw [place]
  · rintro ⟨found, member, leads⟩
    obtain ⟨inner, present, place, _⟩ := leads.inside read member
    rcases occurrences_start line.text with ⟨directive, rest, classified, _⟩ | ⟨_, further⟩
    · exact ⟨_, classified⟩
    · have right := further inner present
      omega
  · intro directive found classified member leads
    obtain ⟨first, rest, split, place, keyword, condition⟩ := first_of_classify classified
    obtain rfl := leads.eq_first read member split place
    refine ⟨?_, congrArg Keyword.kind keyword, keyword, fun unbroken => ?_⟩
    · rw [occurrences_on_line read, split]
      rfl
    · obtain ⟨before, ending, after, stands⟩ := LineTable.line_stands read
      have feedless : '\n' ∉ Text.trim line.text := fun feed => stands.feedless ((Text.trim_sublist _).subset feed)
      have same := condition ⟨feedless, unbroken⟩
      exact ⟨same, by rw [same, Condition.name_trimEnd]⟩

/-- The second line starts with a blank of three bytes and keeps a carriage return at its end. Of its two
directives, the condition of the first swallows the second. -/
theorem classify_leading_swallowed :
    ((occurrences "x\n\u2003#if A // #else \r\r\n".toList).filter fun other =>
      (LineTable.ofText "x\n\u2003#if A // #else \r\r\n".toList).lineOf other.offset = 1).head? =
        some { offset := 5, directive := { keyword := .plainIf, condition := " A // #else ".toList } } ∧
    Condition.name " A // #else".toList = Condition.name " A // #else ".toList := by
  have read : (LineTable.ofText "x\n\u2003#if A // #else \r\r\n".toList).line? 1 =
      some { start := 2, text := "\u2003#if A // #else \r".toList } := by
    decide +kernel
  have classified : classify "\u2003#if A // #else \r".toList =
      some { keyword := .plainIf, condition := " A // #else".toList } := by
    decide +kernel
  have leads : Occurrence.Leads
      { offset := 5, directive := { keyword := .plainIf, condition := " A // #else ".toList } }
      { start := 2, text := "\u2003#if A // #else \r".toList } :=
    ⟨['\u2003'], "if A // #else \r".toList, by decide +kernel, List.forall_mem_singleton.mpr (by decide), rfl⟩
  obtain ⟨first, _, _, same⟩ := (classify_leading read).2 _ _ classified (by decide +kernel) leads
  exact ⟨first, (same (by decide +kernel)).2⟩

end Conditionals
