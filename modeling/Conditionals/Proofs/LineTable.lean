import Conditionals.Proofs.Occurrence.Lines
import Conditionals.Proofs.Text.Slice

/-!
# Line tables are exact

A line table neither loses nor moves a byte of its text. `place_stands` says where each line stands:
between lines there are only their ends, and behind the last one at most a carriage return. The line of
an offset is the number of line feeds before it (`findIdx_place_eq`). `Exact` collects what holds
between a text and its table.
-/

namespace Conditionals.LineTable

/-- A line and the next one, if any, in a text that starts at `base`: the line stands behind `before`, and
`ending` and `after` follow it. -/
structure Stands (base : Nat) (text before : Text) (line : Line) (ending after : Text) (next? : Option Line) :
    Prop where
  split : text = before ++ (line.text ++ (ending ++ after))
  start : line.start = base + Text.byteLength before
  feedless : '\n' ∉ line.text
  last : next? = none → after = [] ∧ (ending = [] ∨ ending = ['\r'])
  next : ∀ next ∈ next?, next.start = line.stop + Text.byteLength ending ∧ (ending = ['\n'] ∨ ending = ['\r', '\n'])

theorem byteLength_feed (text : Text) : Text.byteLength ('\n' :: text) = Text.byteLength text + 1 := by
  rw [Text.byteLength_cons, Nat.add_comm]
  rfl

namespace Stands

section Pieces

variable {piece : Text} (base : Nat)

theorem sole (absent : '\n' ∉ piece) :
    ∃ ending, Stands base piece [] { start := base, text := Text.dropReturn piece } ending [] none := by
  obtain ⟨ending, ends, split⟩ := Text.dropReturn_append piece
  refine ⟨ending, ?_, rfl, ?_, fun _ => ⟨rfl, ends⟩, by simp⟩
  · rw [List.append_nil, List.nil_append, split]
  · exact fun inside => absent (split ▸ List.mem_append_left _ inside)

theorem front (absent : '\n' ∉ piece) (rest : Text) {next : Line}
    (start : next.start = base + Text.byteLength piece + 1) :
    ∃ ending, Stands base (piece ++ '\n' :: rest) [] { start := base, text := Text.dropReturn piece } ending rest
      (some next) := by
  obtain ⟨ending, ends, split⟩ := Text.dropReturn_append piece
  have width := congrArg Text.byteLength split
  rw [Text.byteLength_append] at width
  refine ⟨ending ++ ['\n'], ?_, rfl, ?_, by simp, ?_⟩
  · rw [List.nil_append, List.append_assoc, ← List.append_assoc, split, List.singleton_append]
  · exact fun inside => absent (split ▸ List.mem_append_left _ inside)
  · rintro _ ⟨⟩
    constructor
    · rw [start, Line.stop, Text.byteLength_append, byteLength_feed, Text.byteLength_nil]
      dsimp only
      omega
    · rcases ends with rfl | rfl
      · exact Or.inl rfl
      · exact Or.inr rfl

theorem behind {rest before ending after : Text} {line : Line} {next? : Option Line}
    (stands : Stands (base + Text.byteLength piece + 1) rest before line ending after next?) :
    Stands base (piece ++ '\n' :: rest) (piece ++ '\n' :: before) line ending after next? := by
  obtain ⟨split, start, feedless, last, next⟩ := stands
  refine ⟨?_, ?_, feedless, last, next⟩
  · rw [split, List.append_assoc, List.cons_append]
  · rw [start, Text.byteLength_append, byteLength_feed]
    omega

end Pieces

section Slices

variable {text before ending after : Text} {line : Line} {next? : Option Line}

theorem start_eq (stands : Stands 0 text before line ending after next?) : line.start = Text.byteLength before :=
  stands.start.trans (Nat.zero_add _)

theorem stop_eq (stands : Stands 0 text before line ending after next?) :
    line.stop = Text.byteLength (before ++ line.text) := by
  rw [Line.stop, stands.start_eq, Text.byteLength_append]

theorem slice_line (stands : Stands 0 text before line ending after next?) :
    Text.slice? text line.start line.stop = some line.text := by
  have slice := Text.slice?_append before line.text (ending ++ after)
  rwa [List.append_assoc, ← stands.split, ← stands.start_eq] at slice

theorem slice_ending (stands : Stands 0 text before line ending after next?) :
    Text.slice? text line.stop (line.stop + Text.byteLength ending) = some ending := by
  have slice := Text.slice?_append (before ++ line.text) ending after
  rwa [List.append_assoc, List.append_assoc, ← stands.split, ← stands.stop_eq] at slice

theorem length_eq (stands : Stands 0 text before line ending after next?) :
    Text.byteLength text = line.stop + Text.byteLength ending + Text.byteLength after := by
  rw [stands.split, Text.byteLength_append, Text.byteLength_append, Text.byteLength_append, Line.stop, stands.start_eq]
  omega

end Slices

end Stands

theorem place_eq_cons (base : Nat) (text : Text) :
    ∃ line lines, place base (text.splitOn '\n') = line :: lines ∧ line.start = base := by
  cases pieces : text.splitOn '\n' with
  | nil => exact absurd pieces (List.splitOn_ne_nil _ _)
  | cons piece rest => exact ⟨_, _, rfl, rfl⟩

theorem place_stands {text : Text} {base number : Nat} {line : Line}
    (read : (place base (text.splitOn '\n'))[number]? = some line) :
    ∃ before ending after, Stands base text before line ending after (place base (text.splitOn '\n'))[number + 1]? := by
  -- The table of the rest starts at another offset, so the base is general.
  revert base number line
  refine Text.piece_induction (P := fun text => ∀ {base number line},
    (place base (text.splitOn '\n'))[number]? = some line → ∃ before ending after,
      Stands base text before line ending after (place base (text.splitOn '\n'))[number + 1]?) ?_ ?_ text
  · intro piece absent base number line read
    rw [List.splitOn_eq_singleton absent] at read ⊢
    cases number with
    | zero =>
      cases read
      obtain ⟨ending, stands⟩ := Stands.sole base absent
      exact ⟨[], ending, [], stands⟩
    | succ number => cases read
  · intro piece rest absent ih base number line read
    rw [List.splitOn_append_cons_self_of_not_mem absent, place] at read ⊢
    rw [List.getElem?_cons_succ]
    cases number with
    | zero =>
      cases read
      obtain ⟨next, lines, placed, start⟩ := place_eq_cons (base + Text.byteLength piece + 1) rest
      obtain ⟨ending, stands⟩ := Stands.front base absent rest start
      rw [placed]
      exact ⟨[], ending, rest, stands⟩
    | succ number =>
      obtain ⟨before, ending, after, stands⟩ := ih read
      exact ⟨_, ending, after, stands.behind base⟩

theorem findIdx_place_eq {text : Text} {base offset : Nat} (behind : base ≤ offset) :
    (place base (text.splitOn '\n')).findIdx (fun line => offset < line.start) =
      ((Text.bytes text).take (offset - base)).count '\n'.toUInt8 + 1 := by
  revert base
  refine Text.piece_induction (P := fun text => ∀ {base}, base ≤ offset →
    (place base (text.splitOn '\n')).findIdx (fun line => offset < line.start) =
      ((Text.bytes text).take (offset - base)).count '\n'.toUInt8 + 1) ?_ ?_ text
  · intro piece absent base behind
    rw [List.splitOn_eq_singleton absent, Text.count_bytes_absent (by decide) absent, place, place, List.findIdx_cons,
      decide_eq_false (Nat.not_lt.mpr behind)]
    rfl
  · intro piece rest absent ih base behind
    rw [List.splitOn_append_cons_self_of_not_mem absent, Text.count_bytes_cut (by decide) absent, place,
      List.findIdx_cons, decide_eq_false (Nat.not_lt.mpr behind), cond_false]
    split
    · -- The next line starts behind the offset already.
      rename_i inside
      obtain ⟨next, lines, placed, start⟩ := place_eq_cons (base + Text.byteLength piece + 1) rest
      rw [placed, List.findIdx_cons, decide_eq_true (by omega), cond_true]
    · rename_i further
      have moved : offset - (base + Text.byteLength piece + 1) = offset - base - Text.byteLength piece - 1 := by omega
      rw [ih (by omega), moved]

/-! ### The table of a text -/

theorem line_stands {text : Text} {number : Nat} {line : Line} (read : (ofText text).line? number = some line) :
    ∃ before ending after, Stands 0 text before line ending after ((ofText text).line? (number + 1)) :=
  place_stands read

theorem lineOf_eq_count (text : Text) (offset : Nat) :
    (ofText text).lineOf offset = ((Text.bytes text).take offset).count '\n'.toUInt8 := by
  rw [lineOf, ofText, findIdx_place_eq (Nat.zero_le offset)]
  rfl

theorem isSome_range? (table : LineTable) (number : Nat) : (table.range? number).isSome ↔ number < table.lineCount := by
  rw [range?, Option.isSome_map, line?, isSome_getElem?]
  rfl

theorem line_of_range? {table : LineTable} {number start stop : Nat}
    (range : table.range? number = some (start, stop)) :
    ∃ line, table.line? number = some line ∧ line.start = start ∧ line.stop = stop := by
  obtain ⟨line, read, same⟩ := Option.map_eq_some_iff.mp range
  obtain ⟨rfl, rfl⟩ := Prod.mk.inj same
  exact ⟨line, read, rfl, rfl⟩

theorem slice_between {text : Text} {number : Nat} {line next : Line} (read : (ofText text).line? number = some line)
    (follows : (ofText text).line? (number + 1) = some next) :
    Text.slice? text line.stop next.start = some ['\n'] ∨
      Text.slice? text line.stop next.start = some ['\r', '\n'] := by
  obtain ⟨before, ending, after, stands⟩ := line_stands read
  obtain ⟨start, ends⟩ := stands.next next follows
  have slice := stands.slice_ending
  rw [← start] at slice
  rcases ends with rfl | rfl
  · exact Or.inl slice
  · exact Or.inr slice

theorem slice_rest {text : Text} {number : Nat} {line : Line} (read : (ofText text).line? number = some line)
    (none : (ofText text).line? (number + 1) = none) :
    Text.slice? text line.stop (Text.byteLength text) = some [] ∨
      Text.slice? text line.stop (Text.byteLength text) = some ['\r'] := by
  obtain ⟨before, ending, after, stands⟩ := line_stands read
  obtain ⟨rfl, ends⟩ := stands.last none
  have whole : Text.byteLength text = line.stop + Text.byteLength ending := stands.length_eq
  have slice := stands.slice_ending
  rw [← whole] at slice
  rcases ends with rfl | rfl
  · exact Or.inl slice
  · exact Or.inr slice

theorem lineOf_beyond {text : Text} {offset : Nat} (beyond : Text.byteLength text ≤ offset) :
    (ofText text).lineOf offset + 1 = (ofText text).lineCount := by
  have started : ∀ line ∈ (ofText text).lines, decide (offset < line.start) = false := by
    intro line member
    obtain ⟨number, read⟩ := List.getElem?_of_mem member
    obtain ⟨before, ending, after, stands⟩ := line_stands read
    have whole := stands.length_eq
    have bounds : line.start ≤ line.stop := Nat.le_add_right _ _
    exact decide_eq_false (by omega)
  obtain ⟨first, lines, placed, _⟩ := place_eq_cons 0 text
  have some_ : 0 < (ofText text).lines.length := by
    rw [ofText, placed]
    exact Nat.succ_pos _
  rw [lineOf, lineCount, List.findIdx_eq_length_of_false started]
  omega

/-- A table tells the lines of a text by their bytes. -/
structure Exact (text : Text) (table : LineTable) : Prop where
  /-- The line of an offset is the number of line feeds before it. -/
  counted : ∀ offset, table.lineOf offset = ((Text.bytes text).take offset).count '\n'.toUInt8
  beyond : ∀ offset, Text.byteLength text ≤ offset → table.lineOf offset + 1 = table.lineCount
  monotone : ∀ first second, first ≤ second → table.lineOf first ≤ table.lineOf second
  present : ∀ number, (table.range? number).isSome ↔ number < table.lineCount
  cut : ∀ number start stop, table.range? number = some (start, stop) →
    start ≤ stop ∧ stop ≤ Text.byteLength text ∧
      ∃ line, table.text? number = some line ∧ Text.slice? text start stop = some line
  held : ∀ number start stop, table.range? number = some (start, stop) →
    table.lineOf start = number ∧ table.lineOf stop = number
  first : ∃ stop, table.range? 0 = some (0, stop)
  between : ∀ number start stop start' stop', table.range? number = some (start, stop) →
    table.range? (number + 1) = some (start', stop') →
    Text.slice? text stop start' = some ['\n'] ∨ Text.slice? text stop start' = some ['\r', '\n']
  rest : ∀ start stop, table.range? (table.lineCount - 1) = some (start, stop) →
    Text.slice? text stop (Text.byteLength text) = some [] ∨
      Text.slice? text stop (Text.byteLength text) = some ['\r']

/-- The table of a text is exact, and the table of lines put together gives them back, each without the
carriage return at its end. -/
theorem ofText_exact (text : Text) :
    Exact text (ofText text) ∧
    ∀ pieces : List Text, pieces ≠ [] → (∀ piece ∈ pieces, '\n' ∉ piece) →
      (ofText (['\n'].intercalate pieces)).texts =
        pieces.map fun piece => if piece.getLast? = some '\r' then piece.dropLast else piece := by
  refine ⟨?_, ?_⟩
  · constructor
    case counted => exact lineOf_eq_count text
    case beyond => exact fun offset => lineOf_beyond
    case monotone =>
      intro first second below
      rw [lineOf_eq_count, lineOf_eq_count]
      exact (List.take_prefix_take_left below).sublist.count_le _
    case present => exact isSome_range? _
    case cut =>
      intro number start stop range
      obtain ⟨line, read, rfl, rfl⟩ := line_of_range? range
      obtain ⟨before, ending, after, stands⟩ := line_stands read
      have whole := stands.length_eq
      exact ⟨Nat.le_add_right _ _, by omega, line.text, by rw [text?, read]; rfl, stands.slice_line⟩
    case held =>
      intro number start stop range
      obtain ⟨line, read, rfl, rfl⟩ := line_of_range? range
      have bounds : line.start ≤ line.stop := Nat.le_add_right _ _
      exact ⟨lineOf_eq read (Nat.le_refl _) bounds, lineOf_eq read bounds (Nat.le_refl _)⟩
    case first =>
      obtain ⟨line, lines, placed, start⟩ := place_eq_cons 0 text
      refine ⟨line.stop, ?_⟩
      rw [range?, line?, ofText, placed]
      show some (line.start, line.stop) = some (0, line.stop)
      rw [start]
    case between =>
      intro number start stop start' stop' range range'
      obtain ⟨line, read, rfl, rfl⟩ := line_of_range? range
      obtain ⟨next, read', rfl, rfl⟩ := line_of_range? range'
      exact slice_between read read'
    case rest =>
      intro start stop range
      obtain ⟨line, read, rfl, rfl⟩ := line_of_range? range
      refine slice_rest read (List.getElem?_eq_none ?_)
      rw [lineCount]
      omega
  · intro pieces some_ absent
    rw [texts_ofText, List.splitOn_intercalate '\n' absent some_]
    rfl

/-- Only the last of two carriage returns belongs to the end of the line. -/
theorem ofText_exact_returns :
    (∀ piece ∈ ["é\r".toList, [], ['\r'], "a\r\r".toList], '\n' ∉ piece) ∧
      (ofText "é\r\n\n\r\na\r\r".toList).texts = ["é".toList, [], [], "a\r".toList] := by
  have absent : ∀ piece ∈ ["é\r".toList, [], ['\r'], "a\r\r".toList], '\n' ∉ piece := by decide
  exact ⟨absent, (ofText_exact []).2 _ (by decide) absent⟩

end Conditionals.LineTable
