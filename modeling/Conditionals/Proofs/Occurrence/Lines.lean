import Conditionals.Decoration.Scan
import Conditionals.Section
import Mathlib.Data.List.Basic
import Mathlib.Data.List.TakeWhile

/-!
# Directives line by line

A directive never reaches over a line break, so searching a whole text finds the directives of its
lines one after the other. `occurrences_eq` says so with offsets and `locate_eq` with line numbers, and
`occurrences_by_line` for each line alone.
-/

namespace Conditionals

theorem Text.after?_append {lead : Text} {c : Char} (absent : c ∉ lead) (text rest : Text) :
    Text.after? lead (text ++ c :: rest) = (Text.after? lead text).map (· ++ c :: rest) := by
  induction lead generalizing text with
  | nil => rfl
  | cons d lead ih =>
    obtain ⟨different, absent⟩ := not_or.mp (mt List.mem_cons.mpr absent)
    cases text with
    | nil => simp [Text.after?, Ne.symm different]
    | cons e text =>
      simp only [List.cons_append, Text.after?, ih absent]
      split <;> rfl

/-- A keyword is read alike before and after text is added that no keyword contains. -/
theorem Directive.read?_append {c : Char} (absent : ∀ keyword : Keyword, c ∉ keyword.spelling) (text rest : Text) :
    Directive.read? (text ++ c :: rest) =
      (Directive.read? text).map fun directive => { directive with condition := directive.condition ++ c :: rest } := by
  have keywords : Keyword.read? (text ++ c :: rest) =
      (Keyword.read? text).map fun found => (found.1, found.2 ++ c :: rest) := by
    simp only [Keyword.read?, Text.after?_append (absent _), List.map_findSome?]
    congr 1
    funext keyword
    simp [Function.comp_def]
  rw [Directive.read?, Directive.read?, keywords, Option.map_map, Option.map_map]
  rfl

theorem break_not_mem_spelling {c : Char} (ends : isBreak c = true) (keyword : Keyword) : c ∉ keyword.spelling := by
  simp only [isBreak, Bool.or_eq_true, decide_eq_true_eq] at ends
  rcases ends with rfl | rfl <;> cases keyword <;> decide

theorem takeWhile_append_break {c : Char} (ends : isBreak c = true) (text rest : Text) :
    (text ++ c :: rest).takeWhile (fun c => !isBreak c) = text.takeWhile fun c => !isBreak c := by
  induction text with
  | nil => simp [ends]
  | cons d text ih => simp [List.takeWhile_cons, ih]

theorem Text.dropReturn_append (piece : Text) :
    ∃ ending, (ending = [] ∨ ending = ['\r']) ∧ Text.dropReturn piece ++ ending = piece := by
  unfold Text.dropReturn
  split
  · rename_i last
    exact ⟨['\r'], Or.inr rfl, List.dropLast_append_getLast? '\r' last⟩
  · exact ⟨[], Or.inl rfl, List.append_nil piece⟩

namespace Occurrence

/-- A line break ends the stretch of text before it, and the search starts again behind it. -/
theorem findFrom_append {c : Char} (ends : isBreak c = true) (offset : Nat) (seeking : Bool) (text rest : Text) :
    findFrom offset seeking (text ++ c :: rest) =
      findFrom offset seeking text ++ findFrom (offset + Text.byteLength text + c.utf8Size) true rest := by
  induction text generalizing offset seeking with
  | nil => simp [findFrom, ends]
  | cons d text ih =>
    have moved : offset + d.utf8Size + Text.byteLength text = offset + Text.byteLength (d :: text) := by
      rw [Text.byteLength_cons]
      omega
    simp only [List.cons_append, findFrom, ih, moved, Directive.read?_append (break_not_mem_spelling ends)]
    split
    · rfl
    split
    · cases Directive.read? text with
      | none => rfl
      | some directive =>
        simp only [Option.map_some, takeWhile_append_break ends, List.cons_append]
    · rfl

theorem findFrom_dropReturn (offset : Nat) (seeking : Bool) (piece : Text) :
    findFrom offset seeking (Text.dropReturn piece) = findFrom offset seeking piece := by
  obtain ⟨ending, rfl | rfl, split⟩ := Text.dropReturn_append piece
  · rw [List.append_nil] at split
    rw [split]
  · have found := findFrom_append (by decide : isBreak '\r' = true) offset seeking (Text.dropReturn piece) []
    rw [split] at found
    simpa [findFrom] using found.symm

/-- Where a search starts only moves the offsets it finds. -/
theorem findFrom_shift (offset start : Nat) (seeking : Bool) (text : Text) :
    findFrom (offset + start) seeking text =
      (findFrom start seeking text).map fun found => { found with offset := offset + found.offset } := by
  induction text generalizing start seeking with
  | nil => rfl
  | cons c text ih =>
    simp only [findFrom, Nat.add_assoc, ih]
    split
    · rfl
    split
    · cases Directive.read? text <;> rfl
    · rfl

theorem findFrom_bounds {offset : Nat} {seeking : Bool} {text : Text} {found : Occurrence}
    (member : found ∈ findFrom offset seeking text) :
    offset ≤ found.offset ∧ found.offset < offset + Text.byteLength text := by
  induction text generalizing offset seeking with
  | nil => cases member
  | cons c text ih =>
    have wide := c.utf8Size_pos
    rw [Text.byteLength_cons]
    simp only [findFrom] at member
    split at member
    · have bounds := ih member
      omega
    split at member
    · cases read : Directive.read? text with
      | none =>
        simp only [read] at member
        have bounds := ih member
        omega
      | some directive =>
        simp only [read] at member
        rcases List.mem_cons.mp member with rfl | member
        · dsimp only
          omega
        · have bounds := ih member
          omega
    · have bounds := ih member
      omega

theorem findFrom_ordered (offset : Nat) (seeking : Bool) (text : Text) :
    (findFrom offset seeking text).Pairwise fun first second => first.offset < second.offset := by
  induction text generalizing offset seeking with
  | nil => exact .nil
  | cons c text ih =>
    simp only [findFrom]
    split
    · exact ih _ _
    split
    · cases Directive.read? text with
      | none => exact ih _ _
      | some directive =>
        refine List.pairwise_cons.mpr ⟨?_, ih _ _⟩
        intro found member
        have wide := c.utf8Size_pos
        have bounds := findFrom_bounds member
        dsimp only
        omega
    · exact ih _ _

end Occurrence

/-! ### Lines of a text -/

/-- Texts are made of pieces without ends and of ends between them. -/
theorem Text.cut_induction {P : Text → Prop} (ends : Char → Bool)
    (last : ∀ piece, (∀ c ∈ piece, ends c = false) → P piece)
    (more : ∀ piece c rest, (∀ d ∈ piece, ends d = false) → ends c = true → P rest → P (piece ++ c :: rest))
    (text : Text) : P text := by
  induction size : text.length using Nat.strongRecOn generalizing text with
  | ind length ih =>
    have split := List.takeWhile_append_dropWhile (p := fun c => !ends c) (l := text)
    have inside : ∀ c ∈ text.takeWhile (fun c => !ends c), ends c = false := by
      intro c member
      simpa using List.mem_takeWhile_imp member
    cases tail : text.dropWhile (fun c => !ends c) with
    | nil =>
      rw [tail, List.append_nil] at split
      rw [← split]
      exact last _ inside
    | cons c rest =>
      have stop := List.head?_dropWhile_not (fun c => !ends c) text
      rw [tail] at stop split
      rw [← split]
      refine more _ c rest inside (by simpa using stop) (ih rest.length ?_ rest rfl)
      rw [← size, ← split, List.length_append, List.length_cons]
      omega

/-- Texts are made of pieces without line feeds and of line feeds between them. -/
theorem Text.piece_induction {P : Text → Prop} (last : ∀ piece, '\n' ∉ piece → P piece)
    (more : ∀ piece rest, '\n' ∉ piece → P rest → P (piece ++ '\n' :: rest)) (text : Text) : P text := by
  have absent : ∀ {piece : Text}, (∀ c ∈ piece, decide (c = '\n') = false) → '\n' ∉ piece :=
    fun inside member => absurd (inside _ member) (by decide)
  refine Text.cut_induction (fun c => decide (c = '\n')) (fun piece inside => last piece (absent inside)) ?_ text
  intro piece c rest inside feed ih
  obtain rfl := of_decide_eq_true feed
  exact more piece rest (absent inside) ih

namespace LineTable

theorem place_starts {offset : Nat} {pieces : List Text} {line : Line} (member : line ∈ place offset pieces) :
    offset ≤ line.start := by
  induction pieces generalizing offset with
  | nil => cases member
  | cons piece rest ih =>
    rw [place] at member
    rcases List.mem_cons.mp member with rfl | member
    · exact Nat.le_refl offset
    · have later := ih member
      omega

theorem byteLength_dropReturn (piece : Text) : Text.byteLength (Text.dropReturn piece) ≤ Text.byteLength piece := by
  obtain ⟨ending, _, split⟩ := Text.dropReturn_append piece
  have sum := congrArg Text.byteLength split
  rw [Text.byteLength_append] at sum
  omega

theorem length_texts (table : LineTable) : table.texts.length = table.lineCount :=
  List.length_map _

theorem text?_eq (table : LineTable) (number : Nat) : table.text? number = table.texts[number]? := by
  rw [texts, List.getElem?_map]
  rfl

theorem text?_of_lt {table : LineTable} {number : Nat} (inside : number < table.texts.length) :
    table.text? number = some table.texts[number] := by
  rw [text?_eq, List.getElem?_eq_getElem inside]

theorem texts_ofText (text : Text) : (ofText text).texts = (text.splitOn '\n').map Text.dropReturn := by
  have placed : ∀ offset pieces, (place offset pieces).map Line.text = pieces.map Text.dropReturn := by
    intro offset pieces
    induction pieces generalizing offset with
    | nil => rfl
    | cons piece rest ih => rw [place, List.map_cons, ih, List.map_cons]
  exact placed 0 _

theorem texts_append (first second : Text) :
    (ofText (first ++ '\n' :: second)).texts = (ofText first).texts ++ (ofText second).texts := by
  rw [texts_ofText, List.splitOn_append_cons_self, List.map_append, ← texts_ofText, ← texts_ofText]

/-- Every line but the ones up to a given one starts behind that line. -/
theorem findIdx_place {offset at_ number : Nat} {pieces : List Text} {line : Line}
    (read : (place offset pieces)[number]? = some line) (after : line.start ≤ at_) (before : at_ ≤ line.stop) :
    (place offset pieces).findIdx (fun line => at_ < line.start) = number + 1 := by
  induction pieces generalizing offset number with
  | nil => simp [place] at read
  | cons piece rest ih =>
    have started := place_starts (List.mem_of_getElem? read)
    rw [place] at read ⊢
    rw [List.findIdx_cons, show decide (at_ < offset) = false by simp; omega]
    cases number with
    | zero =>
      obtain rfl := Option.some.inj read
      have short := byteLength_dropReturn piece
      simp only [Line.stop] at before
      cases rest with
      | nil => rfl
      | cons next rest =>
        rw [place, List.findIdx_cons, show decide (at_ < offset + Text.byteLength piece + 1) = true by simp; omega]
        rfl
    | succ number =>
      rw [List.getElem?_cons_succ] at read
      rw [ih read]
      rfl

theorem lineOf_eq {text : Text} {number offset : Nat} {line : Line} (read : (ofText text).line? number = some line)
    (after : line.start ≤ offset) (before : offset ≤ line.stop) : (ofText text).lineOf offset = number := by
  rw [lineOf, ofText, findIdx_place read after before]
  rfl

end LineTable

/-- The directives of a text are those of its lines, moved to where the lines start. -/
theorem occurrences_eq (text : Text) :
    occurrences text = (LineTable.ofText text).lines.flatMap fun line =>
      (occurrences line.text).map fun found => { found with offset := line.start + found.offset } := by
  have placed : ∀ offset, Occurrence.findFrom offset true text =
      (LineTable.place offset (text.splitOn '\n')).flatMap fun line =>
        (occurrences line.text).map fun found => { found with offset := line.start + found.offset } := by
    refine Text.piece_induction (P := fun text => ∀ offset, Occurrence.findFrom offset true text =
      (LineTable.place offset (text.splitOn '\n')).flatMap fun line =>
        (occurrences line.text).map fun found => { found with offset := line.start + found.offset }) ?_ ?_ text
    · intro piece absent offset
      rw [List.splitOn_eq_singleton absent]
      simp [LineTable.place, occurrences, Occurrence.findFrom_dropReturn, ← Occurrence.findFrom_shift]
    · intro piece rest absent ih offset
      rw [List.splitOn_append_cons_self_of_not_mem absent, Occurrence.findFrom_append (by decide), ih]
      simp [LineTable.place, occurrences, Occurrence.findFrom_dropReturn, ← Occurrence.findFrom_shift]
      rfl
  exact placed 0

theorem mem_occurrences_of_line {text : Text} {number : Nat} {line : Line} {found : Occurrence}
    (read : (LineTable.ofText text).line? number = some line) (member : found ∈ occurrences line.text) :
    { found with offset := line.start + found.offset } ∈ occurrences text := by
  rw [occurrences_eq]
  exact List.mem_flatMap.mpr ⟨line, List.mem_of_getElem? read, List.mem_map_of_mem member⟩

namespace Decoration

/-- The directives of one line with a given number. -/
def locateLine (number : Nat) (line : Text) : List Located :=
  (occurrences line).map fun found =>
    { line := number, commented := isComment line, directive := found.directive }

theorem locate_offset {text : Text} {number : Nat} {line : Line} {found : Occurrence}
    (read : (LineTable.ofText text).line? number = some line) (member : found ∈ occurrences line.text) :
    (LineTable.ofText text).lineOf (line.start + found.offset) = number := by
  have bounds := Occurrence.findFrom_bounds member
  refine LineTable.lineOf_eq read (Nat.le_add_right _ _) ?_
  rw [Line.stop]
  omega

end Decoration

theorem flatMap_eq_of_getElem? {α β : Type} {values : List α} {images : α → List β} {number : Nat} {value : α}
    (read : values[number]? = some value)
    (others : ∀ index other, values[index]? = some other → index ≠ number → images other = []) :
    values.flatMap images = images value := by
  induction values generalizing number with
  | nil => cases read
  | cons first rest ih =>
    rw [List.flatMap_cons]
    cases number with
    | zero =>
      obtain rfl := Option.some.inj read
      have none : rest.flatMap images = [] := by
        refine List.flatMap_eq_nil_iff.mpr fun other member => ?_
        obtain ⟨index, listed⟩ := List.getElem?_of_mem member
        exact others (index + 1) other listed (by omega)
      rw [none, List.append_nil]
    | succ number =>
      have last := ih read fun index other listed different => others (index + 1) other listed (by omega)
      rw [others 0 first rfl (by omega), List.nil_append, last]

/-- The directives whose offsets lie on one line of a text are those of the line. -/
theorem occurrences_on_line {text : Text} {number : Nat} {line : Line}
    (read : (LineTable.ofText text).line? number = some line) :
    (occurrences text).filter (fun found => (LineTable.ofText text).lineOf found.offset = number) =
      (occurrences line.text).map fun found => { found with offset := line.start + found.offset } := by
  -- What is found on a line with another number is left out.
  have others : ∀ index other, (LineTable.ofText text).line? index = some other → index ≠ number →
      ((occurrences other.text).map fun found => { found with offset := other.start + found.offset }).filter
        (fun found => (LineTable.ofText text).lineOf found.offset = number) = [] := by
    intro index other listed different
    refine List.filter_eq_nil_iff.mpr ?_
    intro moved member
    obtain ⟨found, present, rfl⟩ := List.mem_map.mp member
    rw [Decoration.locate_offset listed present, decide_eq_true_eq]
    exact different
  have itself : ((occurrences line.text).map fun found => { found with offset := line.start + found.offset }).filter
      (fun found => (LineTable.ofText text).lineOf found.offset = number) =
      (occurrences line.text).map fun found => { found with offset := line.start + found.offset } := by
    refine List.filter_eq_self.mpr ?_
    intro moved member
    obtain ⟨found, present, rfl⟩ := List.mem_map.mp member
    rw [Decoration.locate_offset read present, decide_eq_true_eq]
  have alone := flatMap_eq_of_getElem? read others
  rw [itself] at alone
  rw [occurrences_eq, List.filter_flatMap, alone]

namespace Decoration

theorem locate_eq (text : Text) :
    locate text = (LineTable.ofText text).texts.zipIdx.flatMap fun (line, number) => locateLine number line := by
  have numbered := List.zipIdx_map_fst 0 (LineTable.ofText text).lines
  rw [locate, occurrences_eq, List.map_flatMap, ← numbered, List.flatMap_map]
  rw [LineTable.texts, List.zipIdx_map, List.flatMap_map]
  refine List.flatMap_congr ?_
  rintro ⟨line, number⟩ member
  have read : (LineTable.ofText text).line? number = some line := List.mem_zipIdx_iff_getElem?.mp member
  simp only [locateLine, List.map_map, Prod.map_apply, id_eq]
  refine List.map_congr_left fun found present => ?_
  simp [locate_offset read present, LineTable.text?, read]

theorem locate_ordered (text : Text) :
    (locate text).Pairwise fun first second => first.line ≤ second.line := by
  have numbers : (LineTable.ofText text).texts.zipIdx.Pairwise fun first second => first.2 < second.2 := by
    rw [← List.pairwise_map, List.zipIdx_map_snd]
    exact List.pairwise_lt_range'
  rw [locate_eq]
  refine List.pairwise_flatMap.mpr ⟨?_, numbers.imp ?_⟩
  · rintro ⟨line, number⟩ _
    exact List.pairwise_map.mpr (List.pairwise_of_forall fun _ _ => Nat.le_refl number)
  · rintro ⟨line, number⟩ ⟨line', number'⟩ below first left second right
    obtain ⟨_, _, rfl⟩ := List.mem_map.mp left
    obtain ⟨_, _, rfl⟩ := List.mem_map.mp right
    exact Nat.le_of_lt below

theorem lines_below (text : Text) : ∀ located ∈ locate text, located.line < (LineTable.ofText text).lineCount := by
  intro located member
  rw [locate_eq] at member
  obtain ⟨⟨line, number⟩, listed, found⟩ := List.mem_flatMap.mp member
  obtain ⟨occurrence, _, rfl⟩ := List.mem_map.mp found
  have inside := List.snd_lt_of_mem_zipIdx listed
  rwa [LineTable.length_texts] at inside

theorem locate_on_line {text : Text} {number : Nat} {line : Line}
    (read : (LineTable.ofText text).line? number = some line) :
    (locate text).filter (fun located => located.line = number) = locateLine number line.text := by
  simp only [locate, locateLine, List.filter_map, Function.comp_def, occurrences_on_line read, List.map_map]
  refine List.map_congr_left fun found present => ?_
  simp [locate_offset read present, LineTable.text?, read]

end Decoration

/-- The directives of a text on one of its lines are those of the line, moved to where it starts, and all
lines together have all directives. A search of single lines for directives therefore sees what the
decoration scan sees. -/
theorem occurrences_by_line (text : Text) :
    (∀ number < (LineTable.ofText text).lineCount, ∃ start stop line,
      (LineTable.ofText text).range? number = some (start, stop) ∧ (LineTable.ofText text).text? number = some line ∧
      (occurrences text).filter (fun found => (LineTable.ofText text).lineOf found.offset = number) =
        (occurrences line).map (fun found => { found with offset := start + found.offset }) ∧
      ∀ wanted, hasDirective wanted line = ((Decoration.locate text).filter fun located => located.line = number).any
        fun located => wanted located.directive.kind) ∧
    occurrences text = (LineTable.ofText text).lines.flatMap fun line =>
      (occurrences line.text).map fun found => { found with offset := line.start + found.offset } := by
  refine ⟨?_, occurrences_eq text⟩
  intro number below
  have read : (LineTable.ofText text).line? number = some (LineTable.ofText text).lines[number] :=
    List.getElem?_eq_getElem below
  refine ⟨_, _, _, by rw [LineTable.range?, read]; rfl, by rw [LineTable.text?, read]; rfl, occurrences_on_line read, ?_⟩
  intro wanted
  rw [Decoration.locate_on_line read, hasDirective, Decoration.locateLine, List.any_map]
  rfl

/-- Both directives of the second line count from its start, ten bytes into the text. -/
theorem occurrences_by_line_return :
    1 < (LineTable.ofText "é #if A\r\nx #endif\r#else".toList).lineCount ∧
      (occurrences "é #if A\r\nx #endif\r#else".toList).filter (fun found =>
        (LineTable.ofText "é #if A\r\nx #endif\r#else".toList).lineOf found.offset = 1) =
      (occurrences "x #endif\r#else".toList).map fun found => { found with offset := 10 + found.offset } := by
  have below : 1 < (LineTable.ofText "é #if A\r\nx #endif\r#else".toList).lineCount := by decide +kernel
  obtain ⟨start, stop, line, range, read, found, -⟩ := (occurrences_by_line _).1 1 below
  have place : (LineTable.ofText "é #if A\r\nx #endif\r#else".toList).range? 1 = some (10, 24) := by decide +kernel
  have second : (LineTable.ofText "é #if A\r\nx #endif\r#else".toList).text? 1 = some "x #endif\r#else".toList := by
    decide +kernel
  obtain ⟨rfl, rfl⟩ := Prod.mk.inj (Option.some.inj (range.symm.trans place))
  obtain rfl := Option.some.inj (read.symm.trans second)
  exact ⟨below, found⟩

end Conditionals
