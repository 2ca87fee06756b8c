import Conditionals.Proofs.Occurrence.Lines
import Conditionals.Proofs.Text.Slice

/-!
# Directives of stretches

Line feeds and carriage returns cut a text into stretches. `occurrences_of_stretches` says which
directives a text holds without saying how they are searched for: one for each stretch with a keyword
right behind a `#`, at the first such `#` and with the longest keyword. Keywords and conditions can be
cut out of the bytes of the text at the offsets that the search gives.
-/

namespace Conditionals

/-! ### Keywords -/

namespace Keyword

theorem mem_all (keyword : Keyword) : keyword ∈ all := by
  cases keyword <;> decide

theorem spelling_injective : Function.Injective spelling := by
  intro first second same
  cases first <;> cases second <;> first | rfl | cases same

/-- A spelling comes before those that it starts with. -/
theorem all_ordered : all.Pairwise fun first second => ¬first.spelling <+: second.spelling := by
  decide

theorem read?_eq_none_iff {text : Text} : read? text = none ↔ ∀ keyword : Keyword, ¬keyword.spelling <+: text := by
  have unread : ∀ keyword : Keyword,
      (Text.after? keyword.spelling text).map (keyword, ·) = none ↔ ¬keyword.spelling <+: text := by
    intro keyword
    rw [← Text.startsWith_iff, Text.startsWith, Option.map_eq_none_iff, Bool.not_eq_true, Option.isSome_eq_false_iff,
      Option.isNone_iff_eq_none]
  rw [read?, List.findSome?_eq_none_iff]
  exact ⟨fun missing keyword => (unread keyword).mp (missing keyword (mem_all keyword)),
    fun missing keyword _ => (unread keyword).mpr (missing keyword)⟩

theorem read?_longest {text rest : Text} {keyword other : Keyword} (read : read? text = some (keyword, rest))
    (starts : other.spelling <+: text) : other.spelling.length ≤ keyword.spelling.length := by
  have itself : keyword.spelling <+: text := ⟨rest, (eq_append_of_read? read).symm⟩
  obtain ⟨earlier, candidate, later, table, found, missed⟩ := List.findSome?_eq_some_iff.mp read
  obtain ⟨_, _, same⟩ := Option.map_eq_some_iff.mp found
  obtain rfl : candidate = keyword := congrArg Prod.fst same
  have listed := mem_all other
  have ordered := all_ordered
  rw [table] at listed ordered
  rcases List.mem_append.mp listed with before | after
  · have unread := missed other before
    obtain ⟨tail, split⟩ := starts
    rw [Text.after?_eq_some_iff.mpr split.symm] at unread
    cases unread
  rcases List.mem_cons.mp after with rfl | behind
  · exact Nat.le_refl _
  · -- Two spellings in front of one text: the one that stands later in the table cannot be the longer.
    have apart := (List.pairwise_cons.mp (List.pairwise_append.mp ordered).2.1).1 other behind
    rcases List.prefix_or_prefix_of_prefix itself starts with longer | shorter
    · exact absurd longer apart
    · exact shorter.length_le

end Keyword

/-! ### Stretches -/

/-- A part of a text without breaks that reaches from a break, or the start of the text, to the next break,
or the end of the text. -/
structure IsStretch (text before stretch after : Text) : Prop where
  split : text = before ++ (stretch ++ after)
  unbroken : ∀ c ∈ stretch, isBreak c = false
  starts : ∀ c ∈ before.getLast?, isBreak c = true
  stops : ∀ c ∈ after.head?, isBreak c = true

/-- No keyword stands right behind a `#`. -/
def Unmarked (stretch : Text) : Prop :=
  ∀ earlier rest, stretch = earlier ++ '#' :: rest → ∀ keyword : Keyword, ¬keyword.spelling <+: rest

/-- The directive stands in the stretch behind `lead`, at the first `#` that has a keyword right behind it, and
no longer keyword stands there. -/
structure Directive.FirstIn (directive : Directive) (lead stretch : Text) : Prop where
  split : stretch = lead ++ '#' :: (directive.keyword.spelling ++ directive.condition)
  first : ∀ earlier rest, stretch = earlier ++ '#' :: rest → ∀ keyword : Keyword, keyword.spelling <+: rest →
    lead.length ≤ earlier.length
  longest : ∀ keyword : Keyword, keyword.spelling <+: directive.keyword.spelling ++ directive.condition →
    keyword.spelling.length ≤ directive.keyword.spelling.length

theorem Unmarked.cons {stretch : Text} {c : Char} (unmarked : Unmarked stretch)
    (plain : c = '#' → ∀ keyword : Keyword, ¬keyword.spelling <+: stretch) : Unmarked (c :: stretch) := by
  intro earlier rest same keyword
  cases earlier with
  | nil =>
    obtain ⟨rfl, rfl⟩ := List.cons.inj same
    exact plain rfl keyword
  | cons d earlier => exact unmarked earlier rest (List.cons.inj same).2 keyword

namespace Directive.FirstIn

variable {directive : Directive} {lead stretch : Text}

theorem marked (stands : directive.FirstIn lead stretch) : ¬Unmarked stretch :=
  fun unmarked => unmarked lead _ stands.split directive.keyword (List.prefix_append _ _)

theorem cons {c : Char} (stands : directive.FirstIn lead stretch)
    (plain : c = '#' → ∀ keyword : Keyword, ¬keyword.spelling <+: stretch) :
    directive.FirstIn (c :: lead) (c :: stretch) := by
  obtain ⟨split, first, longest⟩ := stands
  refine ⟨by rw [split, List.cons_append], ?_, longest⟩
  intro earlier rest same keyword starts
  cases earlier with
  | nil =>
    obtain ⟨rfl, rfl⟩ := List.cons.inj same
    exact absurd starts (plain rfl keyword)
  | cons d earlier =>
    have bound := first earlier rest (List.cons.inj same).2 keyword starts
    rw [List.length_cons, List.length_cons]
    omega

theorem unique {other : Directive} {lead' : Text} (stands : directive.FirstIn lead stretch)
    (stands' : other.FirstIn lead' stretch) : lead = lead' ∧ directive = other := by
  have left := stands.first _ _ stands'.split other.keyword (List.prefix_append _ _)
  have right := stands'.first _ _ stands.split directive.keyword (List.prefix_append _ _)
  have splits := stands.split.symm.trans stands'.split
  obtain ⟨rfl, rest⟩ := List.append_inj splits (Nat.le_antisymm left right)
  have behind := (List.cons.inj rest).2
  -- Both keywords are the longest in front of one and the same text.
  have lengths : directive.keyword.spelling.length = other.keyword.spelling.length := by
    refine Nat.le_antisymm (stands'.longest _ ?_) (stands.longest _ ?_)
    · rw [← behind]
      exact List.prefix_append _ _
    · rw [behind]
      exact List.prefix_append _ _
  obtain ⟨spellings, conditions⟩ := List.append_inj behind lengths
  have keywords := Keyword.spelling_injective spellings
  cases directive
  cases other
  simp_all

end Directive.FirstIn

/-! ### The search in a stretch -/

namespace Occurrence

/-- The directive of a stretch that starts at `offset`, and nothing else. -/
inductive Sole (offset : Nat) (stretch : Text) : List Occurrence → Prop where
  | none (unmarked : Unmarked stretch) : Sole offset stretch []
  | one {lead : Text} {directive : Directive} (stands : directive.FirstIn lead stretch) :
      Sole offset stretch [{ offset := offset + Text.byteLength lead, directive }]

theorem Sole.cons {offset : Nat} {stretch : Text} {found : List Occurrence} {c : Char}
    (sole : Sole (offset + c.utf8Size) stretch found)
    (plain : c = '#' → ∀ keyword : Keyword, ¬keyword.spelling <+: stretch) : Sole offset (c :: stretch) found := by
  cases sole with
  | none unmarked => exact .none (unmarked.cons plain)
  | one stands =>
    rw [Nat.add_assoc, ← Text.byteLength_cons]
    exact .one (stands.cons plain)

theorem findFrom_found {stretch : Text} (unbroken : ∀ c ∈ stretch, isBreak c = false) (offset : Nat) :
    findFrom offset false stretch = [] := by
  induction stretch generalizing offset with
  | nil => rfl
  | cons c stretch ih =>
    obtain ⟨inside, others⟩ := List.forall_mem_cons.mp unbroken
    simp only [findFrom, inside, Bool.false_and, Bool.false_eq_true, if_false]
    exact ih others _

theorem findFrom_unbroken {stretch : Text} (unbroken : ∀ c ∈ stretch, isBreak c = false) (offset : Nat) :
    Sole offset stretch (findFrom offset true stretch) := by
  induction stretch generalizing offset with
  | nil => exact .none (by simp [Unmarked])
  | cons c stretch ih =>
    obtain ⟨inside, others⟩ := List.forall_mem_cons.mp unbroken
    have further := ih others (offset + c.utf8Size)
    by_cases mark : c = '#'
    · subst mark
      cases read : Keyword.read? stretch with
      | none =>
        have unread : Directive.read? stretch = none := by rw [Directive.read?, read, Option.map_none]
        have skipped : findFrom offset true ('#' :: stretch) = findFrom (offset + '#'.utf8Size) true stretch := by
          simp [findFrom, inside, unread]
        rw [skipped]
        exact further.cons fun _ => Keyword.read?_eq_none_iff.mp read
      | some parts =>
        obtain ⟨keyword, condition⟩ := parts
        have split := Keyword.eq_append_of_read? read
        have whole : condition.takeWhile (fun c => !isBreak c) = condition := by
          refine List.takeWhile_eq_self_iff.mpr fun c member => ?_
          rw [others c (split ▸ List.mem_append_right _ member)]
          rfl
        have alone : findFrom offset true ('#' :: stretch) = [{ offset, directive := { keyword, condition } }] := by
          simp [findFrom, inside, Directive.read?, read, whole, findFrom_found others]
        have stands : Directive.FirstIn { keyword, condition } [] ('#' :: stretch) := by
          refine ⟨by rw [split, List.nil_append], by simp, ?_⟩
          intro other starts
          exact Keyword.read?_longest read (split ▸ starts)
        rw [alone]
        exact .one stands
    · have skipped : findFrom offset true (c :: stretch) = findFrom (offset + c.utf8Size) true stretch := by
        simp [findFrom, inside, mark]
      rw [skipped]
      exact further.cons fun same => absurd same mark

theorem findFrom_behind {before : Text} (starts : ∀ c ∈ before.getLast?, isBreak c = true) (offset : Nat)
    (rest : Text) :
    findFrom offset true (before ++ rest) =
      findFrom offset true before ++ findFrom (offset + Text.byteLength before) true rest := by
  rcases List.eq_nil_or_concat' before with rfl | ⟨front, c, rfl⟩
  · rfl
  · have ends := starts c (by simp)
    rw [List.append_assoc, List.singleton_append, findFrom_append ends, findFrom_append ends]
    simp [findFrom, Nat.add_assoc]

theorem findFrom_ahead {after : Text} (stops : ∀ c ∈ after.head?, isBreak c = true) (offset : Nat) (stretch : Text) :
    findFrom offset true (stretch ++ after) =
      findFrom offset true stretch ++ findFrom (offset + Text.byteLength stretch) true after := by
  cases after with
  | nil => simp [findFrom]
  | cons c after =>
    have ends := stops c rfl
    rw [findFrom_append ends]
    simp [findFrom, ends]

end Occurrence

namespace IsStretch

variable {text before stretch after : Text}

theorem occurrences_split (cut : IsStretch text before stretch after) :
    occurrences text = Occurrence.findFrom 0 true before ++
      (Occurrence.findFrom (Text.byteLength before) true stretch ++
        Occurrence.findFrom (Text.byteLength before + Text.byteLength stretch) true after) := by
  rw [occurrences, cut.split, Occurrence.findFrom_behind cut.starts, Nat.zero_add,
    Occurrence.findFrom_ahead cut.stops]

theorem mem_inside_iff (cut : IsStretch text before stretch after) {found : Occurrence} :
    (found ∈ occurrences text ∧ Text.byteLength before ≤ found.offset ∧
      found.offset < Text.byteLength before + Text.byteLength stretch) ↔
      found ∈ Occurrence.findFrom (Text.byteLength before) true stretch := by
  rw [cut.occurrences_split, List.mem_append, List.mem_append]
  constructor
  · rintro ⟨member | member | member, above, below⟩
    · have bounds := Occurrence.findFrom_bounds member
      omega
    · exact member
    · have bounds := Occurrence.findFrom_bounds member
      omega
  · intro member
    exact ⟨Or.inr (Or.inl member), Occurrence.findFrom_bounds member⟩

end IsStretch

theorem Occurrence.exists_stretch {offset : Nat} {text : Text} {found : Occurrence}
    (member : found ∈ findFrom offset true text) :
    ∃ before stretch after, IsStretch text before stretch after ∧
      found ∈ findFrom (offset + Text.byteLength before) true stretch := by
  induction text using Text.cut_induction isBreak generalizing offset with
  | last piece inside => exact ⟨[], piece, [], ⟨by simp, inside, by simp, by simp⟩, member⟩
  | more piece c rest inside ends ih =>
    rw [findFrom_append ends, List.mem_append] at member
    rcases member with member | member
    · refine ⟨[], piece, c :: rest, ⟨rfl, inside, by simp, ?_⟩, member⟩
      rintro _ ⟨⟩
      exact ends
    · obtain ⟨before, stretch, after, ⟨split, unbroken, starts, stops⟩, found⟩ := ih member
      refine ⟨piece ++ c :: before, stretch, after, ⟨by simp [split], unbroken, ?_, stops⟩, ?_⟩
      · rcases List.eq_nil_or_concat' before with rfl | ⟨front, d, rfl⟩
        · simpa using ends
        · have last := starts d (by simp)
          simpa [List.getLast?_cons] using last
      · rw [Text.byteLength_append, Text.byteLength_cons, ← Nat.add_assoc, ← Nat.add_assoc]
        exact found

theorem mem_occurrences_iff {text : Text} {found : Occurrence} :
    found ∈ occurrences text ↔ ∃ before stretch after lead, IsStretch text before stretch after ∧
      found.directive.FirstIn lead stretch ∧ found.offset = Text.byteLength (before ++ lead) := by
  constructor
  · intro member
    obtain ⟨before, stretch, after, cut, listed⟩ := Occurrence.exists_stretch member
    rw [Nat.zero_add] at listed
    have sole := Occurrence.findFrom_unbroken cut.unbroken (Text.byteLength before)
    generalize Occurrence.findFrom (Text.byteLength before) true stretch = all at listed sole
    cases sole with
    | none => cases listed
    | @one lead directive stands =>
      obtain rfl := List.mem_singleton.mp listed
      exact ⟨before, stretch, after, lead, cut, stands, by rw [Text.byteLength_append]⟩
  · rintro ⟨before, stretch, after, lead, cut, stands, place⟩
    rw [cut.occurrences_split, List.mem_append, List.mem_append]
    refine Or.inr (Or.inl ?_)
    have sole := Occurrence.findFrom_unbroken cut.unbroken (Text.byteLength before)
    generalize Occurrence.findFrom (Text.byteLength before) true stretch = all at sole
    cases sole with
    | none unmarked => exact absurd unmarked stands.marked
    | one first =>
      obtain ⟨rfl, same⟩ := stands.unique first
      rw [List.mem_singleton, ← same, ← Text.byteLength_append, ← place]

theorem IsStretch.exists_unique {text before stretch after : Text} (cut : IsStretch text before stretch after)
    (marked : ¬Unmarked stretch) :
    ∃! found, found ∈ occurrences text ∧ Text.byteLength before ≤ found.offset ∧
      found.offset < Text.byteLength before + Text.byteLength stretch := by
  simp only [cut.mem_inside_iff]
  have sole := Occurrence.findFrom_unbroken cut.unbroken (Text.byteLength before)
  generalize Occurrence.findFrom (Text.byteLength before) true stretch = all at sole ⊢
  cases sole with
  | none unmarked => exact absurd unmarked marked
  | one stands => exact ⟨_, List.mem_singleton_self _, fun other member => List.mem_singleton.mp member⟩

/-! ### Slices -/

theorem byteLength_mark (before : Text) : Text.byteLength (before ++ ['#']) = Text.byteLength before + 1 := by
  rw [Text.byteLength_append]
  rfl

theorem slices_of_mem {text : Text} {found : Occurrence} (member : found ∈ occurrences text) :
    let start := found.offset + 1
    let middle := start + Text.byteLength found.directive.keyword.spelling
    Text.slice? text start middle = some found.directive.keyword.spelling ∧
      Text.slice? text middle (middle + Text.byteLength found.directive.condition) = some found.directive.condition := by
  obtain ⟨before, stretch, after, lead, cut, stands, place⟩ := mem_occurrences_iff.mp member
  have behind : found.offset + 1 = Text.byteLength (before ++ lead ++ ['#']) := by
    rw [byteLength_mark, place]
  have split := cut.split
  rw [stands.split] at split
  intro start middle
  constructor
  · have slice := Text.slice?_append (before ++ lead ++ ['#']) found.directive.keyword.spelling
      (found.directive.condition ++ after)
    rw [← behind] at slice
    rw [split]
    simpa using slice
  · have slice := Text.slice?_append (before ++ lead ++ ['#'] ++ found.directive.keyword.spelling)
      found.directive.condition after
    rw [Text.byteLength_append, ← behind] at slice
    rw [split]
    simpa using slice

theorem slice_of_mark {text : Text} {offset : Nat} (byte : Text.byte? text offset = some '#'.toUInt8) :
    ∃ rest, Text.slice? text (offset + 1) (Text.byteLength text) = some rest := by
  obtain ⟨before, rest, rfl, rfl⟩ := Text.split_of_byte (by decide) byte
  have slice := Text.slice?_append (before ++ ['#']) rest []
  rw [← Text.byteLength_append, byteLength_mark] at slice
  refine ⟨rest, ?_⟩
  simpa only [List.append_nil, List.append_assoc, List.singleton_append] using slice

/-- Occurrences are the directives of stretches, in the order of the text: each stretch with a keyword right
behind a `#` has exactly one, at the first such `#` and with the longest keyword that stands there, and no
other stretch has any. All of the text that is read on the way, also behind a `#` without a keyword, is
a slice between characters. -/
theorem occurrences_of_stretches (text : Text) :
    (occurrences text).Pairwise (fun first second => first.offset < second.offset) ∧
    (∀ found, found ∈ occurrences text ↔ ∃ before stretch after lead, IsStretch text before stretch after ∧
      found.directive.FirstIn lead stretch ∧ found.offset = Text.byteLength (before ++ lead)) ∧
    (∀ before stretch after, IsStretch text before stretch after →
      (∃ lead rest, ∃ keyword : Keyword, stretch = lead ++ '#' :: (keyword.spelling ++ rest)) →
      ∃! found, found ∈ occurrences text ∧ Text.byteLength before ≤ found.offset ∧
        found.offset < Text.byteLength before + Text.byteLength stretch) ∧
    (∀ offset, Text.byte? text offset = some '#'.toUInt8 →
      ∃ rest, Text.slice? text (offset + 1) (Text.byteLength text) = some rest) ∧
    ∀ found ∈ occurrences text,
      let start := found.offset + 1
      let middle := start + Text.byteLength found.directive.keyword.spelling
      Text.slice? text start middle = some found.directive.keyword.spelling ∧
        Text.slice? text middle (middle + Text.byteLength found.directive.condition) =
          some found.directive.condition := by
  refine ⟨Occurrence.findFrom_ordered 0 true text, fun found => mem_occurrences_iff, ?_, fun offset => slice_of_mark,
    fun found => slices_of_mem⟩
  rintro before stretch after cut ⟨lead, rest, keyword, marked⟩
  exact cut.exists_unique fun unmarked => unmarked lead _ marked keyword (List.prefix_append _ _)

/-- The stretch behind the return has its own directive, and the `#` in front of it is no part of another
character. -/
theorem occurrences_of_stretches_return :
    IsStretch "é ##if A\r#x #else".toList "é ##if A\r".toList "#x #else".toList [] ∧
      (∃! found, found ∈ occurrences "é ##if A\r#x #else".toList ∧ Text.byteLength "é ##if A\r".toList ≤ found.offset ∧
        found.offset < Text.byteLength "é ##if A\r".toList + Text.byteLength "#x #else".toList) ∧
      Text.byte? "é ##if A\r#x #else".toList 10 = some '#'.toUInt8 ∧
      ∃ rest, Text.slice? "é ##if A\r#x #else".toList 11 (Text.byteLength "é ##if A\r#x #else".toList) = some rest := by
  have cut : IsStretch "é ##if A\r#x #else".toList "é ##if A\r".toList "#x #else".toList [] :=
    ⟨rfl, by simp [isBreak], by simp [isBreak], by simp⟩
  have byte : Text.byte? "é ##if A\r#x #else".toList 10 = some '#'.toUInt8 := by decide +kernel
  obtain ⟨_, _, one, mark, _⟩ := occurrences_of_stretches "é ##if A\r#x #else".toList
  exact ⟨cut, one _ _ _ cut ⟨"#x ".toList, [], .plainElse, by decide⟩, byte, mark 10 byte⟩

end Conditionals
