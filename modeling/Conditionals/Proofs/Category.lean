import Conditionals.Log.Category
import Mathlib.Data.List.Basic

/-!
# Lists of categories

A list is read word by word, so two lists with a comma between them choose what either chooses
(`parse_append`). The written form of some categories is therefore read as exactly these.

`parse_eq` describes the reading of a whole list from its items: the first one that stands for nothing is
reported, and without such an item only the set of the others counts. `parse_by_items` puts both together.
-/

namespace Conditionals

def Category.word : Category → Text
  | .folding => "folding".toList
  | .decorations => "decorations".toList

namespace Categories

theorem words_append (first second : Text) : words (first ++ ',' :: second) = words first ++ words second := by
  simp only [words, List.splitOn_append_cons_self, List.map_append, List.filter_append]

theorem union_assoc (first second third : Categories) :
    (first.union second).union third = first.union (second.union third) := by
  simp only [union, Bool.or_assoc]

theorem ofWords_append (first second : List Text) :
    ofWords (first ++ second) = do
      let chosen ← ofWords first
      let others ← ofWords second
      return chosen.union others := by
  induction first with
  | nil =>
    rw [List.nil_append, ofWords]
    cases ofWords second <;> rfl
  | cons word rest ih =>
    rw [List.cons_append, ofWords, ofWords]
    cases ofWord? word with
    | none => rfl
    | some chosen =>
      simp only [ih]
      cases ofWords rest with
      | error unknown => rfl
      | ok others =>
        cases ofWords second with
        | error unknown => rfl
        | ok last => exact congrArg Except.ok (union_assoc chosen others last).symm

theorem parse_append (first second : Text) :
    parse (first ++ ',' :: second) = do
      let chosen ← parse first
      let others ← parse second
      return chosen.union others := by
  rw [parse, words_append, ofWords_append]
  rfl

/-- The written form of categories: their words with commas between them, or `none`. -/
def listText : List Category → Text
  | [] => "none".toList
  | members => [','].intercalate (members.map Category.word)

/-- The choice of exactly some categories. -/
def ofMembers (members : List Category) : Categories :=
  { folding := .folding ∈ members, decorations := .decorations ∈ members }

theorem parse_word (category : Category) : parse category.word = .ok (ofMembers [category]) := by
  cases category <;> decide +kernel

theorem ofMembers_cons (category : Category) (members : List Category) :
    ofMembers (category :: members) = (ofMembers [category]).union (ofMembers members) := by
  simp [ofMembers, union, Bool.decide_or]

theorem parse_listText (members : List Category) : parse (listText members) = .ok (ofMembers members) := by
  cases members with
  | nil => decide +kernel
  | cons first rest =>
    show parse ([','].intercalate ((first :: rest).map Category.word)) = .ok (ofMembers (first :: rest))
    induction rest generalizing first with
    | nil =>
      rw [List.map_singleton, List.intercalate_singleton]
      exact parse_word first
    | cons second rest ih =>
      have split : [','].intercalate ((first :: second :: rest).map Category.word) =
          first.word ++ ',' :: [','].intercalate ((second :: rest).map Category.word) := by
        rw [List.map_cons, List.map_cons, List.intercalate_cons_cons, List.append_assoc, List.singleton_append]
      rw [split, parse_append, parse_word, ih, ofMembers_cons first (second :: rest)]
      rfl

/-! ### Items of a list -/

/-- The words that stand for a choice. -/
def vocabulary : List Text :=
  ["folding".toList, "decorations".toList, "all".toList, "none".toList]

/-- What such words choose together. -/
def named (words : List Text) : Categories :=
  { folding := "all".toList ∈ words ∨ "folding".toList ∈ words
    decorations := "all".toList ∈ words ∨ "decorations".toList ∈ words }

theorem named_cons (word : Text) (words : List Text) :
    named (word :: words) = (named [word]).union (named words) := by
  simp only [named, union, List.mem_cons, List.not_mem_nil, or_false, Bool.decide_or]
  congr 1 <;> ac_rfl

theorem named_congr {words others : List Text} (same : ∀ word, word ∈ words ↔ word ∈ others) :
    named words = named others := by
  simp only [named, same]

theorem ofWord?_of_mem {word : Text} (known : word ∈ vocabulary) : ofWord? word = some (named [word]) := by
  simp only [vocabulary, List.mem_cons, List.not_mem_nil, or_false] at known
  rcases known with rfl | rfl | rfl | rfl <;> rfl

theorem ofWord?_of_not_mem {word : Text} (unknown : word ∉ vocabulary) : ofWord? word = none := by
  simp only [vocabulary, List.mem_cons, List.not_mem_nil, or_false, not_or] at unknown
  obtain ⟨folding, decorations, all, none⟩ := unknown
  exact (if_neg all).trans ((if_neg none).trans ((if_neg folding).trans (if_neg decorations)))

theorem ofWords_eq (words : List Text) :
    ofWords words = match words.find? fun word => word ∉ vocabulary with
      | some word => .error { word }
      | none => .ok (named words) := by
  induction words with
  | nil => rfl
  | cons word rest ih =>
    rw [ofWords, List.find?_cons]
    by_cases known : word ∈ vocabulary
    · simp only [ofWord?_of_mem known, ih, known, not_true, decide_false]
      cases rest.find? fun word => word ∉ vocabulary with
      | some unknown => rfl
      | none => exact congrArg Except.ok (named_cons word rest).symm
    · simp only [ofWord?_of_not_mem known, known, not_false_eq_true, decide_true]

/-- An item as it is looked up: without the blanks around it, and with its ASCII letters in lower case. -/
def spelled (item : Text) : Text :=
  (Text.trim item).map Char.toLower

/-- Whether an item stands for nothing. Blank items are passed over. -/
def offends (item : Text) : Bool :=
  Text.trim item ≠ [] && spelled item ∉ vocabulary

theorem offends_eq_false_iff {item : Text} :
    offends item = false ↔ (Text.trim item ≠ [] → spelled item ∈ vocabulary) := by
  simp [offends]

theorem words_eq (list : Text) :
    words list = ((list.splitOn ',').filter fun item => Text.trim item ≠ []).map spelled := by
  rw [words, List.filter_map, List.map_map]
  rfl

theorem parse_eq (list : Text) :
    parse list = match (list.splitOn ',').find? offends with
      | some item => .error { word := spelled item }
      | none => .ok (named (words list)) := by
  have first : (words list).find? (fun word => word ∉ vocabulary) =
      ((list.splitOn ',').find? offends).map spelled := by
    rw [words_eq, List.find?_map, List.find?_filter]
    congr 2
    funext item
    simp [offends]
  rw [parse, ofWords_eq, first]
  cases (list.splitOn ',').find? offends <;> rfl

theorem parse_eq_ok_iff {list : Text} {chosen : Categories} :
    parse list = .ok chosen ↔ (∀ item ∈ list.splitOn ',', offends item = false) ∧ named (words list) = chosen := by
  rw [parse_eq]
  cases found : (list.splitOn ',').find? offends with
  | some item =>
    refine iff_of_false (by simp) fun known => ?_
    have offending := List.find?_some found
    rw [known.1 item (List.mem_of_find?_eq_some found)] at offending
    cases offending
  | none =>
    have known : ∀ item ∈ list.splitOn ',', offends item = false :=
      fun item member => Bool.eq_false_iff.mpr (List.find?_eq_none.mp found item member)
    rw [and_iff_right known]
    simp

theorem parse_eq_error_iff {list : Text} {unknown : Unknown} :
    parse list = .error unknown ↔
      ∃ before item after, list.splitOn ',' = before ++ item :: after ∧
        (∀ earlier ∈ before, offends earlier = false) ∧ offends item = true ∧ unknown.word = spelled item := by
  have reported : parse list = .error unknown ↔
      ∃ item, (list.splitOn ',').find? offends = some item ∧ unknown.word = spelled item := by
    rw [parse_eq]
    obtain ⟨word⟩ := unknown
    cases (list.splitOn ',').find? offends with
    | some item => simp [eq_comm]
    | none => simp
  rw [reported]
  constructor
  · rintro ⟨item, found, word⟩
    obtain ⟨offending, before, after, split, earlier⟩ := List.find?_eq_some_iff_append.mp found
    exact ⟨before, item, after, split, fun other member => by simpa using earlier other member, offending, word⟩
  · rintro ⟨before, item, after, split, earlier, offending, word⟩
    refine ⟨item, List.find?_eq_some_iff_append.mpr ⟨offending, before, after, split, ?_⟩, word⟩
    intro other member
    rw [earlier other member]
    rfl

/-- Two lists of the same items, in whatever order and however often. -/
def SameItems (first second : Text) : Prop :=
  ∀ item, item ∈ first.splitOn ',' ↔ item ∈ second.splitOn ','

theorem SameItems.words {first second : Text} (same : SameItems first second) (word : Text) :
    word ∈ words first ↔ word ∈ words second := by
  simp only [words_eq, List.mem_map, List.mem_filter, same _]

/-- Two lists with a comma between them choose what either chooses, or report what the first of them to be
wrong reports. A list is right if each item that is not blank is in the vocabulary, its choice depends on the
set of its items only, and a wrong list reports the first item that stands for nothing. -/
theorem parse_by_items (first second : Text) :
    (parse (first ++ ',' :: second) = match parse first, parse second with
      | .error unknown, _ => .error unknown
      | .ok _, .error unknown => .error unknown
      | .ok chosen, .ok others => .ok (chosen.union others)) ∧
    ((∃ chosen, parse first = .ok chosen) ↔
      ∀ item ∈ first.splitOn ',', Text.trim item ≠ [] → spelled item ∈ vocabulary) ∧
    (∀ chosen, parse first = .ok chosen → SameItems first second → parse second = .ok chosen) ∧
    (∀ unknown, parse first = .error unknown ↔
      ∃ before item after, first.splitOn ',' = before ++ item :: after ∧
        (∀ earlier ∈ before, offends earlier = false) ∧ offends item = true ∧ unknown.word = spelled item) := by
  refine ⟨?_, ?_, ?_, fun unknown => parse_eq_error_iff⟩
  · rw [parse_append]
    cases parse first with
    | error unknown => rfl
    | ok chosen => cases parse second <;> rfl
  · simp only [parse_eq_ok_iff, exists_and_left, exists_eq', and_true, offends_eq_false_iff]
  · intro chosen read same
    obtain ⟨known, rfl⟩ := parse_eq_ok_iff.mp read
    refine parse_eq_ok_iff.mpr ⟨fun item member => known item ((same item).mpr member), ?_⟩
    exact named_congr fun word => (same.words word).symm

/-- Items in another order, one of them twice. -/
theorem parse_by_items_repeated :
    SameItems "Folding, none".toList " none,Folding,Folding".toList ∧
    parse "Folding, none".toList = .ok { folding := true, decorations := false } ∧
    parse " none,Folding,Folding".toList = .ok { folding := true, decorations := false } := by
  have same : SameItems "Folding, none".toList " none,Folding,Folding".toList := by
    have first : "Folding, none".toList.splitOn ',' = ["Folding".toList, " none".toList] := by decide +kernel
    have second : " none,Folding,Folding".toList.splitOn ',' =
        [" none".toList, "Folding".toList, "Folding".toList] := by decide +kernel
    intro item
    rw [first, second]
    simp only [List.mem_cons, List.not_mem_nil, or_false, or_self]
    exact or_comm
  have read : parse "Folding, none".toList = .ok { folding := true, decorations := false } := by decide +kernel
  exact ⟨same, read, (parse_by_items _ _).2.2.1 _ read same⟩

end Categories
end Conditionals
