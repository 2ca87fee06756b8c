import Conditionals.Proofs.Condition.NormalForm
import Mathlib.Data.List.Infix
import Mathlib.Data.List.TakeWhile
import Mathlib.Tactic.MkIffOfInductiveProp

/-!
# Nesting of parentheses in names

No simplification nests parentheses that were not well nested before, and only one of them can spoil
the nesting: `!(X)` becomes `!X` also when the last parenthesis does not close the first. A name is
therefore well nested exactly when its text is and every round that opens parentheses behind a `!`
finds a pair there (`name_wellNested_iff`).
-/

namespace Conditionals.Condition

/-- No beginning of the text closes more parentheses than it opens, and none stays open. -/
@[mk_iff]
structure WellNested (text : Text) : Prop where
  opened : ∀ before, before <+: text → before.count ')' ≤ before.count '('
  closed : text.count ')' = text.count '('

instance (text : Text) : Decidable (WellNested text) :=
  decidable_of_iff
    ((∀ before ∈ text.inits, before.count ')' ≤ before.count '(') ∧ text.count ')' = text.count '(') <| by
    simp only [List.mem_inits, wellNested_iff]

def parentheses (text : Text) : Text :=
  text.filter fun c => c = '(' || c = ')'

theorem wellNested_parentheses {text : Text} : WellNested (parentheses text) ↔ WellNested text := by
  have counts : ∀ part : Text, (parentheses part).count ')' = part.count ')' ∧
      (parentheses part).count '(' = part.count '(' :=
    fun part => ⟨List.count_filter (by decide), List.count_filter (by decide)⟩
  constructor
  · rintro ⟨opened, closed⟩
    rw [(counts text).1, (counts text).2] at closed
    refine ⟨fun before start => ?_, closed⟩
    have bound := opened (parentheses before) (start.filter _)
    rwa [(counts before).1, (counts before).2] at bound
  · rintro ⟨opened, closed⟩
    rw [← (counts text).1, ← (counts text).2] at closed
    refine ⟨?_, closed⟩
    rintro before ⟨after, split⟩
    obtain ⟨part, rest, rfl, rfl, -⟩ := List.filter_eq_append_iff.mp split.symm
    have bound := opened part (List.prefix_append part rest)
    rwa [← (counts part).1, ← (counts part).2] at bound

theorem wellNested_congr {first second : Text} (same : parentheses first = parentheses second) :
    WellNested first ↔ WellNested second := by
  rw [← wellNested_parentheses, same, wellNested_parentheses]

/-! ### Pairs of parentheses -/

theorem count_opened (part : Text) :
    ('(' :: part).count ')' = part.count ')' ∧ ('(' :: part).count '(' = part.count '(' + 1 :=
  ⟨List.count_cons_of_ne (by decide), List.count_cons_self⟩

theorem count_wrapped (inner rest : Text) :
    ('(' :: (inner ++ ')' :: rest)).count ')' = (inner ++ rest).count ')' + 1 ∧
      ('(' :: (inner ++ ')' :: rest)).count '(' = (inner ++ rest).count '(' + 1 := by
  simp [Nat.add_assoc]

theorem WellNested.wrap {inner rest : Text} (nested : WellNested (inner ++ rest)) :
    WellNested ('(' :: (inner ++ ')' :: rest)) := by
  obtain ⟨opened, closed⟩ := nested
  constructor
  · intro before start
    -- The beginning ends in front of the pair, inside of it, or behind it.
    rcases List.prefix_cons_iff.mp start with rfl | ⟨part, rfl, after, split⟩
    · simp
    rcases List.append_eq_append_iff.mp split with ⟨left, rfl, -⟩ | ⟨right, rfl, behind⟩
    · have bound := opened part ⟨left ++ rest, by simp⟩
      have counts := count_opened part
      omega
    rcases List.append_eq_cons_iff.mp behind.symm with ⟨rfl, -⟩ | ⟨more, rfl, rfl⟩
    · have bound := opened inner (List.prefix_append _ _)
      have counts := count_opened inner
      rw [List.append_nil]
      omega
    · have bound := opened (inner ++ more) ⟨after, by simp⟩
      have counts := count_wrapped inner more
      omega
  · have counts := count_wrapped inner rest
    omega

theorem WellNested.unwrap {inner rest : Text} (nested : WellNested ('(' :: (inner ++ ')' :: rest)))
    (inside : ∀ part, part <+: inner → part.count ')' ≤ part.count '(') : WellNested (inner ++ rest) := by
  obtain ⟨opened, closed⟩ := nested
  constructor
  · rintro before ⟨after, split⟩
    rcases List.append_eq_append_iff.mp split with ⟨left, rfl, -⟩ | ⟨more, rfl, rfl⟩
    · exact inside before (List.prefix_append _ _)
    · have bound := opened ('(' :: (inner ++ ')' :: more)) ⟨after, by simp⟩
      have counts := count_wrapped inner more
      omega
  · have counts := count_wrapped inner rest
    omega

/-! ### What each simplification does to the nesting -/

theorem wellNested_trim {text : Text} : WellNested (Text.trim text) ↔ WellNested text := by
  have blank : ∀ {part : Text}, (∀ c ∈ part, Text.isBlank c = true) → parentheses part = [] := by
    intro part blanks
    refine List.filter_eq_nil_iff.mpr fun c member sign => ?_
    simp only [Bool.or_eq_true, decide_eq_true_eq] at sign
    have white := blanks c member
    rcases sign with rfl | rfl <;> cases white
  have front : ∀ part : Text, parentheses (part.dropWhile Text.isBlank) = parentheses part := by
    intro part
    nth_rewrite 2 [← List.takeWhile_append_dropWhile (p := Text.isBlank) (l := part)]
    have dropped := blank fun c (member : c ∈ part.takeWhile Text.isBlank) => List.mem_takeWhile_imp member
    unfold parentheses at dropped ⊢
    rw [List.filter_append, dropped, List.nil_append]
  apply wellNested_congr
  show parentheses ((text.dropWhile Text.isBlank).reverse.dropWhile Text.isBlank).reverse = parentheses text
  have back := front (text.dropWhile Text.isBlank).reverse
  have whole := front text
  unfold parentheses at back whole ⊢
  rw [List.filter_reverse, back, ← List.filter_reverse, List.reverse_reverse, whole]

theorem wellNested_dropDoubleNegations {text : Text} :
    WellNested (dropDoubleNegations text) ↔ WellNested text := by
  apply wellNested_congr
  fun_induction dropDoubleNegations text with
  | case1 text ih => simpa [parentheses] using ih
  | case2 c text _ ih =>
    unfold parentheses at ih ⊢
    rw [List.filter_cons, List.filter_cons, ih]
  | case3 => rfl

theorem wellNested_unwrapDefined {text : Text} : WellNested (unwrapDefined text) ↔ WellNested text := by
  unfold unwrapDefined
  split
  · rename_i inner found
    obtain rfl := Text.after?_eq_some_iff.mp found
    split
    · rename_i present
      obtain ⟨part, rest, rfl, absent⟩ := List.eq_append_cons_of_mem present
      have shape : WellNested (['d', 'e', 'f', 'i', 'n', 'e', 'd', '('] ++ (part ++ ')' :: rest)) ↔
          WellNested ('(' :: (part ++ ')' :: rest)) := wellNested_congr (by simp [parentheses])
      rw [List.erase_append_right _ absent, List.erase_cons_head, shape]
      -- Nothing is closed before the first closing parenthesis.
      refine ⟨WellNested.wrap, fun nested => nested.unwrap fun before start => ?_⟩
      have none := List.count_eq_zero.mpr fun member => absent (start.subset member)
      omega
    · exact Iff.rfl
  · exact Iff.rfl

theorem wellNested_mark {text : Text} : WellNested ('!' :: text) ↔ WellNested text :=
  wellNested_congr (by simp [parentheses])

theorem wellNested_unwrapTest {text : Text} : WellNested (unwrapTest text) ↔ WellNested text := by
  unfold unwrapTest
  split
  · rw [wellNested_mark, wellNested_mark, wellNested_unwrapDefined]
  · exact wellNested_unwrapDefined

theorem wellNested_unwrapNegation {text : Text} :
    WellNested (unwrapNegation text) ↔
      WellNested text ∧ ∀ inner, text = ['!', '('] ++ inner ++ [')'] → WellNested inner := by
  by_cases wrapped : ∃ inner, text = ['!', '('] ++ inner ++ [')']
  · obtain ⟨inner, rfl⟩ := wrapped
    rw [unwrapNegation_wrapped, wellNested_mark]
    constructor
    · intro nested
      refine ⟨?_, ?_⟩
      · have pair : WellNested ('(' :: (inner ++ ')' :: [])) := WellNested.wrap (by rwa [List.append_nil])
        exact wellNested_mark.mpr pair
      · intro other same
        rw [List.append_cancel_right_eq, List.append_cancel_left_eq] at same
        rwa [← same]
    · rintro ⟨-, pair⟩
      exact pair inner rfl
  · have kept := unwrapNegation_eq_self_iff.mpr (not_exists.mp wrapped)
    rw [kept]
    exact ⟨fun nested => ⟨nested, fun inner same => absurd ⟨inner, same⟩ wrapped⟩, And.left⟩

/-! ### Rounds -/

/-- The parentheses that a round takes away behind a leading `!`, if any, are a pair. -/
def OpensPair (text : Text) : Prop :=
  ∀ inner, unwrapTest (Text.trim (beforeComment text)) = ['!', '('] ++ inner ++ [')'] → WellNested inner

theorem wellNested_simplify {text : Text} (plain : '/' ∉ text) :
    WellNested (simplify text) ↔ WellNested text ∧ OpensPair text := by
  have uncut : beforeComment text = text :=
    beforeComment_eq_self_iff.mpr fun comment => plain (comment.subset List.mem_cons_self)
  unfold simplify OpensPair
  rw [wellNested_dropDoubleNegations, wellNested_unwrapNegation, wellNested_unwrapTest, wellNested_trim, uncut]

/-- The name of a condition without slashes is well nested exactly when the condition is and every round
that takes parentheses away behind a leading `!` takes a pair. -/
theorem name_wellNested_iff (text : Text) (plain : '/' ∉ text) :
    WellNested (name text) ↔ WellNested text ∧ ∀ rounds, OpensPair (simplify^[rounds] text) := by
  fun_induction name text with
  | case1 text stable =>
    have round := wellNested_simplify plain
    rw [stable] at round
    simp only [Function.iterate_fixed stable, forall_const]
    exact round
  | case2 text changed ih =>
    rw [ih fun member => plain ((simplify_sublist text).subset member), wellNested_simplify plain, and_assoc]
    refine and_congr_right fun _ => ?_
    constructor
    · rintro ⟨first, later⟩ rounds
      cases rounds with
      | zero => exact first
      | succ rounds => exact later rounds
    · intro pairs
      exact ⟨pairs 0, fun rounds => pairs (rounds + 1)⟩

/-- Both pairs around `A` are opened, one by each rule. -/
theorem name_wellNested_iff_nested :
    '/' ∉ "!(defined((A)) || B)".toList ∧ WellNested "!(defined((A)) || B)".toList ∧
      ∀ rounds, OpensPair (simplify^[rounds] "!(defined((A)) || B)".toList) := by
  have plain : '/' ∉ "!(defined((A)) || B)".toList := by decide
  have nested : WellNested (name "!(defined((A)) || B)".toList) := by decide +kernel
  have both := (name_wellNested_iff _ plain).mp nested
  exact ⟨plain, both.1, both.2⟩

/-- The last parenthesis of `!(A) && (B)` does not close the first. -/
theorem name_unpaired :
    '/' ∉ "!(A) && (B)".toList ∧ WellNested "!(A) && (B)".toList ∧
      name "!(A) && (B)".toList = "!A) && (B".toList ∧ ¬WellNested (name "!(A) && (B)".toList) := by
  decide +kernel

end Conditionals.Condition
