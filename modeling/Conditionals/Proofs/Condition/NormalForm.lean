import Conditionals.Condition
import Conditionals.Proofs.Text.Trim
import Mathlib.Data.List.Infix
import Mathlib.Logic.Function.Iterate

/-!
# Normal forms of conditions

`IsNormal` describes the texts that a round of simplification leaves as they are, without mention of
the simplifications. Each of them only takes characters away, so none can undo what another did: a
round changes nothing exactly when no part of it does. `name_canonical` says that names are the
normal forms and that a name is reached after finitely many rounds.
-/

namespace Conditionals.Condition

/-- A trimmed text without `//`, `!!`, a test for a definition in front, or parentheses behind a
leading `!` that reach to the end. -/
structure IsNormal (text : Text) : Prop where
  trimmed : Text.trim text = text
  comment : ¬['/', '/'] <:+: text
  negation : ¬['!', '!'] <:+: text
  test : ∀ inner, text = ['d', 'e', 'f', 'i', 'n', 'e', 'd', '('] ++ inner ∨
    text = ['!', 'd', 'e', 'f', 'i', 'n', 'e', 'd', '('] ++ inner → ')' ∉ inner
  parentheses : ∀ inner, text ≠ ['!', '('] ++ inner ++ [')']

/-! ### What each simplification leaves alone -/

theorem beforeComment_eq_self_iff {text : Text} : beforeComment text = text ↔ ¬['/', '/'] <:+: text := by
  induction text with
  | nil => simp [beforeComment]
  | cons c text ih =>
    have starts : ['/', '/'] <+: c :: text ↔ c = '/' ∧ text.head? = some '/' := by
      cases text <;> simp [List.cons_prefix_cons, eq_comm]
    rw [beforeComment, List.infix_cons_iff, starts]
    by_cases mark : c = '/' ∧ text.head? = some '/'
    · simp [mark]
    · simp [mark, ih]

theorem unwrapDefined_eq_self_iff {text : Text} :
    unwrapDefined text = text ↔ ∀ inner, text = ['d', 'e', 'f', 'i', 'n', 'e', 'd', '('] ++ inner → ')' ∉ inner := by
  unfold unwrapDefined
  split
  · rename_i inner found
    obtain rfl := Text.after?_eq_some_iff.mp found
    have shorter : inner.erase ')' ≠ ['d', 'e', 'f', 'i', 'n', 'e', 'd', '('] ++ inner := by
      intro same
      have lengths := congrArg List.length same
      have bound := List.length_erase_le (a := ')') (l := inner)
      rw [List.length_append] at lengths
      simp only [List.length_cons, List.length_nil] at lengths
      omega
    simp only [List.append_cancel_left_eq]
    split
    · rename_i closed
      exact iff_of_false shorter fun absent => absent inner rfl closed
    · rename_i absent
      refine iff_of_true rfl ?_
      rintro _ rfl
      exact absent
  · rename_i missing
    refine iff_of_true rfl ?_
    intro inner split
    rw [Text.after?_eq_some_iff.mpr split] at missing
    cases missing

theorem unwrapTest_eq_self_iff {text : Text} :
    unwrapTest text = text ↔ ∀ inner, text = ['d', 'e', 'f', 'i', 'n', 'e', 'd', '('] ++ inner ∨
      text = ['!', 'd', 'e', 'f', 'i', 'n', 'e', 'd', '('] ++ inner → ')' ∉ inner := by
  unfold unwrapTest
  split
  · simp [unwrapDefined_eq_self_iff]
  · rename_i plain
    have unmarked : ∀ inner, text ≠ ['!', 'd', 'e', 'f', 'i', 'n', 'e', 'd', '('] ++ inner :=
      fun inner => plain _
    simp only [unwrapDefined_eq_self_iff, unmarked, or_false]

theorem unwrapNegation_wrapped (inner : Text) : unwrapNegation (['!', '('] ++ inner ++ [')']) = '!' :: inner := by
  simp [unwrapNegation, Text.after?]

theorem unwrapNegation_eq_self_iff {text : Text} :
    unwrapNegation text = text ↔ ∀ inner, text ≠ ['!', '('] ++ inner ++ [')'] := by
  unfold unwrapNegation
  split
  · rename_i inner found
    obtain rfl := Text.after?_eq_some_iff.mp found
    split
    · rename_i last
      have closed := List.dropLast_append_getLast? ')' last
      refine iff_of_false ?_ fun open_ => open_ inner.dropLast ?_
      · intro same
        have lengths := congrArg List.length same
        have bound := (List.dropLast_sublist inner).length_le
        simp only [List.length_cons, List.length_append, List.length_nil] at lengths
        omega
      · rw [List.append_assoc, closed]
    · rename_i last
      refine iff_of_true rfl ?_
      intro other same
      rw [List.append_assoc, List.append_cancel_left_eq] at same
      rw [same, List.getLast?_concat] at last
      exact last rfl
  · rename_i missing
    refine iff_of_true rfl ?_
    rintro inner rfl
    rw [List.append_assoc, Text.after?_eq_some_iff.mpr rfl] at missing
    cases missing

theorem dropDoubleNegations_eq_self_iff {text : Text} :
    dropDoubleNegations text = text ↔ ¬['!', '!'] <:+: text := by
  fun_induction dropDoubleNegations text with
  | case1 text ih =>
    refine iff_of_false ?_ fun absent => absent ⟨[], text, rfl⟩
    intro same
    have bound := (dropDoubleNegations_sublist text).length_le
    rw [same, List.length_cons, List.length_cons] at bound
    omega
  | case2 c text single ih =>
    have starts : ¬['!', '!'] <+: c :: text := by
      rintro ⟨rest, same⟩
      obtain ⟨rfl, rfl⟩ := List.cons.inj same
      exact single rest rfl rfl
    rw [List.infix_cons_iff, List.cons_eq_cons, ih]
    simp [starts]
  | case3 => simp

/-! ### A round -/

/-- Two functions that only take characters away cannot undo each other's work. -/
theorem eq_self_of_comp {first second : Text → Text} (before : ∀ text, (first text).Sublist text)
    (after : ∀ text, (second text).Sublist text) {text : Text} (same : second (first text) = text) :
    first text = text ∧ second text = text := by
  have below := after (first text)
  rw [same] at below
  have kept := (before text).antisymm below
  rw [kept] at same
  exact ⟨kept, same⟩

theorem simplify_eq_self_iff {text : Text} : simplify text = text ↔ IsNormal text := by
  constructor
  · intro same
    have trims : ∀ text, (Text.trim (beforeComment text)).Sublist text :=
      fun text => (Text.trim_sublist _).trans (beforeComment_sublist text)
    have tests : ∀ text, (unwrapTest (Text.trim (beforeComment text))).Sublist text :=
      fun text => (unwrapTest_sublist _).trans (trims text)
    have opens : ∀ text, (unwrapNegation (unwrapTest (Text.trim (beforeComment text)))).Sublist text :=
      fun text => (unwrapNegation_sublist _).trans (tests text)
    obtain ⟨same, negation⟩ := eq_self_of_comp opens dropDoubleNegations_sublist same
    obtain ⟨same, parentheses⟩ := eq_self_of_comp tests unwrapNegation_sublist same
    obtain ⟨same, test⟩ := eq_self_of_comp trims unwrapTest_sublist same
    obtain ⟨comment, trimmed⟩ := eq_self_of_comp beforeComment_sublist Text.trim_sublist same
    exact
      { trimmed
        comment := beforeComment_eq_self_iff.mp comment
        negation := dropDoubleNegations_eq_self_iff.mp negation
        test := unwrapTest_eq_self_iff.mp test
        parentheses := unwrapNegation_eq_self_iff.mp parentheses }
  · intro normal
    rw [simplify, beforeComment_eq_self_iff.mpr normal.comment, normal.trimmed,
      unwrapTest_eq_self_iff.mpr normal.test, unwrapNegation_eq_self_iff.mpr normal.parentheses,
      dropDoubleNegations_eq_self_iff.mpr normal.negation]

instance (text : Text) : Decidable (IsNormal text) :=
  decidable_of_iff _ simplify_eq_self_iff

/-! ### Blanks at the end -/

theorem beforeComment_blanks {blanks : Text} (blank : ∀ c ∈ blanks, Text.isBlank c = true) (text : Text) :
    ∃ kept, (∀ c ∈ kept, Text.isBlank c = true) ∧ beforeComment (text ++ blanks) = beforeComment text ++ kept := by
  have solid : '/' ∉ blanks := fun member => absurd (blank _ member) (by decide)
  induction text with
  | nil =>
    refine ⟨blanks, blank, beforeComment_eq_self_iff.mpr fun pair => solid ?_⟩
    exact pair.subset List.mem_cons_self
  | cons c text ih =>
    obtain ⟨kept, few, split⟩ := ih
    have next : (text ++ blanks).head? = some '/' ↔ text.head? = some '/' := by
      cases text with
      | nil => exact iff_of_false (fun head => solid (List.mem_of_head? head)) (by simp)
      | cons d text => rfl
    rw [List.cons_append, beforeComment, beforeComment]
    simp only [next]
    split
    · exact ⟨[], by simp, rfl⟩
    · exact ⟨kept, few, by rw [split, List.cons_append]⟩

theorem simplify_trimEnd (text : Text) : simplify (Text.trimEnd text) = simplify text := by
  obtain ⟨blanks, blank, split⟩ := Text.trimEnd_append_blanks text
  obtain ⟨kept, few, cut⟩ := beforeComment_blanks blank (Text.trimEnd text)
  rw [split] at cut
  rw [simplify, simplify, cut, Text.trim_blanks few]

theorem name_simplify (text : Text) : name (simplify text) = name text := by
  by_cases stable : simplify text = text
  · rw [stable]
  · rw [name.eq_def text, if_neg stable]

theorem name_trimEnd (text : Text) : name (Text.trimEnd text) = name text := by
  rw [← name_simplify, simplify_trimEnd, name_simplify]

/-! ### Rounds up to a name -/

/-- A text becomes its name in as many rounds as change it. Each of them takes a character away. -/
theorem name_rounds (text : Text) :
    ∃ rounds, name text = simplify^[rounds] text ∧ rounds + (name text).length ≤ text.length ∧
      ∀ earlier < rounds, simplify^[earlier + 1] text ≠ simplify^[earlier] text := by
  fun_induction name text with
  | case1 text stable => exact ⟨0, rfl, by omega, by simp⟩
  | case2 text changed ih =>
    obtain ⟨rounds, reached, bound, changes⟩ := ih
    have shorter := length_simplify_lt changed
    refine ⟨rounds + 1, reached, by omega, ?_⟩
    intro earlier before
    cases earlier with
    | zero => exact changed
    | succ earlier => exact changes earlier (by omega)

theorem name_sublist (text : Text) : (name text).Sublist text := by
  fun_induction name text with
  | case1 text stable => exact .refl text
  | case2 text changed ih => exact ih.trans (simplify_sublist text)

theorem name_isNormal (text : Text) : IsNormal (name text) := by
  fun_induction name text with
  | case1 text stable => exact simplify_eq_self_iff.mp stable
  | case2 text changed ih => exact ih

theorem name_eq_self_iff {text : Text} : name text = text ↔ IsNormal text := by
  constructor
  · intro same
    rw [← same]
    exact name_isNormal text
  · intro normal
    rw [name, if_pos (simplify_eq_self_iff.mpr normal)]

/-- A round that changes a text makes it shorter, so a name is reached after at most as many rounds as
the text has characters. Names are subsequences of their texts, and they are exactly the texts in
normal form, which are their own names. -/
theorem name_canonical (text : Text) :
    (simplify text = text ∨ (simplify text).length < text.length) ∧
    (∃ rounds ≤ text.length, name text = simplify^[rounds] text ∧ simplify (name text) = name text ∧
      ∀ earlier < rounds, simplify^[earlier + 1] text ≠ simplify^[earlier] text) ∧
    (name text).Sublist text ∧
    name (name text) = name text ∧
    ((∃ raw, name raw = text) ↔ IsNormal text) ∧
    (name text = text ↔ IsNormal text) := by
  refine ⟨?_, ?_, name_sublist text, name_eq_self_iff.mpr (name_isNormal text), ?_, name_eq_self_iff⟩
  · by_cases stable : simplify text = text
    · exact Or.inl stable
    · exact Or.inr (length_simplify_lt stable)
  · obtain ⟨rounds, reached, bound, changes⟩ := name_rounds text
    exact ⟨rounds, by omega, reached, simplify_eq_self_iff.mpr (name_isNormal text), changes⟩
  · constructor
    · rintro ⟨raw, rfl⟩
      exact name_isNormal raw
    · intro normal
      exact ⟨text, name_eq_self_iff.mpr normal⟩

/-- Each round makes room for the next: opened parentheses bring a pair of `!` together, without it the
test stands in front, and without the test there are blanks to trim. -/
theorem name_canonical_nested :
    ∃ rounds ≤ 16, simplify^[rounds] "!(!defined( A ))".toList = "A".toList ∧
      (∀ earlier < rounds, simplify^[earlier + 1] "!(!defined( A ))".toList ≠
        simplify^[earlier] "!(!defined( A ))".toList) ∧
      IsNormal "A".toList := by
  have named : name "!(!defined( A ))".toList = "A".toList := by decide +kernel
  obtain ⟨_, ⟨rounds, bound, reached, _, changes⟩, _⟩ := name_canonical "!(!defined( A ))".toList
  obtain ⟨_, _, _, _, image, _⟩ := name_canonical "A".toList
  exact ⟨rounds, bound, reached.symm.trans named, changes, image.mp ⟨_, named⟩⟩

end Conditionals.Condition
