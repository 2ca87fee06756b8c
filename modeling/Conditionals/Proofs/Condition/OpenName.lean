import Conditionals.Proofs.Condition.NormalForm

/-!
# Names of openers, named again

The `!` of an `#ifndef` is put in front of a name that is in normal form already. The result is in normal
form too unless the name stands in parentheses, which the next round would open. `openName_again_iff`
says that these are the only names that change when an opener's name is taken for its condition.
-/

namespace Conditionals.Condition

theorem openName_plain {text : Text} (plain : ∀ rest, text ≠ '!' :: rest) (kind : Kind) :
    openName kind text = if kind = .ifUndefined then '!' :: text else text := by
  unfold openName
  split
  · rename_i rest
    exact absurd rfl (plain rest)
  · rfl

theorem length_openName (kind : Kind) (text : Text) : (openName kind text).length ≤ text.length + 1 := by
  unfold openName
  split
  · omega
  · split
    · rw [List.length_cons]
    · omega

theorem simplify_mark {text : Text} (normal : IsNormal text) :
    simplify ('!' :: text) = dropDoubleNegations (unwrapNegation ('!' :: text)) := by
  have uncut : beforeComment ('!' :: text) = '!' :: text := by
    rw [beforeComment, if_neg (by simp), beforeComment_eq_self_iff.mpr normal.comment]
  have trimmed : Text.trim ('!' :: text) = '!' :: text := by
    have ends := (eq_self_of_comp Text.trimStart_sublist Text.trimEnd_sublist normal.trimmed).2
    show Text.trimEnd ('!' :: text) = '!' :: text
    rw [Text.trimEnd_cons (by decide), ends]
  have tested : unwrapTest ('!' :: text) = '!' :: text := by
    rw [unwrapTest, unwrapDefined_eq_self_iff.mpr fun inner same => normal.test inner (Or.inl same)]
  rw [simplify, uncut, trimmed, tested]

theorem simplify_mark_plain {text : Text} (normal : IsNormal text) (plain : ∀ rest, text ≠ '!' :: rest)
    (open_ : ∀ inner, text ≠ ['('] ++ inner ++ [')']) : simplify ('!' :: text) = '!' :: text := by
  have kept : unwrapNegation ('!' :: text) = '!' :: text := by
    refine unwrapNegation_eq_self_iff.mpr fun inner same => open_ inner ?_
    exact (List.cons.inj same).2
  have single : ¬['!', '!'] <:+: '!' :: text := by
    rw [List.infix_cons_iff]
    rintro (⟨rest, same⟩ | pair)
    · exact plain rest (List.cons.inj same).2.symm
    · exact normal.negation pair
  rw [simplify_mark normal, kept, dropDoubleNegations_eq_self_iff.mpr single]

theorem length_name_mark_parentheses {inner : Text} (normal : IsNormal (['('] ++ inner ++ [')'])) :
    (name ('!' :: (['('] ++ inner ++ [')']))).length ≤ inner.length + 1 := by
  have shorter : (simplify ('!' :: (['('] ++ inner ++ [')']))).length ≤ inner.length + 1 := by
    have opened : unwrapNegation ('!' :: (['('] ++ inner ++ [')'])) = '!' :: inner := unwrapNegation_wrapped inner
    rw [simplify_mark normal, opened]
    exact (dropDoubleNegations_sublist ('!' :: inner)).length_le
  rw [name]
  split
  · rename_i stable
    rwa [stable] at shorter
  · exact Nat.le_trans (name_sublist _).length_le shorter

/-- What an opener shows is the name of what it shows, unless it shows a `!` of its own in front of
parentheses around the whole name. -/
theorem openName_again_iff (kind : Kind) (condition : Text) :
    openName kind (name (openName kind (name condition))) = openName kind (name condition) ↔
      ¬(kind = .ifUndefined ∧ ∃ inner, name condition = ['('] ++ inner ++ [')']) := by
  have normal := name_isNormal condition
  generalize name condition = shown at normal ⊢
  by_cases marked : ∃ rest, shown = '!' :: rest
  · obtain ⟨rest, rfl⟩ := marked
    refine iff_of_true ?_ ?_
    · show openName kind (name ('!' :: rest)) = '!' :: rest
      rw [name_eq_self_iff.mpr normal]
      rfl
    · rintro ⟨-, inner, same⟩
      cases same
  have plain := not_exists.mp marked
  rw [openName_plain plain]
  split
  · rename_i undefined
    by_cases wrapped : ∃ inner, shown = ['('] ++ inner ++ [')']
    · obtain ⟨inner, rfl⟩ := wrapped
      refine iff_of_false ?_ fun open_ => open_ ⟨undefined, inner, rfl⟩
      intro same
      -- Two parentheses are gone for good, and at most one `!` comes back.
      have lengths := congrArg List.length same
      have once := length_openName kind (name ('!' :: (['('] ++ inner ++ [')'])))
      have opened := length_name_mark_parentheses normal
      simp only [List.length_cons, List.length_append, List.length_nil] at lengths
      omega
    · refine iff_of_true ?_ fun both => wrapped both.2
      have stable := simplify_mark_plain normal plain (not_exists.mp wrapped)
      rw [name_eq_self_iff.mpr (simplify_eq_self_iff.mp stable)]
      rfl
  · rename_i defined
    refine iff_of_true ?_ fun both => defined both.1
    rw [name_eq_self_iff.mpr normal, openName_plain plain, if_neg defined]

/-- The `!` of `#ifndef (A)` makes room for a simplification. -/
theorem openName_again_parentheses :
    openName .ifUndefined (name "(A)".toList) = "!(A)".toList ∧
      openName .ifUndefined (name "!(A)".toList) = "!A".toList ∧
      openName .ifUndefined (name (openName .ifUndefined (name "(A)".toList))) ≠
        openName .ifUndefined (name "(A)".toList) := by
  decide +kernel

end Conditionals.Condition
