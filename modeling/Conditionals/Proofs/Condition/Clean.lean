import Conditionals.ActivePath
import Conditionals.Proofs.Condition.NormalForm
import Mathlib.Data.List.Chain

/-!
# Clean names

A clean text stays on one line and holds neither `!!` nor `//`. The name of a condition that stays on
one line is clean, and so is all that the scan makes of clean names: an opener's name, the opposite of
a name, and names joined into a label. A clean name is the opposite of its opposite.
-/

namespace Conditionals

/-- A text without line feeds and carriage returns. -/
def Text.OneLine (text : Text) : Prop :=
  '\n' ∉ text ∧ '\r' ∉ text

instance (text : Text) : Decidable text.OneLine :=
  inferInstanceAs (Decidable (_ ∧ _))

namespace Text.OneLine

theorem of_sublist {text part : Text} (line : text.OneLine) (sub : part.Sublist text) : part.OneLine :=
  ⟨fun feed => line.1 (sub.subset feed), fun return_ => line.2 (sub.subset return_)⟩

theorem append {first second : Text} (left : first.OneLine) (right : second.OneLine) :
    Text.OneLine (first ++ second) := by
  simp only [OneLine, List.mem_append, not_or]
  exact ⟨⟨left.1, right.1⟩, ⟨left.2, right.2⟩⟩

theorem arrowJoin {names : List Text} (lines : ∀ name ∈ names, name.OneLine) :
    Text.OneLine (Conditionals.arrowJoin names).toList := by
  rw [Conditionals.arrowJoin, String.toList_intercalate, List.map_map]
  induction names with
  | nil => exact ⟨by simp, by simp⟩
  | cons name names ih =>
    obtain ⟨first, others⟩ := List.forall_mem_cons.mp lines
    cases names with
    | nil => simpa using first
    | cons next names =>
      rw [List.map_cons, List.map_cons, List.intercalate_cons_cons, ← List.map_cons]
      refine (append ?_ (by decide)).append (ih others)
      simpa using first

theorem status {path : ActivePath} (lines : ∀ name ∈ path.names, name.OneLine) :
    Text.OneLine path.status.toList := by
  rw [ActivePath.status, String.toList_append]
  refine append (by decide) ?_
  rw [ActivePath.display]
  split
  · decide
  · exact arrowJoin lines

end Text.OneLine

namespace Condition

structure Clean (text : Text) : Prop where
  negation : ¬['!', '!'] <:+: text
  comment : ¬['/', '/'] <:+: text
  line : text.OneLine

theorem not_pair_infix_iff {c : Char} {text : Text} :
    ¬[c, c] <:+: text ↔ text.IsChain fun first second => ¬(first = c ∧ second = c) := by
  rw [List.isChain_iff_forall_rel_of_append_cons_cons]
  constructor
  · rintro absent _ _ before after split ⟨rfl, rfl⟩
    exact absent ⟨before, after, by simp [split]⟩
  · rintro apart ⟨before, after, split⟩
    have pair : text = before ++ c :: c :: after := by simp [← split]
    exact apart pair ⟨rfl, rfl⟩

namespace Clean

variable {text : Text}

theorem nil : Clean [] := ⟨by simp, by simp, by decide⟩

theorem of_infix {part : Text} (clean : Clean text) (inside : part <:+: text) : Clean part :=
  ⟨fun pair => clean.negation (pair.trans inside), fun pair => clean.comment (pair.trans inside),
    clean.line.of_sublist inside.sublist⟩

/-- A `!` may be put in front of a clean text that does not start with one. -/
theorem mark (clean : Clean text) (plain : text.head? ≠ some '!') : Clean ('!' :: text) := by
  constructor
  · rw [not_pair_infix_iff, List.isChain_cons]
    refine ⟨?_, not_pair_infix_iff.mp clean.negation⟩
    rintro _ head ⟨_, rfl⟩
    exact plain head
  · rw [not_pair_infix_iff, List.isChain_cons]
    exact ⟨by simp, not_pair_infix_iff.mp clean.comment⟩
  · have sign : Text.OneLine ['!'] := by decide
    exact sign.append clean.line

/-- A blank between two texts keeps their ends apart. -/
theorem join {first second : Text} (left : Clean first) (right : Clean second) :
    Clean (first ++ ' ' :: '&' :: ' ' :: second) := by
  have apart : ∀ {c}, c ≠ ' ' → c ≠ '&' → ¬[c, c] <:+: first → ¬[c, c] <:+: second →
      ¬[c, c] <:+: first ++ ' ' :: '&' :: ' ' :: second := by
    intro c blank sign before after
    rw [not_pair_infix_iff] at before after ⊢
    refine List.isChain_append.mpr ⟨before, ?_, by simp [blank.symm]⟩
    simp only [List.isChain_cons]
    exact ⟨by simp [blank.symm], by simp [sign.symm], by simp [blank.symm], after⟩
  constructor
  · exact apart (by decide) (by decide) left.negation right.negation
  · exact apart (by decide) (by decide) left.comment right.comment
  · have sign : Text.OneLine [' ', '&', ' '] := by decide
    exact left.line.append (sign.append right.line)

theorem name {condition : Text} (line : condition.OneLine) : Clean (Condition.name condition) := by
  have normal := name_isNormal condition
  exact ⟨normal.negation, normal.comment, line.of_sublist (name_sublist condition)⟩

theorem openName (clean : Clean text) (kind : Kind) : Clean (Condition.openName kind text) := by
  unfold Condition.openName
  split
  · exact clean
  · rename_i plain
    split
    · refine clean.mark fun head => ?_
      obtain ⟨rest, rfl⟩ := List.head?_eq_some_iff.mp head
      exact plain rest rfl
    · exact clean

theorem negate (clean : Clean text) : Clean (Condition.negate text) := by
  unfold Condition.negate
  split
  · exact clean.of_infix (List.infix_cons (List.infix_refl _))
  · rename_i plain
    refine clean.mark fun head => ?_
    obtain ⟨rest, rfl⟩ := List.head?_eq_some_iff.mp head
    exact plain rest rfl

/-- Only a name with two leading `!` differs from the opposite of its opposite. -/
theorem negate_negate (clean : Clean text) : Condition.negate (Condition.negate text) = text := by
  fun_cases Condition.negate text with
  | case1 rest =>
    fun_cases Condition.negate rest with
    | case1 rest => exact absurd ⟨[], rest, rfl⟩ clean.negation
    | case2 => rfl
  | case2 => rfl

end Clean

end Condition
end Conditionals
