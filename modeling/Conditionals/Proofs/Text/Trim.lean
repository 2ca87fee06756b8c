import Conditionals.Text.Blank
import Mathlib.Data.List.DropRight

/-!
# Blanks at the end of a text

A text is its trimmed form followed by blanks (`trimEnd_append_blanks`). What is added or cut away
among those blanks does not change the trimmed form.
-/

namespace Conditionals.Text

theorem trimEnd_append_blanks (text : Text) :
    ∃ blanks, (∀ c ∈ blanks, isBlank c = true) ∧ trimEnd text ++ blanks = text :=
  ⟨text.rtakeWhile isBlank, fun _ => List.mem_rtakeWhile_imp, List.rdropWhile_append_rtakeWhile ..⟩

theorem trimEnd_trimEnd (text : Text) : trimEnd (trimEnd text) = trimEnd text :=
  List.rdropWhile_idempotent isBlank text

theorem trimEnd_blanks {blanks : Text} (blank : ∀ c ∈ blanks, isBlank c = true) (text : Text) :
    trimEnd (text ++ blanks) = trimEnd text := by
  rw [trimEnd, List.reverse_append, List.dropWhile_append_of_pos fun c member => blank c (List.mem_reverse.mp member)]
  rfl

theorem trim_blanks {blanks : Text} (blank : ∀ c ∈ blanks, isBlank c = true) (text : Text) :
    trim (text ++ blanks) = trim text := by
  unfold trim trimStart
  rw [List.dropWhile_append]
  split
  · rename_i empty
    have none : blanks.dropWhile isBlank = [] := List.dropWhile_eq_nil_iff.mpr blank
    rw [List.isEmpty_iff.mp empty, none]
  · exact trimEnd_blanks blank _

theorem trimEnd_solid {word : Text} (solid : ∀ c ∈ word, isBlank c = false) (text : Text) :
    trimEnd (word ++ text) = word ++ trimEnd text := by
  induction word with
  | nil => rfl
  | cons c word ih =>
    obtain ⟨first, others⟩ := List.forall_mem_cons.mp solid
    rw [List.cons_append, trimEnd_cons first, ih others, List.cons_append]

/-- A cut among the blanks at the end does not change the trimmed form. -/
theorem trimEnd_takeWhile {text : Text} {keep : Char → Bool} (kept : ∀ c ∈ trimEnd text, keep c = true) :
    trimEnd (text.takeWhile keep) = trimEnd text := by
  obtain ⟨blanks, blank, split⟩ := trimEnd_append_blanks text
  have cut : text.takeWhile keep = trimEnd text ++ blanks.takeWhile keep := by
    nth_rewrite 1 [← split]
    exact List.takeWhile_append_of_pos kept
  have few : ∀ c ∈ blanks.takeWhile keep, isBlank c = true :=
    fun c member => blank c ((List.takeWhile_prefix keep).subset member)
  rw [cut, trimEnd_blanks few, trimEnd_trimEnd]

end Conditionals.Text
