import Conditionals.Decoration.Scan
import Conditionals.Proofs.Sorting

/-!
# Hints and their bands

Splitting hints into bands and merging them by line loses none of them. So a line with one hint
shows exactly its label, whatever its band.
-/

namespace Conditionals.Decoration

theorem perm_buckets {α : Type} (key : α → Nat) (values : List α) (count : Nat) :
    ((List.range count).flatMap fun k => values.filter fun value => key value = k).Perm
      (values.filter fun value => key value < count) := by
  induction count with
  | zero => simp
  | succ count ih =>
    rw [List.range_succ, List.flatMap_append, List.flatMap_singleton]
    have split := List.filter_append_perm (fun value => key value < count) (values.filter fun value => key value < count + 1)
    rw [List.filter_filter, List.filter_filter] at split
    refine (ih.append_right _).trans (.trans (.of_eq ?_) split)
    congr 1 <;> refine List.filter_congr fun value _ => ?_
    all_goals
      rw [Bool.eq_iff_iff]
      simp only [Bool.and_eq_true, Bool.not_eq_true', decide_eq_true_eq, decide_eq_false_iff_not]
      omega

theorem hint_band {step : Step} {hint : Hint} (shown : step.hint? = some hint) : hint.band < bandCount := by
  unfold Step.hint? at shown
  split at shown
  all_goals first
    | (cases shown; exact Nat.mod_lt _ (by decide))
    | cases shown

theorem bands_perm (trace : Trace) (reference : Nat) :
    (trace.decorations reference).bands.flatten.Perm (trace.decorations reference).emitted := by
  rw [Decorations.bands, ← List.flatMap_def]
  refine (perm_buckets Hint.band _ bandCount).trans (.of_eq (List.filter_eq_self.mpr ?_))
  intro hint member
  obtain ⟨step, _, shown⟩ := List.mem_filterMap.mp member
  exact decide_eq_true (hint_band shown)

/-- The hints of all bands, merged by line, are those that were emitted. -/
theorem hints_perm (trace : Trace) (reference : Nat) :
    (trace.decorations reference).hints.Perm (trace.decorations reference).emitted :=
  (List.mergeSort_perm _ _).trans (bands_perm trace reference)

/-- The labels shown on a line. -/
def Decorations.labelsOn (decorations : Decorations) (line : Nat) : List Text :=
  (decorations.hints.filter fun hint => hint.line = line).map Hint.label

theorem labelsOn_eq {trace : Trace} {hint : Hint} (reference : Nat)
    (distinct : ((trace.steps.filterMap Step.hint?).map Hint.line).Nodup)
    (shown : hint ∈ trace.steps.filterMap Step.hint?) :
    (trace.decorations reference).labelsOn hint.line = [hint.label] := by
  have single : (trace.steps.filterMap Step.hint?).filter (fun other => other.line = hint.line) = [hint] := by
    obtain ⟨before, after, split⟩ := List.append_of_mem shown
    rw [split] at distinct ⊢
    rw [List.map_append, List.map_cons, List.nodup_middle, List.nodup_cons] at distinct
    simp only [List.mem_append, List.mem_map, not_or, not_exists, not_and] at distinct
    have above : before.filter (fun other => other.line = hint.line) = [] :=
      List.filter_eq_nil_iff.mpr fun other member => by simpa using distinct.1.1 other member
    have below : after.filter (fun other => other.line = hint.line) = [] :=
      List.filter_eq_nil_iff.mpr fun other member => by simpa using distinct.1.2 other member
    rw [List.filter_append, above, List.filter_cons_of_pos (by simp), below, List.nil_append]
  have merged := (hints_perm trace reference).filter fun other => other.line = hint.line
  rw [show (trace.decorations reference).emitted = trace.steps.filterMap Step.hint? from rfl, single] at merged
  rw [Decorations.labelsOn, List.perm_singleton.mp merged, List.map_singleton]

end Conditionals.Decoration
