import Conditionals.Proofs.Decoration.Conservation

/-!
# Merging the bands

Hints are stored by bands, and chains whose levels differ by a multiple of ten share one. Merging the bands
by line shows every hint once, on a line that exists. Where no two directives share a line the merged
hints stand in the order in which the scan gave them.
-/

namespace Conditionals.Decoration

theorem emitted_increasing {text : Text} (distinct : ((sites text).map Site.line).Nodup) (reference : Nat) :
    (decorate text reference).emitted.Pairwise fun first second => first.line < second.line := by
  have lines := List.pairwise_map.mpr (sites_ordered_of_nodup distinct)
  exact List.pairwise_map.mp (lines.sublist (hint_lines (locate text)))

theorem emitted_below {text : Text} {reference : Nat} {hint : Hint}
    (shown : hint ∈ (decorate text reference).emitted) : hint.line < (LineTable.ofText text).lineCount := by
  obtain ⟨step, member, given⟩ := List.mem_filterMap.mp shown
  have listed : step.line ∈ (locate text).map Located.line := by
    rw [← trace_lines {}]
    exact List.mem_map_of_mem member
  obtain ⟨located, found, same⟩ := List.mem_map.mp listed
  rw [Step.line_of_hint? given, ← same]
  exact lines_below text located found

/-- Merging loses no hint and sorts them by line, and every line is one of the text. Where no two directives
outside comments share a line, the merged hints are those of the steps of the scan, in their order. -/
theorem hints_merged (text : Text) (reference : Nat) :
    (decorate text reference).hints.Perm (decorate text reference).bands.flatten ∧
    (decorate text reference).bands.flatten.Perm ((traceOf text).steps.filterMap Step.hint?) ∧
    (decorate text reference).hints.Pairwise (fun first second => first.line ≤ second.line) ∧
    (∀ hint ∈ (decorate text reference).hints, hint.line < (LineTable.ofText text).lineCount ∧
      ∃ source, (LineTable.ofText text).text? hint.line = some source) ∧
    (((sites text).map Site.line).Nodup →
      (decorate text reference).hints.Pairwise (fun first second => first.line < second.line) ∧
      (decorate text reference).hints = (traceOf text).steps.filterMap Step.hint?) := by
  refine ⟨List.mergeSort_perm _ _, bands_perm _ reference, mergeSort_sorted Hint.line _, ?_, ?_⟩
  · intro hint shown
    have below := emitted_below ((hints_perm (traceOf text) reference).subset shown)
    have inside : hint.line < (LineTable.ofText text).texts.length := by rwa [LineTable.length_texts]
    exact ⟨below, _, LineTable.text?_of_lt inside⟩
  · intro distinct
    -- Lines increase strictly along the hints given, so no other order of the same hints is sorted.
    have strict := emitted_increasing distinct reference
    have same : (decorate text reference).hints = (decorate text reference).emitted :=
      mergeSort_eq Hint.line (bands_perm _ reference) strict
    exact ⟨same ▸ strict, same⟩

/-- The eleventh of nested chains is back in the first band, and yet its hint comes last. -/
theorem hints_merged_deep :
    ((sites (List.replicate 11 "#if A\n".toList).flatten).map Site.line).Nodup ∧
    (decorate (List.replicate 11 "#if A\n".toList).flatten 0).hints.map Hint.band =
      [0, 1, 2, 3, 4, 5, 6, 7, 8, 9, 0] := by
  have distinct : ((sites (List.replicate 11 "#if A\n".toList).flatten).map Site.line).Nodup := by decide +kernel
  obtain ⟨_, _, _, _, ordered⟩ := hints_merged (List.replicate 11 "#if A\n".toList).flatten 0
  refine ⟨distinct, ?_⟩
  rw [(ordered distinct).2]
  decide +kernel

end Conditionals.Decoration
