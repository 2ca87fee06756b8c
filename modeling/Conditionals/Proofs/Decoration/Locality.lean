import Conditionals.Proofs.Decoration.Trace
import Conditionals.Proofs.Occurrence.Lines

/-!
# What lines above depend on

The directives of a text come in the order of their lines, and a step never changes what an
earlier step showed. So the path of a line, and all that is shown at or above it, depend only on the
lines down to that line.
-/

namespace Conditionals.Decoration

theorem follow_below {reference : Nat} {step : Step} (below : reference < step.line) (path : ActivePath) :
    step.follow reference path = path := by
  unfold Step.follow
  split
  all_goals first
    | rfl
    | exact if_neg (by omega)

/-! ### Directives down to a line -/

/-- The directives of lines numbered from zero. -/
def locateLines (lines : List Text) : List Located :=
  lines.zipIdx.flatMap fun (line, number) => locateLine number line

theorem locate_split (text : Text) (reference : Nat) :
    ∃ below, locate text = locateLines ((LineTable.ofText text).texts.take (reference + 1)) ++ below ∧
      ∀ located ∈ below, reference < located.line := by
  have split := List.take_append_drop (reference + 1) (LineTable.ofText text).texts
  refine ⟨((LineTable.ofText text).texts.drop (reference + 1)).zipIdx
    ((LineTable.ofText text).texts.take (reference + 1)).length |>.flatMap fun (line, number) =>
      locateLine number line, ?_, ?_⟩
  · rw [locate_eq, locateLines, ← List.flatMap_append]
    nth_rewrite 1 [← split]
    rw [List.zipIdx_append, Nat.zero_add]
  · intro located member
    obtain ⟨⟨line, number⟩, listed, found⟩ := List.mem_flatMap.mp member
    obtain ⟨occurrence, _, rfl⟩ := List.mem_map.mp found
    obtain ⟨after, before, _⟩ := List.mem_zipIdx listed
    simp only [List.length_take, List.length_drop] at after before
    dsimp only
    omega

/-- The steps of a text are those of its lines down to a given one, and steps below it. -/
theorem steps_split (text : Text) (reference : Nat) :
    ∃ below, (traceOf text).steps =
        (trace {} (locateLines ((LineTable.ofText text).texts.take (reference + 1)))).steps ++ below ∧
      ∀ step ∈ below, reference < step.line := by
  obtain ⟨below, split, later⟩ := locate_split text reference
  rw [traceOf, split, trace_append]
  refine ⟨_, rfl, fun step member => ?_⟩
  have listed := List.mem_map_of_mem (f := Step.line) member
  rw [trace_lines] at listed
  obtain ⟨located, present, line⟩ := List.mem_map.mp listed
  rw [← line]
  exact later located present

section Below

variable {reference : Nat} {below : List Step}

theorem foldl_follow_below (later : ∀ step ∈ below, reference < step.line) (path : ActivePath) :
    below.foldl (Step.follow reference) path = path := by
  induction below generalizing path with
  | nil => rfl
  | cons step rest ih =>
    obtain ⟨first, others⟩ := List.forall_mem_cons.mp later
    rw [List.foldl_cons, follow_below first, ih others]

theorem hints_below (later : ∀ step ∈ below, reference < step.line) :
    (below.filterMap Step.hint?).filter (fun hint => hint.line ≤ reference) = [] := by
  refine List.filter_eq_nil_iff.mpr fun hint member => ?_
  obtain ⟨step, listed, shown⟩ := List.mem_filterMap.mp member
  have line := Step.line_of_hint? shown
  have after := later step listed
  simp only [decide_eq_true_eq]
  omega

theorem diagnostics_below (later : ∀ step ∈ below, reference < step.line) :
    (below.filterMap Step.diagnostic?).filter
      (fun diagnostic => diagnostic.fault = .unmatched && diagnostic.line ≤ reference) = [] := by
  refine List.filter_eq_nil_iff.mpr fun diagnostic member => ?_
  obtain ⟨step, listed, reported⟩ := List.mem_filterMap.mp member
  have line := (Step.of_diagnostic? reported).2
  have after := later step listed
  simp only [Bool.and_eq_true, decide_eq_true_eq]
  omega

end Below

/-! ### The result down to a line -/

section Above

variable (text : Text) (reference other : Nat)

theorem path_above : (decorate text reference).path =
    (trace {} (locateLines ((LineTable.ofText text).texts.take (reference + 1)))).pathAt reference := by
  obtain ⟨below, split, later⟩ := steps_split text reference
  change (traceOf text).steps.foldl (Step.follow reference) {} = _
  rw [split, List.foldl_append, foldl_follow_below later]
  rfl

theorem emitted_above : (decorate text other).emitted.filter (fun hint => hint.line ≤ reference) =
    ((trace {} (locateLines ((LineTable.ofText text).texts.take (reference + 1)))).steps.filterMap Step.hint?).filter
      fun hint => hint.line ≤ reference := by
  obtain ⟨below, split, later⟩ := steps_split text reference
  change ((traceOf text).steps.filterMap Step.hint?).filter _ = _
  rw [split, List.filterMap_append, List.filter_append, hints_below later, List.append_nil]

theorem unmatched_above :
    (decorate text other).diagnostics.filter
      (fun diagnostic => diagnostic.fault = .unmatched && diagnostic.line ≤ reference) =
    ((trace {} (locateLines ((LineTable.ofText text).texts.take (reference + 1)))).steps.filterMap
      Step.diagnostic?).filter
        fun diagnostic => diagnostic.fault = .unmatched && diagnostic.line ≤ reference := by
  obtain ⟨below, split, later⟩ := steps_split text reference
  -- Chains that nothing closes are reported with the other fault.
  have frames : ((traceOf text).state.frames.map Frame.diagnostic).filter
      (fun diagnostic => diagnostic.fault = .unmatched && diagnostic.line ≤ reference) = [] :=
    List.filter_eq_nil_iff.mpr (by simp [Frame.diagnostic])
  change ((traceOf text).steps.filterMap Step.diagnostic? ++ _).filter _ = _
  rw [List.filter_append, frames, List.append_nil, split, List.filterMap_append, List.filter_append,
    diagnostics_below later, List.append_nil]

end Above

theorem bands_filter (decorations : Decorations) (keep : Hint → Bool) :
    decorations.bands.map (List.filter keep) =
      (List.range bandCount).map fun number => (decorations.emitted.filter keep).filter fun hint => hint.band = number := by
  rw [Decorations.bands, List.map_map]
  refine List.map_congr_left fun number _ => ?_
  exact List.filter_comm ..

/-- Two texts with the same lines down to a line show the same path there, and the same hints and stray
directives at or above it. -/
theorem decorate_congr_above {first second : Text} {reference : Nat}
    (same : ∀ number ≤ reference, (LineTable.ofText first).text? number = (LineTable.ofText second).text? number) :
    (decorate first reference).path = (decorate second reference).path ∧
    ∀ left right,
      (decorate first left).bands.map (List.filter fun hint => hint.line ≤ reference) =
        (decorate second right).bands.map (List.filter fun hint => hint.line ≤ reference) ∧
      (decorate first left).diagnostics.filter
          (fun diagnostic => diagnostic.fault = .unmatched && diagnostic.line ≤ reference) =
        (decorate second right).diagnostics.filter
          (fun diagnostic => diagnostic.fault = .unmatched && diagnostic.line ≤ reference) := by
  have lines : (LineTable.ofText first).texts.take (reference + 1) =
      (LineTable.ofText second).texts.take (reference + 1) := by
    refine List.ext_getElem? fun number => ?_
    rw [List.getElem?_take, List.getElem?_take]
    split
    · rename_i above
      have read := same number (Nat.le_of_lt_succ above)
      simpa only [LineTable.text?, LineTable.line?, LineTable.texts, List.getElem?_map] using read
    · rfl
  refine ⟨?_, fun left right => ⟨?_, ?_⟩⟩
  · rw [path_above, lines, ← path_above]
  · rw [bands_filter, bands_filter, emitted_above, lines, ← emitted_above second reference right]
  · rw [unmatched_above, lines, ← unmatched_above second reference right]

/-- A later branch and a missing closer change nothing above them, though the diagnostics differ. -/
theorem decorate_congr_above_branch :
    (∀ number ≤ 2, (LineTable.ofText "#endif\n#if A\nx\n#else\ny\n#endif".toList).text? number =
      (LineTable.ofText "#endif\n#if A\nx\n#elif B".toList).text? number) ∧
    (decorate "#endif\n#if A\nx\n#else\ny\n#endif".toList 2).path =
      (decorate "#endif\n#if A\nx\n#elif B".toList 2).path ∧
    (decorate "#endif\n#if A\nx\n#else\ny\n#endif".toList 2).bands.map (List.filter fun hint => hint.line ≤ 2) =
      (decorate "#endif\n#if A\nx\n#elif B".toList 3).bands.map (List.filter fun hint => hint.line ≤ 2) ∧
    (decorate "#endif\n#if A\nx\n#else\ny\n#endif".toList 2).diagnostics ≠
      (decorate "#endif\n#if A\nx\n#elif B".toList 3).diagnostics := by
  have same : ∀ number ≤ 2, (LineTable.ofText "#endif\n#if A\nx\n#else\ny\n#endif".toList).text? number =
      (LineTable.ofText "#endif\n#if A\nx\n#elif B".toList).text? number := by
    decide +kernel
  obtain ⟨path, shown⟩ := decorate_congr_above same
  exact ⟨same, path, (shown 2 3).1, by decide +kernel⟩

end Conditionals.Decoration
