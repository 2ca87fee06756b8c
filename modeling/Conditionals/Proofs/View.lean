import Conditionals.Proofs.Decoration.Trace
import Conditionals.Proofs.Fold.Trace
import Conditionals.Proofs.Occurrence.Anchored

/-!
# What the scans see of a line

The folding scan looks at the directive that starts a line, and the decoration scan at those outside
comments, wherever they stand. The two together are the view of a line. `folding_of_views` and
`decorate_of_views` say that the scans depend on nothing else: offsets, comments and other text have
no influence.
-/

namespace Conditionals

structure View where
  start : Option Directive
  directives : List Directive
  deriving DecidableEq, Repr

def view (line : Text) : View :=
  { start := classify line
    directives := if isComment line then [] else (occurrences line).map Occurrence.directive }

def views (text : Text) : List View :=
  (LineTable.ofText text).texts.map view

/-! ### The folding scan -/

namespace Fold

theorem trace_congr (state : State) {first second : List Text} (same : first.map classify = second.map classify) :
    trace state first = trace state second := by
  induction first generalizing state second with
  | nil =>
    obtain rfl := List.map_eq_nil_iff.mp same.symm
    rfl
  | cons line rest ih =>
    obtain ⟨other, others, rfl, starts, remaining⟩ := List.map_eq_cons_iff.mp same.symm
    have read : state.read line = state.read other := by
      unfold State.read
      rw [starts]
    simp only [trace, read, ih _ remaining.symm]

theorem folding_of_views {first second : Text} (same : views first = views second) :
    foldingOfText first = foldingOfText second := by
  have starts := congrArg (List.map View.start) same
  rw [views, views, List.map_map, List.map_map] at starts
  exact congrArg Trace.folding (trace_congr {} starts)

end Fold

/-! ### The decoration scan -/

namespace Decoration

/-- The trace without the directives on comment lines. -/
def Trace.visible (trace : Trace) : Trace :=
  { trace with steps := trace.steps.filter fun step => step.act ≠ .skipped }

theorem trace_visible (state : State) (directives : List Located) :
    trace state (directives.filter fun located => !located.commented) = (trace state directives).visible := by
  induction directives generalizing state with
  | nil => rfl
  | cons located rest ih =>
    cases commented : located.commented with
    | true =>
      rw [List.filter_cons_of_neg (by simp [commented]), ih]
      simp [trace, Trace.visible, State.visit, commented]
    | false =>
      have acts : (state.visit located).1.act ≠ .skipped := by
        have visits := visit_visits state located
        generalize (state.visit located).1 = step, (state.visit located).2 = next at visits ⊢
        cases visits <;> simp_all
      rw [List.filter_cons_of_pos (by simp [commented])]
      simp only [trace, ih]
      simp [Trace.visible, acts]

theorem filterMap_visible {γ : Type} (observe : Step → Option γ)
    (silent : ∀ step, step.act = .skipped → observe step = none) (trace : Trace) :
    trace.visible.steps.filterMap observe = trace.steps.filterMap observe := by
  rw [Trace.visible, List.filterMap_filter]
  refine List.filterMap_congr fun step _ => ?_
  by_cases skipped : step.act = .skipped
  · rw [if_neg (by simp [skipped]), silent step skipped]
  · rw [if_pos (by simp [skipped])]

/-- Directives on comment lines leave no hint, no diagnostic and no trace in the path. -/
theorem decorations_visible (trace : Trace) (reference : Nat) :
    trace.visible.decorations reference = trace.decorations reference := by
  have hints := filterMap_visible Step.hint? (fun step skipped => by simp [Step.hint?, skipped]) trace
  have diagnostics := filterMap_visible Step.diagnostic? (fun step skipped => by simp [Step.diagnostic?, skipped]) trace
  have path : trace.visible.pathAt reference = trace.pathAt reference := by
    rw [Trace.pathAt, Trace.visible, List.foldl_filter]
    refine List.foldl_ext _ _ _ fun path step _ => ?_
    cases act : step.act <;> simp [Step.follow, act]
  rw [Trace.decorations, Trace.decorations, hints, diagnostics, path]
  rfl

/-- The directives that the lines with the given views show to the scan. -/
def shown (views : List View) : List Located :=
  views.zipIdx.flatMap fun (view, line) => view.directives.map fun directive => { line, commented := false, directive }

theorem locate_visible (text : Text) : (locate text).filter (fun located => !located.commented) = shown (views text) := by
  rw [locate_eq, List.filter_flatMap, shown, views, List.zipIdx_map, List.flatMap_map]
  refine List.flatMap_congr ?_
  rintro ⟨line, number⟩ _
  cases comment : isComment line with
  | true => simp [locateLine, view, comment]
  | false =>
    simp only [Prod.map_apply, id_eq, locateLine, view, comment, Bool.false_eq_true, if_false, List.map_map]
    exact List.filter_eq_self.mpr (by simp)

theorem decorate_eq_shown (text : Text) (reference : Nat) :
    decorate text reference = (trace {} (shown (views text))).decorations reference := by
  rw [← locate_visible, trace_visible, decorations_visible]
  rfl

theorem decorate_of_views {first second : Text} (same : views first = views second) (reference : Nat) :
    decorate first reference = decorate second reference := by
  rw [decorate_eq_shown, same, ← decorate_eq_shown]

end Decoration

/-! ### Lines that show nothing -/

/-- A comment, or a line on which no directive is found. -/
def Inert (line : Text) : Prop :=
  isComment line = true ∨ occurrences line = []

instance (line : Text) : Decidable (Inert line) :=
  inferInstanceAs (Decidable (_ ∨ _))

theorem Inert.view {line : Text} (inert : Inert line) : view line = { start := none, directives := [] } := by
  rcases inert with comment | none
  · simp [Conditionals.view, comment, classify_comment comment]
  · -- The directive that starts a line would be found by the other search too.
    have code : classify line = .none := by
      rcases occurrences_start line with ⟨_, rest, _, split⟩ | ⟨code, _⟩
      · rw [none] at split
        cases split
      · exact code
    simp [Conditionals.view, none, code]

theorem views_congr {first second : Text}
    (count : (LineTable.ofText first).lineCount = (LineTable.ofText second).lineCount)
    (lines : ∀ number < (LineTable.ofText first).lineCount, ∀ left ∈ (LineTable.ofText first).text? number,
      ∀ right ∈ (LineTable.ofText second).text? number, view left = view right) :
    views first = views second := by
  refine List.ext_getElem ?_ fun number left right => ?_
  · rw [views, views, List.length_map, List.length_map, LineTable.length_texts, LineTable.length_texts, count]
  · rw [views, List.length_map] at left right
    simp only [views, List.getElem_map]
    exact lines number (LineTable.length_texts _ ▸ left) _ (LineTable.text?_of_lt left) _ (LineTable.text?_of_lt right)

open Fold (foldingOfText scanText Token)

/-- Comments and lines without directives can be exchanged for each other: neither scan sees a difference. -/
theorem scans_inert_lines {first second : Text} (chosen : Categories)
    (count : (LineTable.ofText first).lineCount = (LineTable.ofText second).lineCount)
    (lines : ∀ number < (LineTable.ofText first).lineCount, ∀ left ∈ (LineTable.ofText first).text? number,
      ∀ right ∈ (LineTable.ofText second).text? number, left = right ∨ Inert left ∧ Inert right) :
    (∀ reference, Decoration.decorate first reference = Decoration.decorate second reference) ∧
    (scanText chosen Token.never first).result = .ok (foldingOfText first) ∧
    (scanText chosen Token.never second).result = .ok (foldingOfText first) := by
  have same : views first = views second := by
    refine views_congr count fun number inside left above right below => ?_
    rcases lines number inside left above right below with rfl | ⟨quiet, silent⟩
    · rfl
    · rw [quiet.view, silent.view]
  refine ⟨Decoration.decorate_of_views same, Fold.scan_never chosen _, ?_⟩
  rw [Fold.folding_of_views same]
  exact Fold.scan_never chosen _

/-- A comment hides the directive behind its carriage return too. -/
theorem scans_inert_lines_comment :
    (LineTable.ofText "#if A\n// #else\nx\n#endif".toList).lineCount =
      (LineTable.ofText "#if A\ny\n/* #endif\r#if B\n#endif".toList).lineCount ∧
    occurrences "/* #endif\r#if B".toList ≠ [] ∧
    Decoration.decorate "#if A\n// #else\nx\n#endif".toList 2 =
      Decoration.decorate "#if A\ny\n/* #endif\r#if B\n#endif".toList 2 := by
  have count : (LineTable.ofText "#if A\n// #else\nx\n#endif".toList).lineCount =
      (LineTable.ofText "#if A\ny\n/* #endif\r#if B\n#endif".toList).lineCount := by
    decide +kernel
  refine ⟨count, by decide +kernel, (scans_inert_lines .all count ?_).1 2⟩
  decide +kernel

end Conditionals
