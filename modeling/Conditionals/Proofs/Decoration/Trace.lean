import Conditionals.Decoration.Scan
import Mathlib.Data.List.Induction

/-!
# Traces of the decoration scan

`Visits` lists what one directive can do to the open chains, and `trace_induction` carries a
property of the directives met, the steps made and the chains left open from one directive to the
next.
-/

namespace Conditionals.Decoration

/-- A directive takes one state of the open chains to another and leaves a step. -/
inductive Visits : State → Located → Step → State → Prop where
  | skipped {state : State} {located : Located} (commented : located.commented = true) :
      Visits state located { line := located.line, act := .skipped, frames := state.frames } state
  | opened {frames : List Frame} {siblings : List Sibling} {located : Located} {name : Text}
      (visible : located.commented = false) (opener : located.directive.kind.role = .opener)
      (named : name = Condition.openName located.directive.kind (Condition.name located.directive.condition)) :
      Visits { frames, siblings } located
        { line := located.line, act := .opened located.directive.kind name frames.length
          frames := { line := located.line, kind := located.directive.kind, name, level := frames.length } :: frames }
        { frames := { line := located.line, kind := located.directive.kind, name, level := frames.length } :: frames
          siblings := { name, kind := located.directive.kind } :: siblings }
  | branched {frame : Frame} {outer : List Frame} {siblings : List Sibling} {located : Located} {name : Text}
      (visible : located.commented = false) (branch : located.directive.kind = .elseIf)
      (named : name = Condition.name located.directive.condition) :
      Visits { frames := frame :: outer, siblings } located
        { line := located.line, act := .branched name frame.level
          frames := { frame with line := located.line, kind := .elseIf, name } :: outer }
        { frames := { frame with line := located.line, kind := .elseIf, name } :: outer
          siblings := { name, kind := .elseIf } :: siblings }
  | inverted {frame : Frame} {outer : List Frame} {siblings : List Sibling} {located : Located} {label : Text}
      (visible : located.commented = false) (branch : located.directive.kind = .otherwise)
      (named : label = Condition.negate frame.name) :
      Visits { frames := frame :: outer, siblings } located
        { line := located.line, act := .inverted label frame.level, frames := frame :: outer }
        { frames := frame :: outer, siblings := { name := label, kind := .otherwise } :: siblings }
  | closed {frame : Frame} {outer : List Frame} {siblings : List Sibling} {located : Located}
      (visible : located.commented = false) (closer : located.directive.kind = .endIf) :
      Visits { frames := frame :: outer, siblings } located
        { line := located.line, act := .closed (collect [] siblings).1 frame, frames := outer }
        { frames := outer, siblings := (collect [] siblings).2 }
  | unmatched {siblings : List Sibling} {located : Located} {kind : Kind}
      (visible : located.commented = false) (found : located.directive.kind = kind) (other : kind.role ≠ .opener) :
      Visits { frames := [], siblings } located
        { line := located.line, act := .unmatched kind, frames := [] }
        { frames := [], siblings }

theorem meet_opener {directive : Directive} (opener : directive.kind.role = .opener) (state : State) (line : Nat) :
    state.meet line directive = state.openChain line directive.kind directive.condition := by
  unfold State.meet
  split
  · rfl
  · rfl
  · rfl
  all_goals
    rename_i kind
    rw [kind] at opener
    cases opener

theorem visit_visits (state : State) (located : Located) :
    Visits state located (state.visit located).1 (state.visit located).2 := by
  cases commented : located.commented with
  | true =>
    rw [State.visit, if_pos commented]
    exact .skipped commented
  | false =>
    obtain ⟨frames, siblings⟩ := state
    rw [State.visit, if_neg (by simp [commented])]
    by_cases opener : located.directive.kind.role = .opener
    · rw [meet_opener opener]
      exact .opened commented opener rfl
    cases kind : located.directive.kind with
    | ifTrue | ifDefined | ifUndefined => simp [kind, Kind.role] at opener
    | elseIf =>
      simp only [State.meet, kind]
      cases frames with
      | nil => exact .unmatched commented kind (by decide)
      | cons frame outer => exact .branched commented kind rfl
    | otherwise =>
      simp only [State.meet, kind]
      cases frames with
      | nil => exact .unmatched commented kind (by decide)
      | cons frame outer => exact .inverted commented kind rfl
    | endIf =>
      simp only [State.meet, kind]
      cases frames with
      | nil => exact .unmatched commented kind (by decide)
      | cons frame outer => exact .closed commented kind

theorem trace_lines (state : State) (directives : List Located) :
    (trace state directives).steps.map Step.line = directives.map Located.line := by
  induction directives generalizing state with
  | nil => rfl
  | cons located rest ih =>
    have line : (state.visit located).1.line = located.line := by
      unfold State.visit
      split <;> rfl
    rw [trace, List.map_cons, line, ih, List.map_cons]

theorem trace_append (state : State) (first second : List Located) :
    trace state (first ++ second) =
      { steps := (trace state first).steps ++ (trace (trace state first).state second).steps
        state := (trace (trace state first).state second).state } := by
  induction first generalizing state with
  | nil => rfl
  | cons located rest ih => simp only [List.cons_append, trace, ih]

/-- A property of the directives met, the steps made and the chains open holds of every trace when
it holds at the start and every visit keeps it. -/
theorem trace_induction {P : List Located → List Step → State → Prop} (start : P [] [] {})
    (visit : ∀ directives steps state located step next, Visits state located step next →
      P directives steps state → P (directives ++ [located]) (steps ++ [step]) next)
    (directives : List Located) : P directives (trace {} directives).steps (trace {} directives).state := by
  induction directives using List.reverseRecOn with
  | nil => exact start
  | append_singleton directives located ih =>
    rw [trace_append]
    exact visit directives _ _ located _ _ (visit_visits _ located) ih

/-! ### What a step shows -/

namespace Step

variable {step : Step}

theorem line_of_hint? {hint : Hint} (shown : step.hint? = some hint) : hint.line = step.line := by
  unfold hint? at shown
  split at shown
  all_goals
    cases shown
    try rfl

theorem of_diagnostic? {diagnostic : Diagnostic} (reported : step.diagnostic? = some diagnostic) :
    diagnostic.fault = .unmatched ∧ diagnostic.line = step.line := by
  unfold diagnostic? at reported
  split at reported
  · cases reported
    exact ⟨rfl, rfl⟩
  · cases reported

theorem hint?_of_diagnostic? {diagnostic : Diagnostic} (reported : step.diagnostic? = some diagnostic) :
    step.hint? = none := by
  cases act : step.act <;> simp [diagnostic?, hint?, act] at reported ⊢

end Step

end Conditionals.Decoration
