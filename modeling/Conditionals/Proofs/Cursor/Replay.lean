import Conditionals.Cursor.Replay
import Conditionals.Proofs.Cursor.Session

/-!
# Replays tell the truth

A replay reads each step back from a screen that is only partly redrawn. While the text stays the same
this makes no difference to the status: the screen is `Current`, it shows the status of the line the
caret was on last. `run_eq` gives every step from its caret position and the line before it.
-/

namespace Conditionals.Replay

open Decoration (bandCount decorate)

/-- What is true of a caret position that comes after the line `before`. -/
def tell (text : Text) (before : Option Nat) (cursor : Cursor) : Step :=
  { cursor
    scanned := before ≠ some cursor.line
    status := (decorate text cursor.line).status
    hints := if before = some cursor.line then 0 else (decorate text cursor.line).hints.length }

/-- A screen with all bands that shows the status of the line the caret was on, if there is one. -/
structure Current (text : Text) (before : Option Nat) (screen : Screen) : Prop where
  sized : screen.bands.length = bandCount
  status : ∀ line, before = some line → screen.status = (decorate text line).status

section Step

variable {text : Text} {before : Option Nat} {screen : Screen} {occasion : Occasion} {response : Response}

theorem status_handled (current : Current text before screen) (handled : Handles before occasion response)
    (same : occasion.text = text) :
    (screen.applyAll response.calls).status = (decorate text occasion.cursor.line).status := by
  rw [handled.applyAll current.sized]
  cases scanned : response.scanned with
  | true =>
    rw [← same]
    rfl
  | false =>
    -- The status was not redrawn, and it is that of the same line.
    have stayed : before = some occasion.cursor.line := by
      by_contra moved
      rw [handled.scanned.mpr moved] at scanned
      cases scanned
    exact current.status _ stayed

theorem shown_handled (sized : screen.bands.length = bandCount) (handled : Handles before occasion response) :
    (screen.applyAll response.calls).shown = if response.scanned then occasion.decorations.hints.length else 0 := by
  rw [Screen.shown, handled.applyAll sized]
  cases response.scanned with
  | true => exact (List.length_mergeSort _).symm
  | false => rfl

theorem Current.handled (current : Current text before screen) (handled : Handles before occasion response)
    (same : occasion.text = text) :
    Current text (some occasion.cursor.line) (screen.applyAll response.calls) := by
  constructor
  · rw [handled.applyAll current.sized, List.length_map, List.length_range]
  · intro line moved
    obtain rfl := Option.some.inj moved
    exact status_handled current handled same

theorem step_eq_tell (current : Current text before screen) (handled : Handles before occasion response)
    (same : occasion.text = text) :
    { cursor := occasion.cursor, scanned := response.scanned
      status := (screen.applyAll response.calls).status
      hints := (screen.applyAll response.calls).shown } = tell text before occasion.cursor := by
  have scanned : response.scanned = decide (before ≠ some occasion.cursor.line) := by
    rw [Bool.eq_iff_iff, handled.scanned, decide_eq_true_eq]
  rw [status_handled current handled same, shown_handled current.sized handled, scanned, tell, ← same]
  by_cases stayed : before = some occasion.cursor.line
  · simp [stayed]
  · simp [stayed, Occasion.decorations]

end Step

/-! ### Whole replays -/

theorem watch_session (text : Text) (decorator : Decorator) (occasions : List Occasion) (screen : Screen)
    (current : Current text decorator.tracker.previous screen) (same : ∀ occasion ∈ occasions, occasion.text = text) :
    watch screen ((occasions.map Occasion.cursor).zip (decorator.session occasions).value) =
      List.zipWith (tell text)
        (decorator.tracker.previous :: occasions.map fun occasion => some occasion.cursor.line)
        (occasions.map Occasion.cursor) := by
  induction occasions generalizing decorator screen with
  | nil => rfl
  | cons occasion rest ih =>
    obtain ⟨first, others⟩ := List.forall_mem_cons.mp same
    have handled := handle_handles decorator occasion
    simp only [Decorator.session, List.map_cons, List.zip_cons_cons, watch, List.zipWith_cons_cons]
    generalize (decorator.handle occasion.signal occasion.text occasion.cursor).value = response at handled ⊢
    rw [step_eq_tell current handled first]
    have next := current.handled handled first
    rw [← handled.previous] at next
    rw [ih response.decorator _ next others, handled.previous]

theorem run_eq (chosen : Categories) (text : Text) (cursors : List Cursor) :
    (run chosen text cursors).value =
      List.zipWith (tell text) (none :: cursors.map fun cursor => some cursor.line) cursors := by
  have moved : (occasions text cursors).map Occasion.cursor = cursors := by
    cases cursors with
    | nil => rfl
    | cons first others => simp [occasions, Function.comp_def]
  have same : ∀ occasion ∈ occasions text cursors, occasion.text = text := by
    cases cursors with
    | nil => simp [occasions]
    | cons first others => simp [occasions]
  have start : Current text (Decorator.new chosen).tracker.previous (({} : Screen).applyAll Decorator.created) :=
    ⟨rfl, by simp [Decorator.new]⟩
  have watched := watch_session text (Decorator.new chosen) (occasions text cursors) _ start same
  have lines := congrArg (List.map fun cursor : Cursor => some cursor.line) moved
  rw [List.map_map, Function.comp_def] at lines
  rw [moved, lines] at watched
  exact watched

/-- A replay has a step for each caret position. The step was scanned if it is the first or comes from another line
than the one before it. Its status is that of its own line, scanned or not, and it counts all hints of the text
if it was scanned and none otherwise. -/
theorem replay_truthful (chosen : Categories) (text : Text) (cursors : List Cursor) :
    (run chosen text cursors).value.length = cursors.length ∧
    ∀ number cursor step, cursors[number]? = some cursor → (run chosen text cursors).value[number]? = some step →
      step.cursor = cursor ∧
      (step.scanned = true ↔
        number = 0 ∨ ∃ earlier, cursors[number - 1]? = some earlier ∧ earlier.line ≠ cursor.line) ∧
      step.status = (decorate text cursor.line).status ∧
      ∀ reference, step.hints = if step.scanned then (decorate text reference).hints.length else 0 := by
  rw [run_eq]
  constructor
  · simp
  · intro number cursor step moved told
    obtain ⟨before, other, line, listed, rfl⟩ := List.getElem?_zipWith_eq_some.mp told
    rw [moved] at listed
    cases listed
    refine ⟨rfl, ?_, rfl, ?_⟩
    · cases number with
      | zero =>
        obtain rfl := Option.some.inj line
        simp [tell]
      | succ number =>
        rw [List.getElem?_cons_succ, List.getElem?_map, Option.map_eq_some_iff] at line
        obtain ⟨earlier, read, rfl⟩ := line
        simp [tell, read]
    · intro reference
      by_cases stayed : before = some cursor.line
      · simp [tell, stayed]
      · -- Hints do not depend on the line of reference.
        simp only [tell, stayed, if_false, ne_eq, not_false_eq_true, decide_true, if_true]
        rfl

/-- The caret comes back to a line after another one, and moves along it: the last step is suppressed and still
shows the status of its line. -/
theorem replay_truthful_suppressed :
    ∃ step, (run .all "#if A\nx\n#endif\ny".toList [⟨1, 0⟩, ⟨3, 0⟩, ⟨1, 2⟩, ⟨1, 5⟩]).value[3]? = some step ∧
      step.cursor = ⟨1, 5⟩ ∧ step.scanned = false ∧ step.hints = 0 ∧
      step.status = (decorate "#if A\nx\n#endif\ny".toList 1).status := by
  obtain ⟨count, each⟩ := replay_truthful .all "#if A\nx\n#endif\ny".toList [⟨1, 0⟩, ⟨3, 0⟩, ⟨1, 2⟩, ⟨1, 5⟩]
  have told := List.getElem?_eq_getElem (i := 3) (by rw [count]; decide)
  obtain ⟨cursor, scanned, status, hints⟩ := each 3 _ _ rfl told
  have stayed := Bool.eq_false_iff.mpr (mt scanned.mp (by simp))
  refine ⟨_, told, cursor, stayed, ?_, status⟩
  rw [hints 0, stayed]
  rfl

end Conditionals.Replay
