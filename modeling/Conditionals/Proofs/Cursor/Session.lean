import Conditionals.Cursor.Decorator
import Mathlib.Data.List.Basic

/-!
# Sessions of a decorator

`Handles` says all that one signal does: when it scans, what the decorator remembers, and which calls
it makes. `session_handles` carries it through a session. On a screen the calls of a signal overwrite
all bands, and the status only after a scan, so `screen_after` reads the screen off the last signal
and the last scan.
-/

namespace Conditionals

open Decoration (Hint Decorations bandCount decorate)

namespace Occasion

/-- What a scan for the occasion gives. -/
def decorations (occasion : Occasion) : Decorations :=
  decorate occasion.text occasion.cursor.line

/-- The hints shown in a band for the occasion. Without a scan there are none. -/
def shown (occasion : Occasion) (scanned : Bool) (band : Nat) : List Hint :=
  if scanned then occasion.decorations.band band else []

end Occasion

/-! ### One signal -/

/-- A decorator that was last on the line `before` handles an occasion. -/
structure Handles (before : Option Nat) (occasion : Occasion) (response : Response) : Prop where
  scanned : response.scanned = true ↔ before ≠ some occasion.cursor.line
  previous : response.decorator.tracker.previous = some occasion.cursor.line
  calls : response.calls =
    (List.range bandCount).map (fun band => .band band (occasion.shown response.scanned band)) ++
      if response.scanned then [.status occasion.decorations.status] else []

theorem handle_handles (decorator : Decorator) (occasion : Occasion) :
    Handles decorator.tracker.previous occasion
      (decorator.handle occasion.signal occasion.text occasion.cursor).value := by
  unfold Decorator.handle Tracker.refresh
  by_cases stayed : decorator.tracker.previous = some occasion.cursor.line
  · rw [if_pos stayed]
    exact ⟨by simp [Refresh.isScanned, stayed], stayed, (List.append_nil _).symm⟩
  · rw [if_neg stayed]
    exact ⟨by simp [Refresh.isScanned, stayed], rfl, rfl⟩

/-! ### Sessions -/

/-- The line a session was on before the occasion with the given number. -/
def lineBefore (start : Option Nat) (occasions : List Occasion) : Nat → Option Nat
  | 0 => start
  | number + 1 => occasions[number]?.map fun occasion => occasion.cursor.line

theorem length_session (decorator : Decorator) (occasions : List Occasion) :
    (decorator.session occasions).value.length = occasions.length := by
  induction occasions generalizing decorator with
  | nil => rfl
  | cons occasion rest ih => rw [Decorator.session, List.length_cons, ih, List.length_cons]

theorem session_handles (decorator : Decorator) (occasions : List Occasion) {number : Nat} {occasion : Occasion}
    {response : Response} (asked : occasions[number]? = some occasion)
    (answered : (decorator.session occasions).value[number]? = some response) :
    Handles (lineBefore decorator.tracker.previous occasions number) occasion response := by
  induction occasions generalizing decorator number with
  | nil => cases asked
  | cons first rest ih =>
    have handled := handle_handles decorator first
    rw [Decorator.session] at answered
    cases number with
    | zero =>
      cases asked
      cases answered
      exact handled
    | succ number =>
      have later := ih _ asked answered
      rw [handled.previous] at later
      cases number <;> exact later

theorem lineBefore_succ {occasions : List Occasion} {number : Nat} {occasion : Occasion}
    (asked : occasions[number + 1]? = some occasion) (start : Option Nat) :
    ∃ earlier, occasions[number]? = some earlier ∧
      lineBefore start occasions (number + 1) = some earlier.cursor.line := by
  have inside := (List.getElem?_eq_some_iff.mp asked).1
  have read := List.getElem?_eq_getElem (Nat.lt_of_succ_lt inside)
  exact ⟨_, read, by rw [lineBefore, read, Option.map_some]⟩

/-- Signals and columns change nothing but the log. -/
theorem handle_congr (decorator : Decorator) {first second : Occasion} (text : first.text = second.text)
    (line : first.cursor.line = second.cursor.line) :
    (decorator.handle first.signal first.text first.cursor).value =
      (decorator.handle second.signal second.text second.cursor).value := by
  have refreshed : (decorator.tracker.refresh first.text first.cursor).value =
      (decorator.tracker.refresh second.text second.cursor).value := by
    unfold Tracker.refresh
    rw [text, line]
    split <;> rfl
  simp only [Decorator.handle, refreshed]

theorem session_congr (decorator : Decorator) {occasions others : List Occasion}
    (same : others.map (fun occasion => (occasion.text, occasion.cursor.line)) =
      occasions.map fun occasion => (occasion.text, occasion.cursor.line)) :
    (decorator.session others).value = (decorator.session occasions).value := by
  induction occasions generalizing decorator others with
  | nil =>
    obtain rfl := List.map_eq_nil_iff.mp same
    rfl
  | cons occasion rest ih =>
    obtain ⟨other, remaining, rfl, equal, later⟩ := List.map_eq_cons_iff.mp same
    obtain ⟨text, line⟩ := Prod.mk.inj equal
    simp only [Decorator.session, handle_congr decorator text line, ih _ later]

/-! ### The screen -/

namespace Screen

theorem applyAll_append (screen : Screen) (first second : List HostCall) :
    screen.applyAll (first ++ second) = (screen.applyAll first).applyAll second :=
  List.foldl_append

theorem applyAll_bands (screen : Screen) (shown : Nat → List Hint) {count : Nat} (sized : count ≤ screen.bands.length) :
    screen.applyAll ((List.range count).map fun band => .band band (shown band)) =
      { screen with bands := (List.range count).map shown ++ screen.bands.drop count } := by
  induction count with
  | zero => rfl
  | succ count ih =>
    have inside : count < screen.bands.length := sized
    have next : (screen.bands.drop count).set 0 (shown count) = shown count :: screen.bands.drop (count + 1) := by
      rw [List.drop_eq_getElem_cons inside, List.set_cons_zero]
    rw [List.range_succ, List.map_append, applyAll_append, ih (Nat.le_of_lt inside), List.map_append]
    simp [applyAll, apply, next]

end Screen

/-- The calls of a signal overwrite every band, and the status if it scanned. -/
theorem Handles.applyAll {before : Option Nat} {occasion : Occasion} {response : Response}
    (handled : Handles before occasion response) {screen : Screen} (sized : screen.bands.length = bandCount) :
    screen.applyAll response.calls =
      { bands := (List.range bandCount).map (occasion.shown response.scanned)
        status := if response.scanned then occasion.decorations.status else screen.status } := by
  have drawn := screen.applyAll_bands (occasion.shown response.scanned) (Nat.le_of_eq sized.symm)
  rw [← sized, List.drop_length, List.append_nil, sized] at drawn
  rw [handled.calls, Screen.applyAll_append, drawn]
  split <;> rfl

/-- The occasion that was scanned for last. -/
def lastScan? (occasions : List Occasion) (responses : List Response) : Option Occasion :=
  ((occasions.zip responses).filter fun met => met.2.scanned).getLast?.map Prod.fst

/-- The hints in a band for the last occasion. Before the first one there are none. -/
def lastShown (occasions : List Occasion) (responses : List Response) (band : Nat) : List Hint :=
  (occasions.zip responses).getLast?.elim [] fun met => met.1.shown met.2.scanned band

theorem lastScan?_cons (occasion : Occasion) (occasions : List Occasion) (response : Response)
    (responses : List Response) :
    lastScan? (occasion :: occasions) (response :: responses) =
      (lastScan? occasions responses).or (if response.scanned then some occasion else none) := by
  unfold lastScan?
  rw [List.zip_cons_cons]
  cases scanned : response.scanned with
  | false => simp [scanned]
  | true =>
    rw [List.filter_cons_of_pos (by exact scanned), List.getLast?_cons]
    cases ((occasions.zip responses).filter fun met => met.2.scanned).getLast? <;> rfl

/-- After a session the screen shows the bands of the last occasion and the status of the last scan. -/
theorem screen_after (decorator : Decorator) (occasions : List Occasion) {screen : Screen}
    (sized : screen.bands.length = bandCount) :
    screen.applyAll ((decorator.session occasions).value.flatMap Response.calls) =
      { bands := (occasions.zip (decorator.session occasions).value).getLast?.elim screen.bands fun met =>
          (List.range bandCount).map (met.1.shown met.2.scanned)
        status := (lastScan? occasions (decorator.session occasions).value).elim screen.status fun occasion =>
          occasion.decorations.status } := by
  induction occasions generalizing decorator screen with
  | nil => rfl
  | cons occasion rest ih =>
    have handled := handle_handles decorator occasion
    simp only [Decorator.session]
    generalize (decorator.handle occasion.signal occasion.text occasion.cursor).value = response at handled ⊢
    have redrawn : (screen.applyAll response.calls).bands.length = bandCount := by
      rw [handled.applyAll sized, List.length_map, List.length_range]
    rw [List.flatMap_cons, Screen.applyAll_append, ih response.decorator redrawn, handled.applyAll sized,
      lastScan?_cons, List.zip_cons_cons, List.getLast?_cons]
    congr 1
    · cases (rest.zip (response.decorator.session rest).value).getLast? <;> rfl
    · cases lastScan? rest (response.decorator.session rest).value with
      | some later => rfl
      | none => cases response.scanned <;> rfl

/-! ### The whole life of a decorator -/

/-- What a new decorator answers to the occasions of a session. -/
def Decorator.responses (chosen : Categories) (occasions : List Occasion) : List Response :=
  ((new chosen).session occasions).value

/-- The calls of a new decorator up to the end of a session. -/
def Decorator.drawing (chosen : Categories) (occasions : List Occasion) : List HostCall :=
  created ++ (responses chosen occasions).flatMap Response.calls

theorem Handles.release_not_mem {before : Option Nat} {occasion : Occasion} {response : Response}
    (handled : Handles before occasion response) : .release ∉ response.calls := by
  rw [handled.calls]
  cases response.scanned <;> simp

theorem release_not_mem (decorator : Decorator) (occasions : List Occasion) :
    .release ∉ (decorator.session occasions).value.flatMap Response.calls := by
  induction occasions generalizing decorator with
  | nil => exact List.not_mem_nil
  | cons occasion rest ih =>
    rw [Decorator.session, List.flatMap_cons, List.mem_append, not_or]
    exact ⟨(handle_handles decorator occasion).release_not_mem, ih _⟩

/-- A signal leads to a scan when it is the first or comes from another line than the one before it. It draws
every band, and the status after a scan, so a screen shows the bands of the last signal and the status of
the last scan. Nothing else about the signals matters, and the surface is released once, at the end. -/
theorem session_shown (chosen : Categories) (occasions : List Occasion) :
    (Decorator.responses chosen occasions).length = occasions.length ∧
    (∀ number occasion response, occasions[number]? = some occasion →
      (Decorator.responses chosen occasions)[number]? = some response →
      (response.scanned = true ↔ number = 0 ∨
        ∃ earlier, occasions[number - 1]? = some earlier ∧ earlier.cursor.line ≠ occasion.cursor.line) ∧
      response.decorator.tracker.previous = some occasion.cursor.line ∧
      response.calls =
        (List.range bandCount).map (fun band => .band band (occasion.shown response.scanned band)) ++
          if response.scanned then [.status occasion.decorations.status] else []) ∧
    ({} : Screen).applyAll (Decorator.drawing chosen occasions) =
      { bands := (List.range bandCount).map (lastShown occasions (Decorator.responses chosen occasions))
        status := (lastScan? occasions (Decorator.responses chosen occasions)).elim ({} : ActivePath).status
          fun occasion => occasion.decorations.status } ∧
    (∀ others : List Occasion,
      others.map (fun occasion => (occasion.text, occasion.cursor.line)) =
        occasions.map (fun occasion => (occasion.text, occasion.cursor.line)) →
      Decorator.responses chosen others = Decorator.responses chosen occasions) ∧
    (Decorator.drawing chosen occasions ++ Decorator.dropped).getLast? = some .release ∧
    (Decorator.drawing chosen occasions ++ Decorator.dropped).count .release = 1 := by
  refine ⟨length_session _ occasions, ?_, ?_, fun others same => session_congr _ same, ?_, ?_⟩
  · intro number occasion response asked given
    have handled := session_handles _ occasions asked given
    refine ⟨?_, handled.previous, handled.calls⟩
    rw [handled.scanned]
    cases number with
    | zero => simp [lineBefore, Decorator.new]
    | succ number =>
      obtain ⟨earlier, read, line⟩ := lineBefore_succ asked (Decorator.new chosen).tracker.previous
      simp [line, read]
  · rw [Decorator.drawing, Screen.applyAll_append, Decorator.responses, screen_after _ occasions rfl]
    congr 1
    unfold lastShown
    cases (occasions.zip ((Decorator.new chosen).session occasions).value).getLast? <;> rfl
  · exact List.getLast?_concat
  · have absent : .release ∉ Decorator.drawing chosen occasions := by
      rw [Decorator.drawing, List.mem_append, not_or]
      exact ⟨by simp [Decorator.created], release_not_mem _ occasions⟩
    rw [List.count_append, List.count_eq_zero_of_not_mem absent]
    rfl

/-- An edit on the same line clears the bands and leaves the status of the text before the edit. -/
theorem session_shown_edited :
    (∃ response, (Decorator.responses .all
        [⟨.bufferOpened, "#if A\nx".toList, ⟨1, 0⟩⟩, ⟨.bufferChanged, "#if B\nx".toList, ⟨1, 4⟩⟩])[1]? = some response ∧
      response.scanned = false ∧ response.decorator.tracker.previous = some 1) ∧
    ({} : Screen).applyAll (Decorator.drawing .all
        [⟨.bufferOpened, "#if A\nx".toList, ⟨1, 0⟩⟩, ⟨.bufferChanged, "#if B\nx".toList, ⟨1, 4⟩⟩]) =
      { bands := List.replicate bandCount [], status := (decorate "#if A\nx".toList 1).status } ∧
    Decorator.responses .all
        [⟨.selectionMoved, "#if A\nx".toList, ⟨1, 7⟩⟩, ⟨.selectionMoved, "#if B\nx".toList, ⟨1, 0⟩⟩] =
      Decorator.responses .all
        [⟨.bufferOpened, "#if A\nx".toList, ⟨1, 0⟩⟩, ⟨.bufferChanged, "#if B\nx".toList, ⟨1, 4⟩⟩] := by
  obtain ⟨_, each, screen, signals, _⟩ := session_shown .all
    [⟨.bufferOpened, "#if A\nx".toList, ⟨1, 0⟩⟩, ⟨.bufferChanged, "#if B\nx".toList, ⟨1, 4⟩⟩]
  obtain ⟨scanned, previous, _⟩ := each 1 _ _ rfl rfl
  refine ⟨⟨_, rfl, ?_, previous⟩, screen.trans rfl, signals _ rfl⟩
  rw [Bool.eq_false_iff, ne_eq, scanned]
  simp

end Conditionals
