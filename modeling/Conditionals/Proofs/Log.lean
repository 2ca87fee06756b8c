import Conditionals.Proofs.Decoration.Conservation
import Conditionals.Proofs.Faults

/-!
# Logs tell what the scans did

A log never changes a result. When its category is chosen, the log of a scan tells the same story as the
result: `Fold.Recorded` and `Decoration.Recorded` say which events stand for which parts of it. Both are
read off the trace, one step at a time.
-/

namespace Conditionals

/-- The events of a log with one of some messages. -/
def messaged (messages : List String) (log : List Event) : List Event :=
  log.filter fun event => event.message ∈ messages

def warnings (log : List Event) : List String :=
  (log.filter fun event => event.level = .warn).map Event.message

theorem messaged_append (messages : List String) (first second : List Event) :
    messaged messages (first ++ second) = messaged messages first ++ messaged messages second :=
  List.filter_append ..

theorem messaged_flatMap {α : Type} (messages : List String) (events : α → List Event) (values : List α) :
    messaged messages (values.flatMap events) = values.flatMap fun value => messaged messages (events value) :=
  List.filter_flatMap ..

theorem warnings_append (first second : List Event) :
    warnings (first ++ second) = warnings first ++ warnings second := by
  simp only [warnings, List.filter_append, List.map_append]

theorem warnings_flatMap {α : Type} (events : α → List Event) (values : List α) :
    warnings (values.flatMap events) = values.flatMap fun value => warnings (events value) := by
  simp only [warnings, List.filter_flatMap, List.map_flatMap]

theorem Diagnostic.message_ne {word : String} (other : word.toList.head? ≠ some 'l') (diagnostic : Diagnostic) :
    diagnostic.message ≠ word := by
  rintro rfl
  refine other ?_
  obtain ⟨fault, line, kind⟩ := diagnostic
  -- A diagnostic starts with its line, and no fixed message starts like that.
  have start : (toString "line ").toList = ['l', 'i', 'n', 'e', ' '] := rfl
  cases fault <;> simp [message, start]

theorem messaged_warned {messages : List String} (fixed : ∀ word ∈ messages, word.toList.head? ≠ some 'l')
    (first : List Event) (category : Category) (diagnostic : Diagnostic) (rest : List Event) :
    messaged messages (first ++ .warned category diagnostic :: rest) = messaged messages (first ++ rest) := by
  have other : ¬(Event.warned category diagnostic).message ∈ messages := by
    intro listed
    exact diagnostic.message_ne (fixed _ listed) rfl
  rw [messaged_append, messaged_append]
  exact congrArg _ (List.filter_cons_of_neg (by simpa using other))

theorem logged_of_category {events : List Event} {category : Category}
    (own : ∀ event ∈ events, event.category? = some category) (chosen : Categories) :
    logged chosen events = if chosen.has category then events else [] := by
  have same : ∀ event ∈ events, event.isLogged chosen = chosen.has category := by
    intro event member
    rw [Event.isLogged, own event member, Option.all_some]
  cases has : chosen.has category with
  | true => exact List.filter_eq_self.mpr fun event member => (same event member).trans has
  | false => exact List.filter_eq_nil_iff.mpr fun event member => by simp [same event member, has]

/-! ### The folding scan -/

namespace Fold

/-- What the log of a folding scan tells of the lines and of the result. -/
structure Recorded (lines : List Text) (folding : Folding) (log : List Event) : Prop where
  ranges : messaged ["range"] log = folding.ranges.map Event.range
  warnings : warnings log = folding.diagnostics.map Diagnostic.message
  /-- After each directive that is not unmatched stands the number of blocks then open. -/
  nesting : messaged ["directive", "stack"] log =
    ((directives lines).zip (Chain.depths Site.role (sites lines))).flatMap fun ((line, directive), depth) =>
      .directive line directive.keyword ::
        if { fault := .unmatched, line, kind := directive.kind } ∈ folding.diagnostics then [] else [.depth depth]
  last : log.getLast? = some (.folded folding.ranges.length)

namespace Step

theorem messaged_range (step : Step) : messaged ["range"] step.events = step.range?.toList.map Event.range := by
  unfold events range?
  cases step.effect with
  | opened | completed => rfl
  | unmatched => exact messaged_warned (by decide) [.directive _ _] _ _ []

theorem warnings_events (step : Step) : warnings step.events = step.diagnostic?.toList.map Diagnostic.message := by
  unfold events diagnostic?
  cases step.effect <;> rfl

theorem messaged_nesting (step : Step) : messaged ["directive", "stack"] step.events =
    .directive step.line step.directive.keyword :: if step.effect = .unmatched then [] else [.depth step.depth] := by
  unfold events
  cases step.effect with
  | opened | completed => rfl
  | unmatched => exact messaged_warned (by decide) [.directive _ _] _ _ []

theorem category_events (step : Step) : ∀ event ∈ step.events, event.category? = some .folding := by
  unfold events
  cases step.effect <;> simp [Event.category?]

end Step

theorem category_steps (steps : List Step) : ∀ event ∈ steps.flatMap Step.events, event.category? = some .folding := by
  intro event member
  obtain ⟨step, _, listed⟩ := List.mem_flatMap.mp member
  exact step.category_events event listed

theorem category_trace (trace : Trace) : ∀ event ∈ trace.events, event.category? = some .folding := by
  intro event member
  rw [Trace.events, List.mem_append, List.mem_append, List.mem_singleton] at member
  rcases member with (stepped | drained) | rfl
  · exact category_steps _ event stepped
  · obtain ⟨block, _, listed⟩ := List.mem_flatMap.mp drained
    simp only [Block.events, List.mem_cons, List.not_mem_nil, or_false] at listed
    rcases listed with rfl | rfl <;> rfl
  · rfl

theorem steps_depth (lines : List Text) :
    (trace {} lines).steps.map Step.depth = Chain.depths Site.role (sites lines) := by
  induction lines using List.reverseRecOn with
  | nil => rfl
  | append_singleton lines text ih =>
    -- There is one block for each chain that has not ended.
    have stack := congrArg List.length (trace_faults (lines ++ [text])).2
    rw [trace_concat] at stack ⊢
    generalize trace {} lines = before at ih stack ⊢
    obtain ⟨steps, ⟨line, blocks⟩⟩ := before
    cases found : classify text with
    | none =>
      rw [read_code found, sites_concat_code found]
      simpa using ih
    | some directive =>
      rw [read_directive found, sites_concat_directive found] at stack ⊢
      rw [List.length_map, List.length_map] at stack
      rw [Chain.depths_concat, ← stack, ← ih]
      simp

theorem events_ranges (trace : Trace) : messaged ["range"] trace.events = trace.folding.ranges.map Event.range := by
  have drained (block : Block) (last : Nat) : messaged ["range"] (block.events last) = [.range (block.range last)] :=
    messaged_warned (by decide) [] _ _ _
  rw [Trace.events, messaged_append, messaged_append, messaged_flatMap, messaged_flatMap]
  simp only [Step.messaged_range, drained]
  rw [← List.map_flatMap, ← List.filterMap_eq_flatMap_toList, ← List.map_eq_flatMap, Trace.folding, List.map_append,
    List.map_map]
  exact List.append_nil _

theorem events_warnings (trace : Trace) : warnings trace.events = trace.folding.diagnostics.map Diagnostic.message := by
  have drained (block : Block) (last : Nat) : warnings (block.events last) = [block.diagnostic.message] := rfl
  rw [Trace.events, warnings_append, warnings_append, warnings_flatMap, warnings_flatMap]
  simp only [Step.warnings_events, drained]
  rw [← List.map_flatMap, ← List.filterMap_eq_flatMap_toList, ← List.map_eq_flatMap, Trace.folding, List.map_append,
    List.map_map]
  exact List.append_nil _

theorem events_nesting (trace : Trace) : messaged ["directive", "stack"] trace.events =
    trace.steps.flatMap fun step => .directive step.line step.directive.keyword ::
      if step.effect = .unmatched then [] else [.depth step.depth] := by
  have drained : messaged ["directive", "stack"] (trace.state.blocks.flatMap (Block.events trace.lastLine)) = [] := by
    rw [messaged_flatMap, List.flatMap_eq_nil_iff]
    intro block _
    exact messaged_warned (by decide) [] _ _ _
  rw [Trace.events, messaged_append, messaged_append, drained, messaged_flatMap, List.append_nil]
  simp only [Step.messaged_nesting]
  exact List.append_nil _

theorem effect_unmatched_iff {lines : List Text} {step : Step} (member : step ∈ (trace {} lines).steps) :
    step.effect = .unmatched ↔
      { fault := .unmatched, line := step.line, kind := step.directive.kind } ∈ (folding lines).diagnostics := by
  rw [mem_diagnostics_unmatched]
  constructor
  · intro unmatched
    exact ⟨step, member, unmatched, rfl, rfl⟩
  · rintro ⟨other, listed, unmatched, same, _⟩
    rwa [← step_unique listed member same]

theorem trace_recorded (lines : List Text) : Recorded lines (folding lines) (trace {} lines).events := by
  constructor
  case ranges => exact events_ranges _
  case warnings => exact events_warnings _
  case nesting =>
    rw [events_nesting, ← steps_directives, ← steps_depth, List.zip_map', List.flatMap_map]
    refine List.flatMap_congr fun step member => ?_
    exact congrArg _ (if_congr (effect_unmatched_iff member) rfl rfl)
  case last => exact List.getLast?_concat ..

theorem log_unchosen {chosen : Categories} (unchosen : chosen.folding = false) (token : Token) (lines : List Text) :
    (scan chosen token lines).log =
      match (scan chosen token lines).result with
      | .ok _ => []
      | .error cancelled => [.cancelled cancelled.line] := by
  have silent {events : List Event} (own : ∀ event ∈ events, event.category? = some .folding) :
      logged chosen events = [] := by
    rw [logged_of_category own, Categories.has, unchosen]
    rfl
  simp only [scan, Run.result, Run.events]
  split
  · rw [logged, List.filter_append, ← logged, silent (category_steps _)]
    rfl
  · exact silent (category_trace _)

theorem log_chosen {chosen : Categories} (choice : chosen.folding = true) {token : Token} {lines : List Text}
    {result : Folding} (completed : (scan chosen token lines).result = .ok result) :
    Recorded lines result (scan chosen token lines).log := by
  simp only [scan, Run.result, Run.events] at completed ⊢
  split at completed
  · cases completed
  · rename_i finished
    obtain rfl := Except.ok.inj completed
    have whole := run_completed (by simpa using finished)
    rw [if_neg finished, logged_of_category (category_trace _), Categories.has, choice, if_pos rfl, whole]
    exact trace_recorded lines

end Fold

/-! ### The decoration scan -/

/-- The line and the label of an event about a chain. -/
def Event.place? : Event → Option (Nat × Text)
  | .opened line _ label _ | .branched line label _ | .inverted line label _ | .closed line label _ =>
    some (line, label)
  | _ => none

namespace Decoration

/-- What the log of a decoration scan tells of the text and of the result. -/
structure Recorded (text : Text) (decorations : Decorations) (log : List Event) : Prop where
  /-- Events about chains stand for the hints, one for each, and a band is what the events in it stand for. -/
  shown : ∃ shown : List (Event × Hint),
    shown.map Prod.fst = messaged ["open", "branch", "else", "endif"] log ∧
    (∀ entry ∈ shown, entry.1.place? = some (entry.2.line, entry.2.label)) ∧
    decorations.bands.flatten.Perm (shown.map Prod.snd) ∧
    ∀ number hints, decorations.bands[number]? = some hints →
      hints = (shown.filter fun entry => entry.2.band = number).map Prod.snd
  warnings : warnings log = decorations.diagnostics.map Diagnostic.message
  skipped : (log.filter fun event => event.level = .trace) =
    ((locate text).filter Located.commented).map fun located => .skipped located.line
  last : log.getLast? = some (.decorated decorations.path)

namespace Step

def shown? (step : Step) : Option (Event × Hint) :=
  step.hint?.map (step.event, ·)

theorem place_of_shown? {step : Step} {entry : Event × Hint} (shown : step.shown? = some entry) :
    entry.1.place? = some (entry.2.line, entry.2.label) := by
  obtain ⟨hint, hinted, rfl⟩ := Option.map_eq_some_iff.mp shown
  obtain ⟨line, act, frames⟩ := step
  cases act with
  | opened | branched | inverted | closed =>
    cases hinted
    rfl
  | skipped | unmatched => cases hinted

theorem messaged_event (step : Step) :
    messaged ["open", "branch", "else", "endif"] [step.event] = step.shown?.toList.map Prod.fst := by
  unfold shown? hint? event
  cases step.act with
  | unmatched => exact messaged_warned (by decide) [] _ _ []
  | _ => rfl

theorem warnings_event (step : Step) : warnings [step.event] = step.diagnostic?.toList.map Diagnostic.message := by
  unfold event diagnostic?
  cases step.act <;> rfl

theorem category_event (step : Step) : step.event.category? = some .decorations := by
  unfold event
  cases step.act <;> rfl

end Step

theorem category_trace (trace : Trace) (reference : Nat) :
    ∀ event ∈ trace.events reference, event.category? = some .decorations := by
  intro event member
  rw [Trace.events, List.mem_append, List.mem_append, List.mem_singleton, List.mem_map, List.mem_map] at member
  rcases member with (⟨step, _, rfl⟩ | ⟨frame, _, rfl⟩) | rfl
  · exact step.category_event
  · rfl
  · rfl

theorem events_shown (trace : Trace) (reference : Nat) :
    messaged ["open", "branch", "else", "endif"] (trace.events reference) =
      (trace.steps.filterMap Step.shown?).map Prod.fst := by
  have drained : messaged ["open", "branch", "else", "endif"]
      (trace.state.frames.map fun frame => .warned .decorations frame.diagnostic) = [] := by
    rw [List.map_eq_flatMap, messaged_flatMap, List.flatMap_eq_nil_iff]
    intro frame _
    exact messaged_warned (by decide) [] _ _ []
  rw [Trace.events, messaged_append, messaged_append, drained, List.append_nil, List.map_eq_flatMap, messaged_flatMap]
  simp only [Step.messaged_event]
  rw [← List.map_flatMap, ← List.filterMap_eq_flatMap_toList]
  exact List.append_nil _

theorem shown_hints (steps : List Step) : (steps.filterMap Step.shown?).map Prod.snd = steps.filterMap Step.hint? := by
  rw [List.map_filterMap]
  refine List.filterMap_congr fun step _ => ?_
  rw [Step.shown?, Option.map_map]
  exact Option.map_id' ..

theorem events_warnings (trace : Trace) (reference : Nat) :
    warnings (trace.events reference) = (trace.decorations reference).diagnostics.map Diagnostic.message := by
  have drained (frame : Frame) : warnings [.warned .decorations frame.diagnostic] = [frame.diagnostic.message] := rfl
  rw [Trace.events, warnings_append, warnings_append, List.map_eq_flatMap, List.map_eq_flatMap, warnings_flatMap,
    warnings_flatMap]
  simp only [Step.warnings_event, drained]
  rw [← List.map_flatMap, ← List.filterMap_eq_flatMap_toList, ← List.map_eq_flatMap, Trace.decorations, List.map_append,
    List.map_map]
  exact List.append_nil _

theorem steps_skipped (directives : List Located) :
    ((trace {} directives).steps.map Step.event).filter (fun event => event.level = .trace) =
      (directives.filter Located.commented).map fun located => .skipped located.line := by
  refine trace_induction (P := fun directives steps _ =>
    (steps.map Step.event).filter (fun event => event.level = .trace) =
      (directives.filter Located.commented).map fun located => .skipped located.line) rfl ?_ directives
  intro directives steps state located step next visits kept
  rw [List.map_append, List.filter_append, List.filter_append, List.map_append, kept]
  congr 1
  cases visits <;> simp_all [Step.event, Event.level]

theorem events_skipped (text : Text) (reference : Nat) :
    ((traceOf text).events reference).filter (fun event => event.level = .trace) =
      ((locate text).filter Located.commented).map fun located => .skipped located.line := by
  have drained : ((traceOf text).state.frames.map fun frame => Event.warned .decorations frame.diagnostic).filter
      (fun event => event.level = .trace) = [] :=
    List.filter_eq_nil_iff.mpr (by simp [Event.level])
  rw [Trace.events, List.filter_append, List.filter_append, drained, List.append_nil, traceOf, steps_skipped]
  exact List.append_nil _

theorem traceOf_recorded (text : Text) (reference : Nat) :
    Recorded text (decorate text reference) ((traceOf text).events reference) := by
  constructor
  case shown =>
    refine ⟨(traceOf text).steps.filterMap Step.shown?, (events_shown _ reference).symm, ?_, ?_, ?_⟩
    · intro entry member
      obtain ⟨step, _, shown⟩ := List.mem_filterMap.mp member
      exact Step.place_of_shown? shown
    · rw [shown_hints]
      exact bands_perm (traceOf text) reference
    · intro number hints listed
      rw [bands_stored listed, Decorations.band, decorate, Trace.decorations, ← shown_hints, List.filter_map]
      rfl
  case warnings => exact events_warnings _ reference
  case skipped => exact events_skipped text reference
  case last => exact List.getLast?_concat ..

theorem log_eq (chosen : Categories) (text : Text) (reference : Nat) :
    (scan chosen text reference).log = if chosen.decorations then (traceOf text).events reference else [] :=
  logged_of_category (category_trace _ reference) chosen

end Decoration

/-- Neither scan depends on what is logged. A folding scan that is not cancelled and a decoration scan each
leave a log that records their result when their category is chosen. When it is not, the log is empty but for
the event of a cancelled folding scan. -/
theorem logs_faithful (chosen : Categories) (token : Fold.Token) (lines : List Text) (text : Text) (reference : Nat) :
    (∀ other, (Fold.scan other token lines).result = (Fold.scan chosen token lines).result ∧
      (Decoration.scan other text reference).value = (Decoration.scan chosen text reference).value) ∧
    (chosen.folding = true → ∀ folding, (Fold.scan chosen token lines).result = .ok folding →
      Fold.Recorded lines folding (Fold.scan chosen token lines).log) ∧
    (chosen.folding = false → (Fold.scan chosen token lines).log =
      match (Fold.scan chosen token lines).result with
      | .ok _ => []
      | .error cancelled => [.cancelled cancelled.line]) ∧
    (chosen.decorations = true → Decoration.Recorded text (Decoration.scan chosen text reference).value
      (Decoration.scan chosen text reference).log) ∧
    (chosen.decorations = false → (Decoration.scan chosen text reference).log = []) := by
  refine ⟨fun other => ⟨rfl, rfl⟩, ?_, ?_, ?_, ?_⟩
  · intro choice folding completed
    exact Fold.log_chosen choice completed
  · intro unchosen
    exact Fold.log_unchosen unchosen token lines
  · intro choice
    rw [Decoration.log_eq, if_pos choice]
    exact Decoration.traceOf_recorded text reference
  · intro unchosen
    rw [Decoration.log_eq, if_neg (by simp [unchosen])]

/-- A stray closer and a block that nothing closes are recorded; with nothing chosen only the cancelled scan
leaves an event. -/
theorem logs_faithful_malformed :
    Fold.Recorded ["#endif".toList, "#if A".toList, "#else".toList]
      { ranges := [{ first := 1, last := 1 }, { first := 2, last := 2 }]
        diagnostics := [{ fault := .unmatched, line := 0, kind := .endIf },
          { fault := .unterminated, line := 2, kind := .otherwise }] }
      (Fold.scan .all .never ["#endif".toList, "#if A".toList, "#else".toList]).log ∧
    (Fold.scan .quiet (.stopAfter 1) ["#endif".toList, "#if A".toList, "#else".toList]).log = [.cancelled 1] ∧
    Decoration.Recorded "#endif\n// #if A\n#if B".toList
      (Decoration.scan .all "#endif\n// #if A\n#if B".toList 2).value
      (Decoration.scan .all "#endif\n// #if A\n#if B".toList 2).log ∧
    (Decoration.scan .quiet "#endif\n// #if A\n#if B".toList 2).log = [] := by
  have completed : (Fold.scan .all .never ["#endif".toList, "#if A".toList, "#else".toList]).result =
      .ok { ranges := [{ first := 1, last := 1 }, { first := 2, last := 2 }]
            diagnostics := [{ fault := .unmatched, line := 0, kind := .endIf },
              { fault := .unterminated, line := 2, kind := .otherwise }] } := by
    rw [Fold.scan_never]
    decide +kernel
  obtain ⟨_, folded, _, decorated, _⟩ :=
    logs_faithful .all .never ["#endif".toList, "#if A".toList, "#else".toList] "#endif\n// #if A\n#if B".toList 2
  obtain ⟨_, _, cancelled, _, silent⟩ :=
    logs_faithful .quiet (.stopAfter 1) ["#endif".toList, "#if A".toList, "#else".toList]
      "#endif\n// #if A\n#if B".toList 2
  exact ⟨folded rfl _ completed, cancelled rfl, decorated rfl, silent rfl⟩

end Conditionals
