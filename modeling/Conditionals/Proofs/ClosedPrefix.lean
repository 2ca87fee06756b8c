import Conditionals.Proofs.Decoration.Encounter
import Conditionals.Proofs.Decoration.Locality
import Conditionals.Proofs.Fold.Trace

/-!
# Text behind a closed prefix

Both scans commute with moving their state down by some lines (`Fold.trace_shift` and
`Decoration.trace_shift`). After lines in which nothing is left open, the state is the first one moved
down by their number, so what follows is scanned as if it stood alone.
-/

namespace Conditionals

/-- Nothing is reported as left open. -/
def Closed (diagnostics : List Diagnostic) : Prop :=
  ∀ diagnostic ∈ diagnostics, diagnostic.fault ≠ .unterminated

instance (diagnostics : List Diagnostic) : Decidable (Closed diagnostics) :=
  inferInstanceAs (Decidable (∀ diagnostic ∈ diagnostics, _))

def LineRange.shift (count : Nat) (range : LineRange) : LineRange :=
  { first := count + range.first, last := count + range.last }

def Diagnostic.shift (count : Nat) (diagnostic : Diagnostic) : Diagnostic :=
  { diagnostic with line := count + diagnostic.line }

theorem filterMap_shift {α β : Type} {observe : α → Option β} {shift : α → α} {shifted : β → β}
    (commutes : ∀ value, observe (shift value) = (observe value).map shifted) (values : List α) :
    (values.map shift).filterMap observe = (values.filterMap observe).map shifted := by
  rw [List.filterMap_map, List.map_filterMap]
  exact List.filterMap_congr fun value _ => commutes value

/-! ### The folding scan -/

namespace Fold

variable (count : Nat)

def Block.shift (block : Block) : Block :=
  { block with line := count + block.line }

def Effect.shift : Effect → Effect
  | .completed range => .completed (range.shift count)
  | effect => effect

def Step.shift (step : Step) : Step :=
  { step with line := count + step.line, effect := step.effect.shift count }

def State.shift (state : State) : State :=
  { line := count + state.line, blocks := state.blocks.map (Block.shift count) }

/-- Blocks start above the line that is read next. -/
def State.Started (state : State) : Prop :=
  ∀ block ∈ state.blocks, block.line < state.line

theorem meet_shift {line : Nat} {blocks : List Block} (started : ∀ block ∈ blocks, block.line < line) (kind : Kind) :
    meet (count + line) kind (blocks.map (Block.shift count)) =
      ((meet line kind blocks).1.shift count, (meet line kind blocks).2.map (Block.shift count)) := by
  cases blocks with
  | nil => cases role : kind.role <;> simp [meet, role, Effect.shift, Block.shift]
  | cons block outer =>
    -- A branch ends the block one line above itself, and there is such a line.
    have above : count + line - 1 = count + (line - 1) := by
      have first := started block List.mem_cons_self
      omega
    cases role : kind.role <;> simp [meet, role, Effect.shift, Block.shift, LineRange.shift, above]

theorem read_shift {state : State} (started : state.Started) (text : Text) :
    (state.shift count).read text = ((state.read text).1.shift count, (state.read text).2.map (Step.shift count)) := by
  obtain ⟨line, blocks⟩ := state
  cases found : classify text with
  | none =>
    rw [read_code found, read_code found]
    rfl
  | some directive =>
    rw [State.shift, read_directive found, read_directive found, meet_shift count started]
    simp [State.shift, Step.shift, Nat.add_assoc]

theorem trace_shift {state : State} (started : state.Started) (lines : List Text) :
    trace (state.shift count) lines =
      { steps := (trace state lines).steps.map (Step.shift count), state := (trace state lines).state.shift count } := by
  induction lines generalizing state with
  | nil => rfl
  | cons text rest ih =>
    have next : (state.read text).1.Started := blocks_started state [text] started
    simp only [trace, read_shift count started, ih next, List.map_append, Option.toList_map]

theorem range?_shift (step : Step) : (step.shift count).range? = step.range?.map (LineRange.shift count) := by
  obtain ⟨line, directive, effect, depth⟩ := step
  cases effect <;> rfl

theorem diagnostic?_shift (step : Step) :
    (step.shift count).diagnostic? = step.diagnostic?.map (Diagnostic.shift count) := by
  obtain ⟨line, directive, effect, depth⟩ := step
  cases effect <;> rfl

theorem blocks_of_closed {lines : List Text} (closed : Closed (folding lines).diagnostics) :
    (trace {} lines).state.blocks = [] := by
  refine List.eq_nil_iff_forall_not_mem.mpr fun block member => ?_
  exact closed block.diagnostic (List.mem_append_right _ (List.mem_map_of_mem member)) rfl

theorem trace_closed {above : List Text} (closed : Closed (folding above).diagnostics) (below : List Text) :
    trace {} (above ++ below) =
      { steps := (trace {} above).steps ++ (trace {} below).steps.map (Step.shift above.length)
        state := (trace {} below).state.shift above.length } := by
  have restarted : (trace {} above).state = ({} : State).shift above.length := by
    have line := trace_line {} above
    have blocks := blocks_of_closed closed
    generalize (trace {} above).state = state at line blocks
    obtain ⟨_, _⟩ := state
    rw [Nat.zero_add] at line
    cases line
    cases blocks
    rfl
  rw [trace_append, restarted, trace_shift _ (by simp [State.Started])]

/-- Behind lines without open blocks, lines are folded as if they stood alone. -/
theorem folding_append {above : List Text} (closed : Closed (folding above).diagnostics) (below : List Text) :
    (folding (above ++ below)).ranges =
      (folding above).ranges ++ (folding below).ranges.map (LineRange.shift above.length) ∧
    (folding (above ++ below)).diagnostics =
      (folding above).diagnostics ++ (folding below).diagnostics.map (Diagnostic.shift above.length) := by
  have none := blocks_of_closed closed
  have started : (trace {} below).state.Started := blocks_started {} below (by simp)
  -- A block that is open at the end has a line, so there is a last line to close it at.
  have drained : ∀ block ∈ (trace {} below).state.blocks,
      (block.shift above.length).range (above.length + (trace {} below).state.line - 1) =
        (block.range (trace {} below).lastLine).shift above.length := by
    intro block member
    have line := started block member
    simp only [Block.range, Block.shift, LineRange.shift, Trace.lastLine, LineRange.mk.injEq, true_and]
    omega
  simp only [folding, Trace.folding, trace_closed closed below, none, List.map_nil, List.append_nil,
    List.filterMap_append, List.map_append, List.append_assoc, List.append_cancel_left_eq, State.shift, List.map_map,
    filterMap_shift (range?_shift above.length), filterMap_shift (diagnostic?_shift above.length)]
  exact ⟨List.map_congr_left drained, rfl⟩

end Fold

/-! ### The decoration scan -/

namespace Decoration

variable (count : Nat)

def Hint.shift (hint : Hint) : Hint :=
  { hint with line := count + hint.line }

def Located.shift (located : Located) : Located :=
  { located with line := count + located.line }

def Frame.shift (frame : Frame) : Frame :=
  { frame with line := count + frame.line }

def Act.shift : Act → Act
  | .closed label frame => .closed label (frame.shift count)
  | act => act

def Step.shift (step : Step) : Step :=
  { line := count + step.line, act := step.act.shift count, frames := step.frames.map (Frame.shift count) }

def State.shift (state : State) : State :=
  { state with frames := state.frames.map (Frame.shift count) }

theorem meet_shift (state : State) (line : Nat) (directive : Directive) :
    (state.shift count).meet (count + line) directive =
      ((state.meet line directive).1.shift count, (state.meet line directive).2.shift count) := by
  obtain ⟨frames, siblings⟩ := state
  by_cases opener : directive.kind.role = .opener
  · rw [meet_opener opener, meet_opener opener]
    simp [State.openChain, State.shift, Act.shift, Frame.shift]
  cases kind : directive.kind with
  | ifTrue | ifDefined | ifUndefined => simp [kind, Kind.role] at opener
  | elseIf | otherwise | endIf =>
    simp only [State.meet, kind]
    cases frames <;> rfl

theorem visit_shift (state : State) (located : Located) :
    (state.shift count).visit (located.shift count) =
      ((state.visit located).1.shift count, (state.visit located).2.shift count) := by
  obtain ⟨line, commented, directive⟩ := located
  cases commented with
  | true => rfl
  | false =>
    have met := meet_shift count state line directive
    simp only [State.visit, Located.shift, Bool.false_eq_true, if_false, met]
    rfl

theorem trace_shift (state : State) (directives : List Located) :
    trace (state.shift count) (directives.map (Located.shift count)) =
      { steps := (trace state directives).steps.map (Step.shift count)
        state := (trace state directives).state.shift count } := by
  induction directives generalizing state with
  | nil => rfl
  | cons located rest ih => simp only [List.map_cons, trace, visit_shift, ih]

theorem hint?_shift (step : Step) : (step.shift count).hint? = step.hint?.map (Hint.shift count) := by
  obtain ⟨line, act, frames⟩ := step
  cases act <;> rfl

theorem diagnostic?_shift (step : Step) :
    (step.shift count).diagnostic? = step.diagnostic?.map (Diagnostic.shift count) := by
  obtain ⟨line, act, frames⟩ := step
  cases act <;> rfl

theorem follow_shift (reference : Nat) (path : ActivePath) (step : Step) :
    (step.shift count).follow (count + reference) path = step.follow reference path := by
  obtain ⟨line, act, frames⟩ := step
  cases act <;> simp [Step.follow, Step.shift, Act.shift]

theorem locate_append (above below : Text) :
    locate (above ++ '\n' :: below) =
      locate above ++ (locate below).map (Located.shift (LineTable.ofText above).lineCount) := by
  rw [locate_eq, LineTable.texts_append, List.zipIdx_append, List.flatMap_append, ← locate_eq, Nat.zero_add,
    LineTable.length_texts, List.zipIdx_eq_map_add, List.flatMap_map, locate_eq below, List.map_flatMap]
  congr 1
  refine List.flatMap_congr ?_
  rintro ⟨line, number⟩ _
  simp only [locateLine, List.map_map]
  rfl

/-! ### What a closed prefix leaves behind -/

/-- Below all directives, the path has a name for each frame. -/
theorem path_frames {directives : List Located} {reference : Nat}
    (below : ∀ located ∈ directives, located.line < reference) :
    ((trace {} directives).pathAt reference).names.length = (trace {} directives).state.frames.length := by
  refine trace_induction (P := fun directives steps state => (∀ located ∈ directives, located.line < reference) →
    (steps.foldl (Step.follow reference) {}).names.length = state.frames.length) (fun _ => rfl) ?_ directives below
  intro directives steps state located step next visits kept below
  obtain ⟨others, last⟩ := List.forall_mem_append.mp below
  have passed := last located List.mem_cons_self
  have same := kept others
  rw [List.foldl_concat]
  generalize steps.foldl (Step.follow reference) {} = path at same ⊢
  rw [← List.length_reverse] at same ⊢
  cases visits with
  | skipped | unmatched => exact same
  | opened =>
    rw [follow_opened reference path rfl, if_pos (Nat.le_of_lt passed)]
    exact congrArg (· + 1) same
  | branched =>
    rw [follow_turned reference path (Or.inl rfl), if_pos (Nat.le_of_lt passed), List.length_modifyHead]
    exact same
  | inverted =>
    rw [follow_turned reference path (Or.inr rfl), if_pos (Nat.le_of_lt passed), List.length_modifyHead]
    exact same
  | closed =>
    rw [follow_closed reference path rfl, if_pos passed, List.length_tail, same]
    rfl

theorem frames_of_closed {text : Text} {reference : Nat} (closed : Closed (decorate text reference).diagnostics) :
    (traceOf text).state.frames = [] := by
  refine List.eq_nil_iff_forall_not_mem.mpr fun frame member => ?_
  exact closed frame.diagnostic (List.mem_append_right _ (List.mem_map_of_mem member)) rfl

theorem state_of_closed {text : Text} {reference : Nat} (closed : Closed (decorate text reference).diagnostics) :
    (traceOf text).state = {} := by
  have tracked : Tracked (encounters text) (traceOf text).state := trace_tracked (locate text)
  have frames := frames_of_closed closed
  generalize (traceOf text).state = state at tracked frames
  obtain ⟨_, siblings⟩ := state
  cases frames
  -- Without frames there are no open chains, and the siblings are the entries of those.
  have none := List.forall₂_nil_left_iff.mp tracked.frames
  have entries : siblings = (openChains (encounters text)).flatMap history := tracked.siblings
  rw [entries, none]
  rfl

theorem trace_closed {above : Text} {reference : Nat} (closed : Closed (decorate above reference).diagnostics)
    (below : Text) :
    traceOf (above ++ '\n' :: below) =
      { steps := (traceOf above).steps ++ (traceOf below).steps.map (Step.shift (LineTable.ofText above).lineCount)
        state := (traceOf below).state.shift (LineTable.ofText above).lineCount } := by
  have restarted : (trace {} (locate above)).state = ({} : State).shift (LineTable.ofText above).lineCount :=
    state_of_closed closed
  rw [traceOf, locate_append, trace_append, restarted, trace_shift]
  rfl

section Closed

variable {above : Text} {reference : Nat} (closed : Closed (decorate above reference).diagnostics) (below : Text)
include closed

theorem emitted_append (first second third : Nat) :
    (decorate (above ++ '\n' :: below) first).emitted =
      (decorate above second).emitted ++
        (decorate below third).emitted.map (Hint.shift (LineTable.ofText above).lineCount) := by
  simp only [decorate, Trace.decorations, trace_closed closed below, List.filterMap_append,
    filterMap_shift (hint?_shift _)]

theorem diagnostics_append (first second third : Nat) :
    (decorate (above ++ '\n' :: below) first).diagnostics =
      (decorate above second).diagnostics ++
        (decorate below third).diagnostics.map (Diagnostic.shift (LineTable.ofText above).lineCount) := by
  simp only [decorate, Trace.decorations, trace_closed closed below, frames_of_closed closed, List.filterMap_append,
    filterMap_shift (diagnostic?_shift _), List.map_nil, List.append_nil, List.map_append, List.append_assoc,
    State.shift, List.map_map]
  rfl

theorem path_before (line : Nat) (inside : line < (LineTable.ofText above).lineCount) :
    (decorate (above ++ '\n' :: below) line).path = (decorate above line).path := by
  simp only [decorate, Trace.decorations, Trace.pathAt, trace_closed closed below, List.foldl_append]
  have below : ∀ step ∈ (traceOf below).steps.map (Step.shift (LineTable.ofText above).lineCount), line < step.line := by
    intro step member
    obtain ⟨original, _, rfl⟩ := List.mem_map.mp member
    exact Nat.lt_of_lt_of_le inside (Nat.le_add_right _ _)
  exact foldl_follow_below below _

theorem path_behind (line : Nat) :
    (decorate (above ++ '\n' :: below) ((LineTable.ofText above).lineCount + line)).path = (decorate below line).path := by
  have left : (traceOf above).pathAt ((LineTable.ofText above).lineCount + line) = {} := by
    have passed : ∀ located ∈ locate above, located.line < (LineTable.ofText above).lineCount + line :=
      fun located member => Nat.lt_of_lt_of_le (lines_below above located member) (Nat.le_add_right _ _)
    have length := path_frames passed
    rw [← traceOf, frames_of_closed closed, List.length_nil, List.length_eq_zero_iff] at length
    exact congrArg ActivePath.mk length
  simp only [decorate, Trace.decorations, Trace.pathAt, trace_closed closed below, List.foldl_append, List.foldl_map,
    follow_shift]
  rw [← Trace.pathAt, left]

end Closed

theorem band_append {whole above below : Decorations} {count : Nat}
    (emitted : whole.emitted = above.emitted ++ below.emitted.map (Hint.shift count)) (number : Nat) :
    whole.band number = above.band number ++ (below.band number).map (Hint.shift count) := by
  rw [Decorations.band, emitted, List.filter_append, List.filter_map]
  rfl

end Decoration

open Decoration (decorate Hint)
open Fold (folding)

/-- Behind a prefix that leaves nothing open, both scans give what they give for the rest alone, moved down by
the lines of the prefix. -/
theorem scans_behind_closed (chosen : Categories) :
    (∀ lines, (Fold.scan chosen Fold.Token.never lines).result = .ok (folding lines)) ∧
    (∀ above below : List Text, Closed (folding above).diagnostics →
      (folding (above ++ below)).ranges =
        (folding above).ranges ++ (folding below).ranges.map (LineRange.shift above.length) ∧
      (folding (above ++ below)).diagnostics =
        (folding above).diagnostics ++ (folding below).diagnostics.map (Diagnostic.shift above.length)) ∧
    ∀ (above below : Text) (left right reference : Nat), Closed (decorate above left).diagnostics →
      (∀ band, (decorate (above ++ '\n' :: below) reference).band band =
        (decorate above left).band band ++
          ((decorate below right).band band).map (Hint.shift (LineTable.ofText above).lineCount)) ∧
      (decorate (above ++ '\n' :: below) reference).diagnostics =
        (decorate above left).diagnostics ++
          (decorate below right).diagnostics.map (Diagnostic.shift (LineTable.ofText above).lineCount) ∧
      (decorate (above ++ '\n' :: below) reference).path =
        if reference < (LineTable.ofText above).lineCount then (decorate above reference).path
        else (decorate below (reference - (LineTable.ofText above).lineCount)).path := by
  refine ⟨Fold.scan_never chosen, fun above below closed => Fold.folding_append closed below, ?_⟩
  intro above below left right reference closed
  refine ⟨Decoration.band_append (Decoration.emitted_append closed below reference left right),
    Decoration.diagnostics_append closed below reference left right, ?_⟩
  split
  · rename_i inside
    exact Decoration.path_before closed below reference inside
  · rename_i outside
    have behind := Decoration.path_behind closed below (reference - (LineTable.ofText above).lineCount)
    rwa [Nat.add_sub_of_le (Nat.le_of_not_lt outside)] at behind

/-- A stray closer in the prefix is no open block, and the block behind the prefix is named on its own lines. -/
theorem scans_behind_closed_stray :
    Closed (folding ["#endif".toList, "#if A".toList, "#endif".toList]).diagnostics ∧
    (folding (["#endif".toList, "#if A".toList, "#endif".toList] ++ ["#ifdef B".toList, "x".toList])).ranges =
      [⟨1, 2⟩, ⟨3, 4⟩] ∧
    Closed (decorate "#endif\n#if A\n#endif".toList 0).diagnostics ∧
    (decorate ("#endif\n#if A\n#endif".toList ++ '\n' :: "#ifdef B\nx".toList) 4).path =
      (decorate "#ifdef B\nx".toList 1).path ∧
    (decorate ("#endif\n#if A\n#endif".toList ++ '\n' :: "#ifdef B\nx".toList) 4).diagnostics =
      [⟨.unmatched, 0, .endIf⟩, ⟨.unterminated, 3, .ifDefined⟩] := by
  have lines : Closed (folding ["#endif".toList, "#if A".toList, "#endif".toList]).diagnostics := by decide +kernel
  have text : Closed (decorate "#endif\n#if A\n#endif".toList 0).diagnostics := by decide +kernel
  obtain ⟨_, folded, decorated⟩ := scans_behind_closed .all
  obtain ⟨_, reported, path⟩ := decorated _ "#ifdef B\nx".toList 0 0 4 text
  refine ⟨lines, (folded _ _ lines).1.trans ?_, text, path.trans ?_, reported.trans ?_⟩
  all_goals decide +kernel

end Conditionals
