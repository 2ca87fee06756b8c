import Conditionals.Fold.Scan
import Mathlib.Data.List.Induction

/-!
# Traces of the folding scan

What a directive does to the stack of blocks, and `trace_induction`, which carries a property of
the lines read, the steps made and the blocks left open from one line to the next.
-/

namespace Conditionals.Fold

theorem meet_opener {kind : Kind} (opener : kind.role = .opener) (line : Nat) (blocks : List Block) :
    meet line kind blocks = (.opened, { line, kind } :: blocks) := by
  simp only [meet, opener]

theorem meet_branch {kind : Kind} (branch : kind.role = .branch) (line : Nat) (block : Block) (outer : List Block) :
    meet line kind (block :: outer) =
      (.completed { first := block.line, last := line - 1 }, { line, kind } :: outer) := by
  simp only [meet, branch]

theorem meet_closer {kind : Kind} (closer : kind.role = .closer) (line : Nat) (block : Block) (outer : List Block) :
    meet line kind (block :: outer) = (.completed { first := block.line, last := line }, outer) := by
  simp only [meet, closer]

theorem meet_unmatched {kind : Kind} (other : kind.role ≠ .opener) (line : Nat) :
    meet line kind [] = (.unmatched, []) := by
  unfold meet
  split
  · rename_i opener
    exact absurd opener other
  all_goals first | rfl | contradiction

theorem read_code {text : Text} (code : classify text = none) (state : State) :
    state.read text = ({ state with line := state.line + 1 }, none) := by
  simp only [State.read, code]

theorem read_directive {text : Text} {directive : Directive} (found : classify text = some directive)
    (line : Nat) (blocks : List Block) :
    State.read { line, blocks } text =
      ({ line := line + 1, blocks := (meet line directive.kind blocks).2 },
        some { line, directive, effect := (meet line directive.kind blocks).1
               depth := (meet line directive.kind blocks).2.length }) := by
  simp only [State.read, found]

theorem read_line (state : State) (text : Text) : (state.read text).1.line = state.line + 1 := by
  unfold State.read
  split <;> rfl

theorem read_blocks {state : State} {text : Text} {block : Block} (member : block ∈ (state.read text).1.blocks) :
    block ∈ state.blocks ∨ block.line = state.line := by
  unfold State.read at member
  split at member
  · exact Or.inl member
  · rename_i directive _
    dsimp only at member
    unfold meet at member
    split at member
    all_goals grind

theorem trace_line (state : State) (lines : List Text) :
    (trace state lines).state.line = state.line + lines.length := by
  induction lines generalizing state with
  | nil => rfl
  | cons text rest ih =>
    rw [trace, ih, read_line, List.length_cons]
    omega

theorem trace_append (state : State) (first second : List Text) :
    trace state (first ++ second) =
      { steps := (trace state first).steps ++ (trace (trace state first).state second).steps
        state := (trace (trace state first).state second).state } := by
  induction first generalizing state with
  | nil => rfl
  | cons text rest ih => simp only [List.cons_append, trace, ih, List.append_assoc]

theorem trace_concat (state : State) (lines : List Text) (text : Text) :
    trace state (lines ++ [text]) =
      { steps := (trace state lines).steps ++ ((trace state lines).state.read text).2.toList
        state := ((trace state lines).state.read text).1 } := by
  simp only [trace_append, trace, List.append_nil]

@[simp] theorem range?_opened (line : Nat) (directive : Directive) (depth : Nat) :
    Step.range? { line, directive, effect := .opened, depth } = none := rfl

@[simp] theorem range?_completed (line : Nat) (directive : Directive) (range : LineRange) (depth : Nat) :
    Step.range? { line, directive, effect := .completed range, depth } = some range := rfl

@[simp] theorem range?_unmatched (line : Nat) (directive : Directive) (depth : Nat) :
    Step.range? { line, directive, effect := .unmatched, depth } = none := rfl

theorem blocks_started (state : State) (lines : List Text) (started : ∀ block ∈ state.blocks, block.line < state.line) :
    ∀ block ∈ (trace state lines).state.blocks, block.line < (trace state lines).state.line := by
  induction lines generalizing state with
  | nil => exact started
  | cons text rest ih =>
    refine ih (state.read text).1 ?_
    rw [read_line]
    intro block member
    rcases read_blocks member with old | new
    · exact Nat.lt_succ_of_lt (started block old)
    · exact new ▸ Nat.lt_succ_self _

/-- A property of the lines read, the steps made and the blocks open holds of every trace when it
holds at the start and each of the five things a line can do keeps it. -/
theorem trace_induction {P : List Text → List Step → List Block → Prop} (start : P [] [] [])
    (code : ∀ lines steps blocks text, classify text = none →
      P lines steps blocks → P (lines ++ [text]) steps blocks)
    (opener : ∀ lines steps blocks text directive, classify text = some directive →
      directive.kind.role = .opener → P lines steps blocks →
      P (lines ++ [text])
        (steps ++ [{ line := lines.length, directive, effect := .opened, depth := blocks.length + 1 }])
        ({ line := lines.length, kind := directive.kind } :: blocks))
    (branch : ∀ lines steps block outer text directive, classify text = some directive →
      directive.kind.role = .branch → block.line < lines.length → P lines steps (block :: outer) →
      P (lines ++ [text])
        (steps ++ [{ line := lines.length, directive
                     effect := .completed { first := block.line, last := lines.length - 1 }
                     depth := outer.length + 1 }])
        ({ line := lines.length, kind := directive.kind } :: outer))
    (closer : ∀ lines steps block outer text directive, classify text = some directive →
      directive.kind.role = .closer → block.line < lines.length → P lines steps (block :: outer) →
      P (lines ++ [text])
        (steps ++ [{ line := lines.length, directive
                     effect := .completed { first := block.line, last := lines.length }
                     depth := outer.length }])
        outer)
    (unmatched : ∀ lines steps text directive, classify text = some directive →
      directive.kind.role ≠ .opener → P lines steps [] →
      P (lines ++ [text])
        (steps ++ [{ line := lines.length, directive, effect := .unmatched, depth := 0 }]) [])
    (lines : List Text) : P lines (trace {} lines).steps (trace {} lines).state.blocks := by
  induction lines using List.reverseRecOn with
  | nil => exact start
  | append_singleton lines text ih =>
    have count := trace_line {} lines
    have started := blocks_started {} lines (by simp)
    rw [trace_concat]
    generalize trace {} lines = before at ih count started ⊢
    obtain ⟨steps, ⟨line, blocks⟩⟩ := before
    obtain rfl : line = lines.length := count.trans (Nat.zero_add _)
    cases found : classify text with
    | none =>
      rw [read_code found]
      simpa using code lines steps blocks text found ih
    | some directive =>
      rw [read_directive found]
      cases role : directive.kind.role with
      | opener =>
        rw [meet_opener role]
        exact opener lines steps blocks text directive found role ih
      | branch =>
        cases blocks with
        | nil =>
          have other : directive.kind.role ≠ .opener := by simp [role]
          rw [meet_unmatched other]
          exact unmatched lines steps text directive found other ih
        | cons block outer =>
          rw [meet_branch role]
          exact branch lines steps block outer text directive found role (started block List.mem_cons_self) ih
      | closer =>
        cases blocks with
        | nil =>
          have other : directive.kind.role ≠ .opener := by simp [role]
          rw [meet_unmatched other]
          exact unmatched lines steps text directive found other ih
        | cons block outer =>
          rw [meet_closer role]
          exact closer lines steps block outer text directive found role (started block List.mem_cons_self) ih

/-! ### Steps and lines -/

/-- The directives at the start of lines, with their line numbers. -/
def directives (lines : List Text) : List (Nat × Directive) :=
  lines.zipIdx.filterMap fun (text, line) => (classify text).map (line, ·)

theorem mem_directives {lines : List Text} {line : Nat} {directive : Directive} :
    (line, directive) ∈ directives lines ↔ lines[line]?.bind classify = some directive := by
  simp only [directives, List.mem_filterMap, Prod.exists, List.mem_zipIdx_iff_getElem?, Option.map_eq_some_iff,
    Prod.mk.injEq, Option.bind_eq_some_iff]
  constructor
  · rintro ⟨text, number, read, found, classified, rfl, rfl⟩
    exact ⟨text, read, classified⟩
  · rintro ⟨text, read, classified⟩
    exact ⟨text, line, read, directive, classified, rfl, rfl⟩

theorem directives_concat (lines : List Text) (text : Text) :
    directives (lines ++ [text]) = directives lines ++ ((classify text).map (lines.length, ·)).toList := by
  cases found : classify text <;> simp [directives, List.zipIdx_append, found]

theorem steps_directives (lines : List Text) :
    (trace {} lines).steps.map (fun step => (step.line, step.directive)) = directives lines := by
  refine trace_induction (P := fun lines steps _ =>
    steps.map (fun step => (step.line, step.directive)) = directives lines) rfl ?_ ?_ ?_ ?_ ?_ lines
  all_goals
    intros
    simp_all [directives_concat]

theorem directives_below {lines : List Text} {line : Nat} {directive : Directive}
    (member : (line, directive) ∈ directives lines) : line < lines.length := by
  obtain ⟨text, read, _⟩ := Option.bind_eq_some_iff.mp (mem_directives.mp member)
  exact (List.getElem?_eq_some_iff.mp read).1

theorem directives_ordered (lines : List Text) :
    (directives lines).Pairwise fun first second => first.1 < second.1 := by
  induction lines using List.reverseRecOn with
  | nil => exact .nil
  | append_singleton lines text ih =>
    rw [directives_concat]
    refine List.pairwise_append.mpr ⟨ih, ?_, ?_⟩
    · cases classify text <;> simp
    · intro first member second last
      obtain ⟨directive, _, rfl⟩ := Option.map_eq_some_iff.mp (Option.mem_toList.mp last)
      exact directives_below member

theorem steps_ordered (lines : List Text) :
    (trace {} lines).steps.Pairwise fun first second => first.line < second.line := by
  have ordered := directives_ordered lines
  rwa [← steps_directives, List.pairwise_map] at ordered

theorem step_unique {lines : List Text} {first second : Step} (left : first ∈ (trace {} lines).steps)
    (right : second ∈ (trace {} lines).steps) (same : first.line = second.line) : first = second := by
  have ordered := steps_ordered lines
  refine List.Pairwise.forall_of_forall_of_flip (R := fun first second => first.line = second.line → first = second)
    (fun _ _ _ => rfl) (ordered.imp ?_) (ordered.imp ?_) left right same
  all_goals
    intro first second below equal
    omega

/-! ### Scans with a token -/

def Token.answer (token : Token) (count : Nat) : Bool :=
  token.answers (token.asked + count)

theorem Token.answer_poll (token : Token) (count : Nat) : token.poll.2.answer count = token.answer (count + 1) := by
  show token.answers (token.asked + 1 + count) = token.answers (token.asked + (count + 1))
  rw [Nat.add_right_comm, Nat.add_assoc]

theorem run_go {token : Token} (go : token.answer 0 = false) (state : State) (text : Text) (rest : List Text) :
    run token state (text :: rest) =
      { run token.poll.2 (state.read text).1 rest with
        trace :=
          { steps := (state.read text).2.toList ++ (run token.poll.2 (state.read text).1 rest).trace.steps
            state := (run token.poll.2 (state.read text).1 rest).trace.state } } := by
  have answered : token.poll.1 = false := go
  simp only [run, answered, Bool.false_eq_true, if_false]

theorem run_completed {token : Token} {state : State} {lines : List Text}
    (completed : (run token state lines).cancelled = false) : (run token state lines).trace = trace state lines := by
  induction lines generalizing token state with
  | nil => rfl
  | cons text rest ih =>
    cases stop : token.answer 0 with
    | true =>
      have answered : token.poll.1 = true := stop
      simp [run, answered] at completed
    | false =>
      rw [run_go stop] at completed ⊢
      dsimp only at completed ⊢
      rw [ih completed, trace]

theorem run_unstopped {token : Token} {lines : List Text} (go : ∀ count < lines.length, token.answer count = false)
    (state : State) :
    (run token state lines).cancelled = false ∧ (run token state lines).token.asked = token.asked + lines.length := by
  induction lines generalizing token state with
  | nil => exact ⟨rfl, rfl⟩
  | cons text rest ih =>
    rw [List.length_cons] at go ⊢
    have further : ∀ count < rest.length, token.poll.2.answer count = false := by
      intro count below
      rw [Token.answer_poll]
      exact go (count + 1) (by omega)
    obtain ⟨completed, asked⟩ := ih further (state.read text).1
    rw [run_go (go 0 (by omega))]
    refine ⟨completed, asked.trans ?_⟩
    show token.asked + 1 + rest.length = token.asked + (rest.length + 1)
    omega

theorem scan_unstopped {token : Token} {lines : List Text} (go : ∀ count < lines.length, token.answer count = false)
    (chosen : Categories) :
    scan chosen token lines =
      { result := .ok (folding lines), log := logged chosen (trace {} lines).events, polls := lines.length } := by
  obtain ⟨completed, asked⟩ := run_unstopped go {}
  rw [scan, Run.result, Run.events, completed, run_completed completed, asked, Nat.add_sub_cancel_left]
  rfl

theorem scan_never (chosen : Categories) (lines : List Text) :
    (scan chosen Token.never lines).result = .ok (folding lines) := by
  rw [scan_unstopped fun _ _ => rfl]

end Conditionals.Fold
