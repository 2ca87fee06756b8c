import Conditionals.Proofs.Fold.Trace

/-!
# Fold ranges never cross

`Stacked` ties the ranges completed so far to the blocks still open: completed ranges stand in the
order `LineRange.Before`, open blocks lie inside one another, and no completed range crosses the
first line of an open block. Every line keeps it, so it holds however the directives are nested,
and at the end no block is left. `folding_laminar` reads the shape of the whole result off it.
-/

namespace Conditionals

/-- The first range ends before the second starts, or lies inside it and starts later. -/
def LineRange.Before (first second : LineRange) : Prop :=
  first.last < second.first ∨ second.first < first.first ∧ first.last ≤ second.last

namespace Fold

/-- Ranges over `count` lines that are nested or disjoint, an inner one before the outer one. -/
structure Laminar (count : Nat) (ranges : List LineRange) : Prop where
  bounds : ∀ range ∈ ranges, range.first ≤ range.last ∧ range.last < count
  distinct : (ranges.map LineRange.first).Nodup
  nested : ∀ left ∈ ranges, ∀ right ∈ ranges,
    left.last < right.first ∨ right.last < left.first ∨ left.contains right ∨ right.contains left
  sorted : ranges.Pairwise fun left right =>
    left.last < right.last ∨ left.last = right.last ∧ right.first < left.first

/-- The ranges completed and the blocks open, the innermost first, after `count` lines. -/
structure Stacked (count : Nat) (ranges : List LineRange) (blocks : List Block) : Prop where
  bounds : ∀ range ∈ ranges, range.first ≤ range.last ∧ range.last < count
  order : ranges.Pairwise LineRange.Before
  started : ∀ block ∈ blocks, block.line < count
  inside : blocks.Pairwise fun inner outer => outer.line < inner.line
  apart : ∀ range ∈ ranges, ∀ block ∈ blocks, range.last < block.line ∨ block.line < range.first

namespace Stacked

variable {count : Nat} {ranges : List LineRange} {block : Block} {blocks outer : List Block}

theorem nil : Stacked 0 [] [] := by
  constructor <;> simp

theorem later (stacked : Stacked count ranges blocks) : Stacked (count + 1) ranges blocks where
  bounds range member := ⟨(stacked.bounds range member).1, Nat.lt_succ_of_lt (stacked.bounds range member).2⟩
  order := stacked.order
  started block member := Nat.lt_succ_of_lt (stacked.started block member)
  inside := stacked.inside
  apart := stacked.apart

theorem push (stacked : Stacked count ranges blocks) (kind : Kind) :
    Stacked (count + 1) ranges ({ line := count, kind } :: blocks) where
  bounds := stacked.later.bounds
  order := stacked.order
  started := List.forall_mem_cons.mpr ⟨Nat.lt_succ_self count, stacked.later.started⟩
  inside := List.pairwise_cons.mpr ⟨stacked.started, stacked.inside⟩
  apart range member := List.forall_mem_cons.mpr
    ⟨Or.inl (stacked.bounds range member).2, stacked.apart range member⟩

/-- Completing the innermost block on a line that is not above the last one read. -/
theorem complete {last : Nat} (stacked : Stacked count ranges (block :: outer)) (reached : count ≤ last + 1) :
    Stacked (last + 1) (ranges ++ [{ first := block.line, last }]) outer := by
  have started := List.forall_mem_cons.mp stacked.started
  have inside := List.pairwise_cons.mp stacked.inside
  refine ⟨?_, ?_, ?_, inside.2, ?_⟩
  · intro range member
    rcases List.mem_append.mp member with member | member
    · have bounds := stacked.bounds range member
      omega
    · obtain rfl := List.mem_singleton.mp member
      constructor <;> dsimp only <;> omega
  · refine List.pairwise_append.mpr ⟨stacked.order, List.pairwise_singleton _ _, ?_⟩
    intro range member completed equal
    obtain rfl := List.mem_singleton.mp equal
    have bounds := stacked.bounds range member
    rcases stacked.apart range member block List.mem_cons_self with before | within
    · exact Or.inl before
    · exact Or.inr ⟨within, by dsimp only; omega⟩
  · intro other member
    have below := started.2 other member
    omega
  · intro range member other present
    rcases List.mem_append.mp member with member | member
    · exact stacked.apart range member other (List.mem_cons_of_mem _ present)
    · obtain rfl := List.mem_singleton.mp member
      exact Or.inr (inside.1 other present)

/-- Completing the innermost block on the last line read. -/
theorem complete_above (stacked : Stacked count ranges (block :: outer)) :
    Stacked count (ranges ++ [{ first := block.line, last := count - 1 }]) outer := by
  have started := stacked.started block List.mem_cons_self
  have completed : Stacked (count - 1 + 1) _ outer := stacked.complete (by omega)
  rwa [show count - 1 + 1 = count by omega] at completed

theorem drain (stacked : Stacked count ranges blocks) :
    Stacked count (ranges ++ blocks.map (Block.range (count - 1))) [] := by
  induction blocks generalizing ranges with
  | nil => simpa using stacked
  | cons block outer ih =>
    have drained := ih stacked.complete_above
    rwa [List.append_assoc] at drained

end Stacked

theorem trace_stacked (lines : List Text) :
    Stacked lines.length ((trace {} lines).steps.filterMap Step.range?) (trace {} lines).state.blocks := by
  refine trace_induction (P := fun lines steps blocks =>
    Stacked lines.length (steps.filterMap Step.range?) blocks) .nil ?_ ?_ ?_ ?_ ?_ lines
  · intro lines steps blocks text _ stacked
    simpa using stacked.later
  · intro lines steps blocks text directive _ _ stacked
    simpa [List.filterMap_cons] using stacked.push directive.kind
  · intro lines steps block outer text directive _ _ _ stacked
    simpa using stacked.complete_above.push directive.kind
  · intro lines steps block outer text directive _ _ _ stacked
    simpa using stacked.complete (Nat.le_succ _)
  · intro lines steps text directive _ _ stacked
    simpa [List.filterMap_cons] using stacked.later

theorem folding_stacked (lines : List Text) : Stacked lines.length (folding lines).ranges [] := by
  have drained := (trace_stacked lines).drain
  rwa [show lines.length - 1 = (trace {} lines).lastLine by rw [Trace.lastLine, trace_line, Nat.zero_add]] at drained

theorem crossing {left right : LineRange} (before : left.Before right) :
    left.last < right.first ∨ right.last < left.first ∨ left.contains right ∨ right.contains left := by
  simp only [LineRange.contains, Bool.and_eq_true, decide_eq_true_eq]
  rcases before with apart | ⟨within, _⟩ <;> omega

theorem Stacked.laminar {count : Nat} {ranges : List LineRange} (stacked : Stacked count ranges []) :
    Laminar count ranges := by
  refine ⟨stacked.bounds, ?_, ?_, ?_⟩
  · refine List.pairwise_map.mpr (stacked.order.imp_of_mem ?_)
    intro left right member _ before
    have bounds := stacked.bounds left member
    rcases before with apart | ⟨within, _⟩ <;> omega
  · -- The order of the list decides which of two members ends or lies inside the other.
    apply List.Pairwise.forall_of_forall_of_flip
    · intro range _
      simp [LineRange.contains]
    · exact stacked.order.imp crossing
    · refine stacked.order.imp ?_
      intro left right before
      have related := crossing before
      simp only [flip]
      tauto
  · refine stacked.order.imp_of_mem ?_
    intro left right _ member before
    have bounds := stacked.bounds right member
    rcases before with apart | ⟨within, _⟩ <;> omega

/-! ### Where ranges start -/

def Step.starts (step : Step) : Bool :=
  step.directive.kind.role ≠ .closer && step.effect ≠ .unmatched

theorem perm_start {ranges blocks starts : List Nat} (line : Nat) (same : (ranges ++ blocks).Perm starts) :
    (ranges ++ line :: blocks).Perm (starts ++ [line]) :=
  List.perm_middle.trans ((same.cons line).trans (List.perm_append_singleton _ _).symm)

theorem trace_starts (lines : List Text) :
    (((trace {} lines).steps.filterMap Step.range?).map LineRange.first ++
      (trace {} lines).state.blocks.map Block.line).Perm
    (((trace {} lines).steps.filter Step.starts).map Step.line) := by
  refine trace_induction (P := fun _ steps blocks =>
    ((steps.filterMap Step.range?).map LineRange.first ++ blocks.map Block.line).Perm
      ((steps.filter Step.starts).map Step.line)) .nil ?_ ?_ ?_ ?_ ?_ lines
  · intro lines steps blocks text _ starts
    exact starts
  · intro lines steps blocks text directive _ role starts
    simpa [List.filterMap_cons, List.filter_cons, Step.starts, role] using perm_start lines.length starts
  · intro lines steps block outer text directive _ role _ starts
    rw [List.map_cons, List.append_cons] at starts
    simpa [List.filter_cons, Step.starts, role] using perm_start lines.length starts
  · intro lines steps block outer text directive _ role _ starts
    simpa [List.filter_cons, Step.starts, role] using starts
  · intro lines steps text directive _ role starts
    simpa [List.filterMap_cons, List.filter_cons, Step.starts] using starts

theorem folding_starts (lines : List Text) (line : Nat) :
    line ∈ (folding lines).ranges.map LineRange.first ↔
      ∃ step ∈ (trace {} lines).steps, step.starts ∧ step.line = line := by
  have starts := (trace_starts lines).mem_iff (a := line)
  have drained : ((trace {} lines).state.blocks.map (Block.range (trace {} lines).lastLine)).map LineRange.first =
      (trace {} lines).state.blocks.map Block.line := by
    simp [Block.range]
  rw [folding, Trace.folding, List.map_append, drained, starts]
  simp [and_assoc]

theorem mem_diagnostics_unmatched {lines : List Text} {line : Nat} {kind : Kind} :
    { fault := .unmatched, line, kind } ∈ (folding lines).diagnostics ↔
      ∃ step ∈ (trace {} lines).steps, step.effect = .unmatched ∧ step.line = line ∧ step.directive.kind = kind := by
  simp only [folding, Trace.folding, List.mem_append, List.mem_filterMap, List.mem_map, Block.diagnostic,
    Diagnostic.mk.injEq, reduceCtorEq, false_and, and_false, exists_false, or_false]
  refine exists_congr fun step => and_congr_right fun _ => ?_
  cases effect : step.effect <;> simp [Step.diagnostic?, effect]

/-- What a directive of each role can do. A block ends below the line it started on. -/
def Step.Sound (step : Step) : Prop :=
  match step.effect with
  | .opened => step.directive.kind.role = .opener
  | .completed range => range.first < step.line ∧
      (step.directive.kind.role = .branch ∧ range.last + 1 = step.line ∨
        step.directive.kind.role = .closer ∧ range.last = step.line)
  | .unmatched => step.directive.kind.role ≠ .opener

theorem steps_sound (lines : List Text) : ∀ step ∈ (trace {} lines).steps, step.Sound := by
  refine trace_induction (P := fun _ steps _ => ∀ step ∈ steps, step.Sound) (by simp) ?_ ?_ ?_ ?_ ?_ lines
  · intro lines steps blocks text _ sound
    exact sound
  · intro lines steps blocks text directive _ role sound
    exact List.forall_mem_append.mpr ⟨sound, List.forall_mem_singleton.mpr role⟩
  · intro lines steps block outer text directive _ role started sound
    refine List.forall_mem_append.mpr ⟨sound, List.forall_mem_singleton.mpr ⟨started, Or.inl ⟨role, ?_⟩⟩⟩
    dsimp only
    omega
  · intro lines steps block outer text directive _ role started sound
    exact List.forall_mem_append.mpr ⟨sound, List.forall_mem_singleton.mpr ⟨started, Or.inr ⟨role, rfl⟩⟩⟩
  · intro lines steps text directive _ role sound
    exact List.forall_mem_append.mpr ⟨sound, List.forall_mem_singleton.mpr role⟩

/-- Fold ranges are nested or disjoint and come out in one order, whatever the nesting of the
directives. One starts on every opener and on every branch that belongs to a block. -/
theorem folding_laminar (chosen : Categories) (lines : List Text) :
    (scan chosen Token.never lines).result = .ok (folding lines) ∧
    Laminar lines.length (folding lines).ranges ∧
    (∀ step ∈ (trace {} lines).steps, step.directive.kind.isBranch →
      ∀ range, step.effect = .completed range → range.last + 1 = step.line) ∧
    ∀ line, line ∈ (folding lines).ranges.map LineRange.first ↔
      ∃ directive, lines[line]?.bind classify = some directive ∧
        (directive.kind.isOpener ∨ directive.kind.isBranch ∧
          { fault := .unmatched, line, kind := directive.kind } ∉ (folding lines).diagnostics) := by
  refine ⟨scan_never chosen lines, (folding_stacked lines).laminar, ?_, ?_⟩
  · intro step member branch range effect
    have sound := steps_sound lines step member
    simp only [Kind.isBranch, decide_eq_true_eq] at branch
    simp only [Step.Sound, effect, branch, reduceCtorEq, false_and, true_and, or_false] at sound
    exact sound.2
  intro line
  simp only [Kind.isOpener, Kind.isBranch, decide_eq_true_eq]
  rw [folding_starts]
  constructor
  · rintro ⟨step, member, starts, rfl⟩
    have listed : (step.line, step.directive) ∈ directives lines := by
      rw [← steps_directives]
      exact List.mem_map_of_mem member
    refine ⟨step.directive, mem_directives.mp listed, ?_⟩
    simp only [Step.starts, Bool.and_eq_true, decide_eq_true_eq] at starts
    cases role : step.directive.kind.role with
    | opener => exact Or.inl rfl
    | branch =>
      refine Or.inr ⟨rfl, fun reported => ?_⟩
      obtain ⟨other, present, unmatched, same, _⟩ := mem_diagnostics_unmatched.mp reported
      rw [step_unique present member same] at unmatched
      exact starts.2 unmatched
    | closer => exact absurd role starts.1
  · rintro ⟨directive, classified, kind⟩
    have listed := mem_directives.mpr classified
    rw [← steps_directives] at listed
    obtain ⟨step, member, same⟩ := List.mem_map.mp listed
    obtain ⟨rfl, rfl⟩ := Prod.mk.inj same
    refine ⟨step, member, ?_, rfl⟩
    simp only [Step.starts, Bool.and_eq_true, decide_eq_true_eq]
    rcases kind with opener | ⟨branch, unreported⟩
    · refine ⟨by simp [opener], fun unmatched => ?_⟩
      have sound := steps_sound lines step member
      simp only [Step.Sound, unmatched] at sound
      exact sound opener
    · refine ⟨by simp [branch], fun unmatched => unreported ?_⟩
      exact mem_diagnostics_unmatched.mpr ⟨step, member, unmatched, rfl, rfl⟩

end Fold
end Conditionals
