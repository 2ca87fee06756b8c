import Conditionals.Proofs.Chain
import Conditionals.Proofs.Fold.Laminar
import Conditionals.Proofs.Sorting

/-!
# Fold ranges around a line

The ranges around a line start where the branches start that the line lies in. While lines are
still being read, some of these branches have completed ranges and the others are open blocks.
`Covered` follows both together, and at the end every block has become a range.
-/

namespace Conditionals.Fold

/-- The lines and kinds of the directives at the start of lines. -/
def sites (lines : List Text) : List Site :=
  (directives lines).map fun (line, directive) => { line, kind := directive.kind }

theorem sites_concat_code {text : Text} (code : classify text = none) (lines : List Text) :
    sites (lines ++ [text]) = sites lines := by
  simp [sites, directives_concat, code]

theorem sites_concat_directive {text : Text} {directive : Directive} (found : classify text = some directive)
    (lines : List Text) :
    sites (lines ++ [text]) = sites lines ++ [{ line := lines.length, kind := directive.kind }] := by
  simp [sites, directives_concat, found]

theorem sites_below {lines : List Text} {site : Site} (member : site ∈ sites lines) : site.line < lines.length := by
  obtain ⟨⟨line, directive⟩, listed, rfl⟩ := List.mem_map.mp member
  exact directives_below listed

theorem sites_ordered (lines : List Text) : (sites lines).Pairwise fun first second => first.line < second.line :=
  List.pairwise_map.mpr (directives_ordered lines)

/-! ### Ranges and blocks around a line -/

/-- Where the ranges and the open blocks start that have a line inside. -/
def startsAround (reference : Nat) (ranges : List LineRange) (blocks : List Block) : List Nat :=
  (ranges.filter fun range => range.contains { first := reference, last := reference }).map LineRange.first ++
    (blocks.filter fun block => block.line ≤ reference).map Block.line

section Around

variable {reference line : Nat} {ranges : List LineRange} {block : Block} {outer : List Block}

/-- Ranges that end above a line are not around it. -/
theorem startsAround_above (above : ∀ range ∈ ranges, range.last < reference) (blocks : List Block) :
    startsAround reference ranges blocks = (blocks.filter fun block => block.line ≤ reference).map Block.line := by
  have none : ranges.filter (fun range => range.contains { first := reference, last := reference }) = [] := by
    refine List.filter_eq_nil_iff.mpr fun range member => ?_
    have ended := above range member
    simp only [LineRange.contains, Bool.and_eq_true, decide_eq_true_eq]
    omega
  rw [startsAround, none, List.map_nil, List.nil_append]

/-- A block that ends at or below a line was around it exactly when its range is. -/
theorem startsAround_below {last : Nat} (reached : reference ≤ last) :
    startsAround reference (ranges ++ [{ first := block.line, last }]) outer =
      startsAround reference ranges (block :: outer) := by
  by_cases started : block.line ≤ reference <;> simp [startsAround, LineRange.contains, started, reached]

theorem startsAround_opener (ended : ∀ range ∈ ranges, range.last < line) (kind : Kind) (blocks : List Block) :
    startsAround reference ranges ({ line, kind } :: blocks) =
      if line ≤ reference then line :: startsAround reference ranges blocks
      else startsAround reference ranges blocks := by
  by_cases above : line ≤ reference
  · have passed : ∀ range ∈ ranges, range.last < reference := fun range member =>
      Nat.lt_of_lt_of_le (ended range member) above
    rw [if_pos above, startsAround_above passed, startsAround_above passed,
      List.filter_cons_of_pos (by simpa using above), List.map_cons]
  · rw [if_neg above, startsAround, List.filter_cons_of_neg (by simpa using above), startsAround]

theorem startsAround_branch (ended : ∀ range ∈ ranges, range.last < line) (started : block.line < line) (kind : Kind) :
    startsAround reference (ranges ++ [{ first := block.line, last := line - 1 }]) ({ line, kind } :: outer) =
      if line ≤ reference then (startsAround reference ranges (block :: outer)).modifyHead fun _ => line
      else startsAround reference ranges (block :: outer) := by
  have endedHere : ∀ range ∈ ranges ++ [{ first := block.line, last := line - 1 }], range.last < line :=
    List.forall_mem_append.mpr ⟨ended, List.forall_mem_singleton.mpr (by dsimp only; omega)⟩
  rw [startsAround_opener endedHere]
  by_cases above : line ≤ reference
  · have inside : block.line ≤ reference := by omega
    rw [if_pos above, if_pos above,
      startsAround_above fun range member => Nat.lt_of_lt_of_le (endedHere range member) above,
      startsAround_above fun range member => Nat.lt_of_lt_of_le (ended range member) above,
      List.filter_cons_of_pos (by simpa using inside), List.map_cons, List.modifyHead_cons]
  · rw [if_neg above, if_neg above]
    exact startsAround_below (by omega)

theorem startsAround_closer (ended : ∀ range ∈ ranges, range.last < line) (started : block.line < line) :
    startsAround reference (ranges ++ [{ first := block.line, last := line }]) outer =
      if line < reference then (startsAround reference ranges (block :: outer)).tail
      else startsAround reference ranges (block :: outer) := by
  by_cases above : line < reference
  · have inside : block.line ≤ reference := by omega
    have passed : ∀ range ∈ ranges, range.last < reference := fun range member =>
      Nat.lt_trans (ended range member) above
    rw [if_pos above, startsAround_above passed, List.filter_cons_of_pos (by simpa using inside), List.map_cons,
      List.tail_cons]
    exact startsAround_above (List.forall_mem_append.mpr ⟨passed, List.forall_mem_singleton.mpr above⟩) outer
  · rw [if_neg above]
    exact startsAround_below (by omega)

end Around

/-- What is known of the ranges and blocks around a line after some lines. -/
structure Covered (reference : Nat) (lines : List Text) (ranges : List LineRange) (blocks : List Block) : Prop where
  ended : ∀ range ∈ ranges, range.last < lines.length
  depth : blocks.length = (Chain.pending (Chain.latestFirst Site.role (sites lines))).length
  trail : Chain.Trail Site.role Site.line reference (fun start site => start = site.line)
    (startsAround reference ranges blocks) (sites lines)

theorem ended_concat {lines : List Text} {ranges : List LineRange} (text : Text)
    (ended : ∀ range ∈ ranges, range.last < lines.length) : ∀ range ∈ ranges, range.last < (lines ++ [text]).length := by
  intro range member
  have above := ended range member
  rw [List.length_append]
  exact Nat.lt_add_right _ above

theorem trace_covered (reference : Nat) (lines : List Text) :
    Covered reference lines ((trace {} lines).steps.filterMap Step.range?) (trace {} lines).state.blocks := by
  refine trace_induction (P := fun lines steps blocks => Covered reference lines (steps.filterMap Step.range?) blocks)
    ⟨by simp, rfl, .nil⟩ ?_ ?_ ?_ ?_ ?_ lines
  · intro lines steps blocks text code covered
    refine ⟨ended_concat text covered.ended, ?_, ?_⟩
    · rw [sites_concat_code code, covered.depth]
    · rw [sites_concat_code code]
      exact covered.trail
  · intro lines steps blocks text directive found role covered
    have opens : Site.role { line := lines.length, kind := directive.kind } = .opener := role
    rw [List.filterMap_append, show [_].filterMap Step.range? = [] from rfl, List.append_nil]
    refine ⟨ended_concat text covered.ended, ?_, ?_⟩
    · rw [sites_concat_directive found, Chain.pending_opener opens, List.length_cons, List.length_cons, covered.depth]
    · rw [sites_concat_directive found, startsAround_opener covered.ended]
      exact covered.trail.opener opens rfl
  · intro lines steps block outer text directive found role started covered
    have turns : Site.role { line := lines.length, kind := directive.kind } = .branch := role
    obtain ⟨chain, rest, innermost, depth⟩ := Chain.exists_pending covered.depth
    rw [List.filterMap_append, show [_].filterMap Step.range? = [_] from rfl]
    refine ⟨?_, ?_, ?_⟩
    · refine List.forall_mem_append.mpr ⟨ended_concat text covered.ended, List.forall_mem_singleton.mpr ?_⟩
      rw [List.length_append, List.length_singleton]
      dsimp only
      omega
    · rw [sites_concat_directive found, Chain.pending_branch turns innermost, List.length_cons, List.length_cons, depth]
    · rw [sites_concat_directive found, startsAround_branch covered.ended started]
      exact covered.trail.branch turns innermost (fun other => sites_below) rfl
  · intro lines steps block outer text directive found role started covered
    have closes : Site.role { line := lines.length, kind := directive.kind } = .closer := role
    obtain ⟨chain, rest, innermost, depth⟩ := Chain.exists_pending covered.depth
    rw [List.filterMap_append, show [_].filterMap Step.range? = [_] from rfl]
    refine ⟨?_, ?_, ?_⟩
    · refine List.forall_mem_append.mpr ⟨ended_concat text covered.ended, List.forall_mem_singleton.mpr ?_⟩
      rw [List.length_append, List.length_singleton]
      dsimp only
      omega
    · rw [sites_concat_directive found, Chain.pending_closer closes innermost, depth]
    · rw [sites_concat_directive found, startsAround_closer covered.ended started]
      exact covered.trail.closer closes innermost fun other => sites_below
  · intro lines steps text directive found role covered
    have joins : Site.role { line := lines.length, kind := directive.kind } ≠ .opener := role
    have none := List.eq_nil_of_length_eq_zero covered.depth.symm
    rw [List.filterMap_append, show [_].filterMap Step.range? = [] from rfl, List.append_nil]
    refine ⟨ended_concat text covered.ended, ?_, ?_⟩
    · rw [sites_concat_directive found, Chain.latestFirst_stray joins none, covered.depth]
    · rw [sites_concat_directive found]
      exact covered.trail.stray joins none

/-! ### Ranges around a line of the text -/

/-- The ranges that contain a line, in the order in which they were completed. -/
def Folding.around (folding : Folding) (reference : Nat) : List LineRange :=
  folding.ranges.filter fun range => range.contains { first := reference, last := reference }

theorem around_trail {reference : Nat} {lines : List Text} (inside : reference < lines.length) :
    Chain.Trail Site.role Site.line reference (fun start site => start = site.line)
      (((folding lines).around reference).map LineRange.first) (sites lines) := by
  have covered := (trace_covered reference lines).trail
  have last : reference ≤ (trace {} lines).lastLine := by
    rw [Trace.lastLine, trace_line]
    omega
  have drained : ((trace {} lines).state.blocks.map (Block.range (trace {} lines).lastLine)).filter
      (fun range => range.contains { first := reference, last := reference }) =
      ((trace {} lines).state.blocks.filter fun block => block.line ≤ reference).map
        (Block.range (trace {} lines).lastLine) := by
    rw [List.filter_map]
    congr 1
    refine List.filter_congr fun block _ => ?_
    change (decide (block.line ≤ reference) && decide (reference ≤ (trace {} lines).lastLine)) = _
    rw [decide_eq_true last, Bool.and_true]
  rw [Folding.around, folding, Trace.folding, List.filter_append, drained, List.map_append, List.map_map]
  exact covered

/-- Of two ranges around a line, the one completed first starts later. -/
theorem around_sorted (reference : Nat) (lines : List Text) :
    ((folding lines).around reference).mergeSort (fun left right => left.first ≤ right.first) =
      ((folding lines).around reference).reverse := by
  have descending : ((folding lines).around reference).Pairwise fun left right => right.first < left.first := by
    refine List.Pairwise.imp_of_mem ?_ ((folding_stacked lines).order.filter _)
    intro left right around inside before
    have leftAround := (List.mem_filter.mp around).2
    have rightAround := (List.mem_filter.mp inside).2
    simp only [LineRange.contains, Bool.and_eq_true, decide_eq_true_eq] at leftAround rightAround
    rcases before with apart | ⟨within, _⟩ <;> omega
  exact mergeSort_eq LineRange.first (List.reverse_perm _).symm (List.pairwise_reverse.mpr descending)

end Conditionals.Fold
