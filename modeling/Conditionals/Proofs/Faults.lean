import Conditionals.Proofs.Agreement
import Conditionals.Proofs.Decoration.Encounter

/-!
# Both scans report the same faults

Where every directive starts its line, the two scans find the same strays and the same chains that
nothing closes. They differ in what they say of such a chain: the folding scan names its last
branch, and the decoration scan its last branch that brings a condition.
-/

namespace Conditionals

/-- A diagnostic for the directive at a site. -/
def Site.report (fault : Fault) (site : Site) : Diagnostic :=
  { fault, line := site.line, kind := site.kind }

/-! ### The folding scan -/

namespace Fold

def Block.site (block : Block) : Site :=
  { line := block.line, kind := block.kind }

theorem trace_faults (lines : List Text) :
    (trace {} lines).steps.filterMap Step.diagnostic? =
      (Chain.strays Site.role (sites lines)).map (Site.report .unmatched) ∧
    (trace {} lines).state.blocks.map Block.site =
      (Chain.pending (Chain.latestFirst Site.role (sites lines))).map Chain.lastTurn := by
  refine trace_induction (P := fun lines steps blocks =>
    steps.filterMap Step.diagnostic? = (Chain.strays Site.role (sites lines)).map (Site.report .unmatched) ∧
    blocks.map Block.site = (Chain.pending (Chain.latestFirst Site.role (sites lines))).map Chain.lastTurn)
    ⟨rfl, rfl⟩ ?_ ?_ ?_ ?_ ?_ lines
  · intro lines steps blocks text code kept
    rwa [sites_concat_code code]
  · rintro lines steps blocks text directive found role ⟨reported, stack⟩
    have opens : Site.role { line := lines.length, kind := directive.kind } = .opener := role
    rw [sites_concat_directive found, Chain.strays_joined (Or.inl opens), Chain.pending_opener opens,
      List.filterMap_append, ← reported]
    exact ⟨List.append_nil _, congrArg _ stack⟩
  · rintro lines steps block outer text directive found role _ ⟨reported, stack⟩
    have turns : Site.role { line := lines.length, kind := directive.kind } = .branch := role
    obtain ⟨chain, rest, innermost, _, others⟩ := List.map_eq_cons_iff.mp stack.symm
    rw [sites_concat_directive found, Chain.strays_joined (Or.inr (by simp [innermost])),
      Chain.pending_branch turns innermost, List.filterMap_append, ← reported]
    refine ⟨List.append_nil _, ?_⟩
    simp [Chain.lastTurn, Block.site, others]
  · rintro lines steps block outer text directive found role _ ⟨reported, stack⟩
    have closes : Site.role { line := lines.length, kind := directive.kind } = .closer := role
    obtain ⟨chain, rest, innermost, _, others⟩ := List.map_eq_cons_iff.mp stack.symm
    rw [sites_concat_directive found, Chain.strays_joined (Or.inr (by simp [innermost])),
      Chain.pending_closer closes innermost, List.filterMap_append, ← reported]
    exact ⟨List.append_nil _, others.symm⟩
  · rintro lines steps text directive found role ⟨reported, stack⟩
    have joins : Site.role { line := lines.length, kind := directive.kind } ≠ .opener := role
    have none := List.map_eq_nil_iff.mp stack.symm
    rw [sites_concat_directive found, Chain.strays_stray joins none, Chain.latestFirst_stray joins none,
      List.filterMap_append, List.map_append, ← reported]
    exact ⟨rfl, stack⟩

theorem folding_faults (lines : List Text) :
    (folding lines).diagnostics = (Chain.strays Site.role (sites lines)).map (Site.report .unmatched) ++
      ((Chain.pending (Chain.latestFirst Site.role (sites lines))).map Chain.lastTurn).map
        (Site.report .unterminated) := by
  obtain ⟨reported, stack⟩ := trace_faults lines
  have drained := congrArg (List.map (Site.report .unterminated)) stack
  rw [List.map_map] at drained
  exact congrArg₂ (· ++ ·) reported drained

end Fold

/-! ### The decoration scan -/

namespace Decoration

theorem pending_sites (encounters : List Encounter) :
    Chain.pending (Chain.latestFirst Site.role (encounters.map Encounter.site)) =
      (openChains encounters).map (Chain.map Encounter.site) := by
  rw [Chain.latestFirst_map, Chain.pending_map]
  rfl

theorem reported_strays (directives : List Located) :
    (encountersOf directives).filterMap Encounter.diagnostic? =
      (Chain.strays Site.role (sitesOf directives)).map (Site.report .unmatched) := by
  rw [← encountersOf_sites]
  refine encounter_induction (P := fun encounters => encounters.filterMap Encounter.diagnostic? =
    (Chain.strays Site.role (encounters.map Encounter.site)).map (Site.report .unmatched)) rfl ?_ directives
  intro before encounter _ joins kept
  rw [List.filterMap_append, List.map_append, List.map_singleton, kept]
  rcases joins.shown_or_reported with ⟨joined, silent, _⟩ | ⟨⟨other, none⟩, _, reported⟩
  · rw [Chain.strays_joined]
    · simp [silent]
    · rwa [pending_sites, ne_eq, List.map_eq_nil_iff]
  · have alone : encounter.site.role ≠ .opener := other
    rw [Chain.strays_stray alone (by rw [pending_sites, none, List.map_nil]), List.map_append]
    simp [reported, Site.report, Encounter.site, Located.site, Encounter.line, Encounter.kind]

theorem decorate_faults (text : Text) (reference : Nat) :
    (decorate text reference).diagnostics = (Chain.strays Site.role (sites text)).map (Site.report .unmatched) ++
      ((Chain.pending (Chain.latestFirst Site.role (sites text))).map (Chain.lastNamed Site.kind)).map
        (Site.report .unterminated) := by
  have drained : (traceOf text).state.frames.map Frame.diagnostic =
      ((Chain.pending (Chain.latestFirst Site.role (sites text))).map (Chain.lastNamed Site.kind)).map
        (Site.report .unterminated) := by
    rw [sites, ← encountersOf_sites, pending_sites, List.map_map, List.map_map, ← List.forall₂_eq_eq_eq,
      List.forall₂_map_left_iff, List.forall₂_map_right_iff]
    refine (trace_tracked (locate text)).frames.imp fun frame chain heads => ?_
    rw [Function.comp_apply, Function.comp_apply, Chain.lastNamed_map]
    exact congrArg (Site.report .unterminated) heads.named
  rw [diagnostics_encounters, drained]
  exact congrArg (· ++ _) (reported_strays (locate text))

end Decoration

/-! ### Comparison -/

open Decoration Fold

theorem lastNamed_kind {chain : Chain Site} (opens : chain.opener.role = .opener) :
    (chain.lastNamed Site.kind).kind ≠ .otherwise := by
  unfold Chain.lastNamed
  rcases List.mem_cons.mp (List.getLastD_mem_cons
    (l := chain.branches.filter fun branch => branch.kind ≠ .otherwise) (a := chain.opener)) with opener | branch
  · rw [opener]
    intro kind
    rw [Site.role, kind] at opens
    cases opens
  · exact of_decide_eq_true (List.mem_filter.mp branch).2

/-- A chain is named by its last branch unless that is an `#else`. -/
theorem lastTurn_eq_lastNamed_iff {chain : Chain Site} (opens : chain.opener.role = .opener) :
    chain.lastTurn = chain.lastNamed Site.kind ↔ chain.lastTurn.kind ≠ .otherwise := by
  constructor
  · intro same
    rw [same]
    exact lastNamed_kind opens
  · intro named
    unfold Chain.lastTurn at named ⊢
    unfold Chain.lastNamed
    rcases List.eq_nil_or_concat' chain.branches with none | ⟨earlier, last, split⟩
    · rw [none]
      rfl
    · rw [split, List.getLastD_concat] at named
      rw [split, List.getLastD_concat, List.filter_append, List.filter_cons_of_pos (by simpa using named),
        List.filter_nil, List.getLastD_concat]

theorem report_injective (fault : Fault) : Function.Injective (Site.report fault) := by
  rintro ⟨line, kind⟩ ⟨line', kind'⟩ same
  cases same
  rfl

theorem filter_report (fault other : Fault) (sites : List Site) :
    (sites.map (Site.report other)).filter (fun diagnostic => diagnostic.fault = fault) =
      if other = fault then sites.map (Site.report other) else [] := by
  split
  · rename_i same
    exact List.filter_eq_self.mpr (by simp [Site.report, same])
  · rename_i different
    exact List.filter_eq_nil_iff.mpr (by simp [Site.report, different])

/-- The chains of a text that nothing closes, the innermost first. -/
def unclosed (text : Text) : List (Chain Site) :=
  Chain.pending (Chain.latestFirst Site.role (Decoration.sites text))

/-- Where every directive starts its line, both scans report the same strays, and then the same chains,
the innermost first. They name a chain alike unless its last branch is an `#else`. -/
theorem faults_agree {text : Text} (chosen : Categories) (reference : Nat) (anchored : Anchored text) :
    (scanText chosen Token.never text).result = .ok (foldingOfText text) ∧
    (foldingOfText text).diagnostics.map Diagnostic.fault =
      (decorate text reference).diagnostics.map Diagnostic.fault ∧
    (foldingOfText text).diagnostics.filter (fun diagnostic => diagnostic.fault = .unmatched) =
      (decorate text reference).diagnostics.filter (fun diagnostic => diagnostic.fault = .unmatched) ∧
    (foldingOfText text).diagnostics.filter (fun diagnostic => diagnostic.fault = .unterminated) =
      ((unclosed text).map Chain.lastTurn).map (Site.report .unterminated) ∧
    (decorate text reference).diagnostics.filter (fun diagnostic => diagnostic.fault = .unterminated) =
      ((unclosed text).map (Chain.lastNamed Site.kind)).map (Site.report .unterminated) ∧
    ∀ chain ∈ unclosed text,
      chain.lastTurn.report .unterminated = (chain.lastNamed Site.kind).report .unterminated ↔
        chain.lastTurn.kind ≠ .otherwise := by
  have folded := folding_faults (LineTable.ofText text).texts
  rw [← sites_anchored anchored] at folded
  have decorated := decorate_faults text reference
  refine ⟨scan_never chosen _, ?_⟩
  rw [foldingOfText, folded, decorated]
  simp only [List.filter_append, filter_report, reduceCtorEq, if_true, if_false, List.append_nil, List.nil_append]
  refine ⟨?_, trivial, rfl, rfl, ?_⟩
  · simp only [List.map_append, List.map_map]
    rfl
  · intro chain member
    have opens := (Chain.latestFirst_shaped _ _ chain (List.mem_of_mem_filter member)).opener
    rw [(report_injective .unterminated).eq_iff]
    exact lastTurn_eq_lastNamed_iff opens

/-- The two scans name a chain differently that ends in an `#else`. -/
theorem faults_agree_else :
    Anchored "#endif\n#if A\n#else\n#ifdef B".toList ∧
    (foldingOfText "#endif\n#if A\n#else\n#ifdef B".toList).diagnostics.map Diagnostic.fault =
      (decorate "#endif\n#if A\n#else\n#ifdef B".toList 0).diagnostics.map Diagnostic.fault ∧
    (foldingOfText "#endif\n#if A\n#else\n#ifdef B".toList).diagnostics ≠
      (decorate "#endif\n#if A\n#else\n#ifdef B".toList 0).diagnostics := by
  have anchored : Anchored "#endif\n#if A\n#else\n#ifdef B".toList := by decide +kernel
  exact ⟨anchored, (faults_agree .all 0 anchored).2.1, by decide +kernel⟩

end Conditionals
