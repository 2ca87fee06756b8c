import Conditionals.Proofs.Decoration.Encounter

/-!
# Conservation of directives

Every directive outside comments leaves exactly one trace in the result: a hint on its line, or a
diagnostic when there is no chain for it to join. `Conserved` collects what holds between the
directives of a text and the result of a scan, whatever the line of reference.
-/

namespace Conditionals.Decoration

/-- The result of a scan accounts for every directive of a text. -/
structure Conserved (text : Text) (decorations : Decorations) : Prop where
  /-- Encounters are the directives outside comments. -/
  met : (encounters text).map Encounter.located = (locate text).filter fun located => !located.commented
  placed : (encounters text).map Encounter.index = List.range (encounters text).length
  emitted : decorations.emitted = (encounters text).filterMap Encounter.hint?
  unmatched : decorations.diagnostics.filter (fun diagnostic => diagnostic.fault = .unmatched) =
    (encounters text).filterMap Encounter.diagnostic?
  once : ∀ encounter ∈ encounters text,
    encounter.diagnostic? = none ∧ (∃ hint, encounter.hint? = some hint ∧ hint.line = encounter.line) ∨
    encounter.hint? = none ∧
      encounter.diagnostic? = some { fault := .unmatched, line := encounter.line, kind := encounter.kind }
  strays : ∀ encounter ∈ encounters text, encounter.diagnostic?.isSome ↔
    encounter.role ≠ .opener ∧ Chain.openBefore Encounter.role (encounters text) encounter.index = []
  stored : ∀ (number : Nat) (hints : List Hint), decorations.bands[number]? = some hints → ∀ hint ∈ hints, hint.band = number
  complete : decorations.bands.flatten.Perm decorations.emitted
  ordered : ∀ hints ∈ decorations.bands, hints.Pairwise fun first second => first.line ≤ second.line
  /-- Each directive that shows a hint is in exactly one chain. -/
  owned : ((Chain.ofDirectives Encounter.role (encounters text)).flatMap Chain.members).Perm
    ((encounters text).filter fun encounter => encounter.hint?.isSome)
  /-- The band of a chain is the number of chains open where it starts. -/
  level : ∀ chain ∈ Chain.ofDirectives Encounter.role (encounters text), ∀ member ∈ chain.members,
    member.band? = some ((Chain.openBefore Encounter.role (encounters text) chain.opener.index).length % bandCount)
  unterminated : (decorations.diagnostics.filter fun diagnostic => diagnostic.fault = .unterminated).length =
    (Chain.pending (Chain.ofDirectives Encounter.role (encounters text))).length

theorem encountersOf_index (directives : List Located) :
    (encountersOf directives).map Encounter.index = List.range (encountersOf directives).length := by
  refine encounter_induction (P := fun encounters => encounters.map Encounter.index = List.range encounters.length)
    rfl ?_ directives
  intro before encounter place _ kept
  rw [List.map_append, kept, List.length_append, List.length_singleton, List.range_succ, List.map_singleton, place]

theorem reported_unmatched (text : Text) :
    ∀ diagnostic ∈ (encounters text).filterMap Encounter.diagnostic?, diagnostic.fault = .unmatched := by
  intro diagnostic member
  obtain ⟨encounter, _, reported⟩ := List.mem_filterMap.mp member
  exact (Step.of_diagnostic? reported).1

theorem diagnostics_unmatched (text : Text) (reference : Nat) :
    (decorate text reference).diagnostics.filter (fun diagnostic => diagnostic.fault = .unmatched) =
      (encounters text).filterMap Encounter.diagnostic? := by
  rw [diagnostics_encounters, List.filter_append,
    List.filter_eq_self.mpr fun diagnostic member => decide_eq_true (reported_unmatched text diagnostic member),
    List.filter_eq_nil_iff.mpr (by simp [Frame.diagnostic]), List.append_nil]

theorem diagnostics_unterminated (text : Text) (reference : Nat) :
    (decorate text reference).diagnostics.filter (fun diagnostic => diagnostic.fault = .unterminated) =
      (traceOf text).state.frames.map Frame.diagnostic := by
  have none : ((encounters text).filterMap Encounter.diagnostic?).filter
      (fun diagnostic => diagnostic.fault = .unterminated) = [] := by
    refine List.filter_eq_nil_iff.mpr fun diagnostic member => ?_
    simp [reported_unmatched text diagnostic member]
  rw [diagnostics_encounters, List.filter_append, none, List.nil_append,
    List.filter_eq_self.mpr (by simp [Frame.diagnostic])]

theorem emitted_ordered (text : Text) (reference : Nat) :
    (decorate text reference).emitted.Pairwise fun first second => first.line ≤ second.line := by
  have lines : ((sites text).map Site.line).Pairwise (· ≤ ·) := List.pairwise_map.mpr (sites_ordered text)
  exact List.pairwise_map.mp (lines.sublist (hint_lines (locate text)))

theorem bands_stored {decorations : Decorations} {number : Nat} {hints : List Hint}
    (listed : decorations.bands[number]? = some hints) : hints = decorations.band number := by
  rw [Decorations.bands, List.getElem?_map, Option.map_eq_some_iff] at listed
  obtain ⟨band, found, rfl⟩ := listed
  obtain ⟨_, rfl⟩ := List.getElem?_eq_some_iff.mp found
  rw [List.getElem_range]

theorem chain_band {directives : List Located} {chain : Chain Encounter}
    (present : chain ∈ Chain.latestFirst Encounter.role (encountersOf directives)) {member : Encounter}
    (listed : member ∈ chain.members) :
    member.band? =
      some ((Chain.openBefore Encounter.role (encountersOf directives) chain.opener.index).length % bandCount) := by
  obtain ⟨hint, shown, _, same⟩ := chain_hints directives chain present member listed
  have opens := (Chain.latestFirst_shaped _ _ chain present).opener
  obtain ⟨_, joins⟩ := encounter_joins directives chain.opener (Chain.mem_latestFirst present).1
  obtain ⟨label, opening⟩ := joins.opened opens
  rw [Encounter.band?, opening] at same
  rw [Encounter.band?, shown]
  exact same.symm

/-- Every directive outside comments gives one hint or one diagnostic on its line, hints lie in the band
of their chain's nesting, and neither hints nor diagnostics depend on the line of reference. -/
theorem decorate_conserved (text : Text) (reference : Nat) :
    Conserved text (decorate text reference) ∧
    ∀ other, (decorate text other).bands = (decorate text reference).bands ∧
      (decorate text other).diagnostics = (decorate text reference).diagnostics := by
  refine ⟨?_, fun other => ⟨rfl, rfl⟩⟩
  constructor
  case met => exact (encounters_located text).trans (locate_uncommented text).symm
  case placed => exact encountersOf_index _
  case emitted => exact emitted_encounters text reference
  case unmatched => exact diagnostics_unmatched text reference
  case once =>
    intro encounter met
    rcases (encounter_joins _ encounter met).2.shown_or_reported with ⟨_, shown⟩ | ⟨_, reported⟩
    · exact Or.inl shown
    · exact Or.inr reported
  case strays =>
    intro encounter met
    rcases (encounter_joins _ encounter met).2.shown_or_reported with ⟨joined, silent, _⟩ | ⟨stray, _, reported⟩
    · rw [silent]
      refine iff_of_false (by simp) fun stray => ?_
      exact joined.elim stray.1 fun found => found stray.2
    · rw [reported]
      exact iff_of_true rfl stray
  case stored =>
    intro number hints listed hint member
    rw [bands_stored listed] at member
    exact of_decide_eq_true (List.mem_filter.mp member).2
  case complete => exact (List.mergeSort_perm _ _).symm.trans (hints_perm (traceOf text) reference)
  case ordered =>
    intro hints listed
    obtain ⟨number, found⟩ := List.mem_iff_getElem?.mp listed
    rw [bands_stored found]
    exact (emitted_ordered text reference).filter _
  case owned => exact (((List.reverse_perm _).flatMap_right _).trans (members_perm _))
  case level =>
    intro chain present member listed
    exact chain_band (List.mem_reverse.mp present) listed
  case unterminated =>
    rw [diagnostics_unterminated, List.length_map, Chain.ofDirectives, Chain.pending, List.filter_reverse,
      List.length_reverse]
    exact (trace_tracked (locate text)).frames.length_eq

end Conditionals.Decoration
