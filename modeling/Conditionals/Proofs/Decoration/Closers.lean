import Conditionals.Proofs.Decoration.Encounter

/-!
# Labels of closers

A closer shows the labels of its own chain, joined. The names of all open chains stand in one list,
so what keeps chains apart is the split of that list into one segment per open chain, which holds
after every directive.
-/

namespace Conditionals.Decoration

theorem chain_label (directives : List Located) :
    ∀ chain ∈ Chain.latestFirst Encounter.role (encountersOf directives), ∀ closer ∈ chain.closer,
      closer.hint?.map Hint.label = some (combine (chain.turns.map Encounter.label)) := by
  refine chain_induction ?_ ?_ ?_ directives
  · intro _ _ _ _ closer missing
    cases missing
  · intro _ _ chain rest _ _ found _ closer ends
    -- The innermost chain has no closer yet.
    rw [Chain.closer_of_pending found] at ends
    cases ends
  · intro _ _ chain rest joins closes found _ closer ends
    have label := joins.closed closes found
    obtain rfl := Option.some.inj ends
    exact label

/-- The siblings in the order of the text are the entries of the open chains, the outermost first. -/
theorem siblings_reverse (directives : List Located) :
    (trace {} directives).state.siblings.reverse =
      (Chain.pending (Chain.ofDirectives Encounter.role (encountersOf directives))).flatMap fun chain =>
        chain.turns.map Encounter.sibling := by
  rw [(trace_tracked directives).siblings, List.reverse_flatMap, Chain.ofDirectives, Chain.pending, List.filter_reverse]
  refine List.flatMap_congr fun chain _ => ?_
  exact List.reverse_reverse _

theorem closes_chain {directives : List Located} {encounter : Encounter} (met : encounter ∈ encountersOf directives)
    (closes : encounter.role = .closer) (shown : encounter.hint?.isSome) :
    ∃ chain ∈ Chain.latestFirst Encounter.role (encountersOf directives), chain.closer = some encounter := by
  obtain ⟨chain, present, member⟩ := mem_members_iff.mpr ⟨met, shown⟩
  refine ⟨chain, present, ?_⟩
  rcases Chain.mem_turns_or_closer member with turn | closer
  · exact absurd closes ((Chain.latestFirst_shaped _ _ chain present).role_turn turn)
  · exact closer

/-- A closer that ends a chain shows the labels of that chain's opener and branches, joined, without
the empty ones at the end. No other label can enter, since after every directive the names kept are
exactly those of the chains still open. -/
theorem closer_labels (text : Text) (reference : Nat) :
    (decorate text reference).emitted = (encounters text).filterMap Encounter.hint? ∧
    (∀ chain ∈ Chain.ofDirectives Encounter.role (encounters text), ∀ closer ∈ chain.closer,
      (∀ turn ∈ chain.turns, ∃ hint, turn.hint? = some hint ∧ hint.line = turn.line ∧ hint.label = turn.label) ∧
      ∃ hint, closer.hint? = some hint ∧ hint.line = closer.line ∧
        hint.label = combine (chain.turns.map Encounter.label)) ∧
    (∀ closer ∈ encounters text, closer.kind = .endIf → (closer.hint?.isSome ↔
      ∃ chain ∈ Chain.ofDirectives Encounter.role (encounters text), chain.closer = some closer)) ∧
    ∀ before after, locate text = before ++ after →
      (trace {} before).state.siblings.reverse =
        (Chain.pending (Chain.ofDirectives Encounter.role (encountersOf before))).flatMap fun chain =>
          chain.turns.map Encounter.sibling := by
  refine ⟨emitted_encounters text reference, ?_, ?_, fun before _ _ => siblings_reverse before⟩
  · intro chain member closer ends
    have present := List.mem_reverse.mp member
    have hints := chain_hints (locate text) chain present
    refine ⟨?_, ?_⟩
    · intro turn listed
      obtain ⟨hint, shown, line, _⟩ := hints turn (List.mem_append_left _ listed)
      refine ⟨hint, shown, line, ?_⟩
      rw [Encounter.label, shown]
      rfl
    · obtain ⟨hint, shown, line, _⟩ := hints closer (List.mem_append_right _ (Option.mem_toList.mpr ends))
      have label := chain_label (locate text) chain present closer ends
      rw [shown] at label
      exact ⟨hint, shown, line, Option.some.inj label⟩
  · intro closer met kind
    constructor
    · intro shown
      obtain ⟨chain, present, ends⟩ := closes_chain met (congrArg Kind.role kind) shown
      exact ⟨chain, List.mem_reverse.mpr present, ends⟩
    · rintro ⟨chain, member, ends⟩
      have label := chain_label (locate text) chain (List.mem_reverse.mp member) closer ends
      cases shown : closer.hint? with
      | none => simp [shown] at label
      | some hint => rfl

/-- The chain inside the first branch leaves nothing in the label of the outer chain. -/
theorem closer_labels_nested :
    ∃ chain ∈ Chain.ofDirectives Encounter.role (encounters "#if A\n#ifdef B\n#endif\n#elif C\n#endif".toList),
    ∃ closer ∈ chain.closer, closer.line = 4 ∧ closer.label = "A & C".toList := by
  have found : (Chain.ofDirectives Encounter.role
      (encounters "#if A\n#ifdef B\n#endif\n#elif C\n#endif".toList)).any (fun chain =>
        chain.closer.any (fun closer => closer.line = 4) &&
          combine (chain.turns.map Encounter.label) = "A & C".toList) = true := by
    decide +kernel
  obtain ⟨chain, member, holds⟩ := List.any_eq_true.mp found
  obtain ⟨ended, joined⟩ := Bool.and_eq_true_iff.mp holds
  obtain ⟨closer, ends, line⟩ := (Option.any_eq_true _ _).mp ended
  obtain ⟨_, hint, shown, _, label⟩ := (closer_labels _ 0).2.1 chain member closer ends
  refine ⟨chain, member, closer, ends, of_decide_eq_true line, ?_⟩
  rw [Encounter.label, shown, Option.map_some, Option.getD_some, label, of_decide_eq_true joined]

end Conditionals.Decoration
