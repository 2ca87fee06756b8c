import Conditionals.Proofs.Condition.Clean
import Conditionals.Proofs.Decoration.Encounter

/-!
# Names shown by the decoration scan

Conditions reach to the end of their line at most, so their names are clean, and a visit keeps the
names of all open chains clean and shows a clean label. The names of a path are labels that were shown
before. A frame holds the name that its chain got last, which makes the label of an `#else` the
opposite of the label it follows.
-/

namespace Conditionals

open Condition (Clean negate)

theorem Occurrence.findFrom_oneLine {offset : Nat} {seeking : Bool} {text : Text} {found : Occurrence}
    (member : found ∈ findFrom offset seeking text) : found.directive.condition.OneLine := by
  induction text generalizing offset seeking with
  | nil => cases member
  | cons c text ih =>
    simp only [findFrom] at member
    split at member
    · exact ih member
    split at member
    · cases read : Directive.read? text with
      | none =>
        simp only [read] at member
        exact ih member
      | some directive =>
        simp only [read] at member
        rcases List.mem_cons.mp member with rfl | member
        · constructor
          all_goals
            intro inside
            exact absurd (List.mem_takeWhile_imp inside) (by decide)
        · exact ih member
    · exact ih member

namespace Decoration

theorem locate_oneLine (text : Text) : ∀ located ∈ locate text, located.directive.condition.OneLine := by
  intro located member
  obtain ⟨found, listed, rfl⟩ := List.mem_map.mp member
  exact Occurrence.findFrom_oneLine listed

/-! ### Labels -/

theorem clean_prependName {name label : Text} (first : Clean name) (rest : Clean label) :
    Clean (prependName name label) := by
  unfold prependName
  split
  · exact first
  · exact first.join rest

theorem clean_collect {label : Text} {siblings : List Sibling} (start : Clean label)
    (clean : ∀ sibling ∈ siblings, Clean sibling.name) :
    Clean (collect label siblings).1 ∧ ∀ sibling ∈ (collect label siblings).2, Clean sibling.name := by
  induction siblings generalizing label with
  | nil => exact ⟨start, clean⟩
  | cons sibling earlier ih =>
    obtain ⟨first, others⟩ := List.forall_mem_cons.mp clean
    have joined := clean_prependName first start
    rw [collect]
    split
    · exact ⟨joined, others⟩
    · exact ih joined others

structure State.Clean (state : State) : Prop where
  frames : ∀ frame ∈ state.frames, Condition.Clean frame.name
  siblings : ∀ sibling ∈ state.siblings, Condition.Clean sibling.name

/-- A directive on clean chains leaves clean chains and shows a clean label. -/
theorem Visits.clean {state next : State} {located : Located} {step : Step} (visits : Visits state located step next)
    (line : located.directive.condition.OneLine) (clean : state.Clean) :
    next.Clean ∧ ∀ hint ∈ step.hint?, Condition.Clean hint.label := by
  obtain ⟨frames, siblings⟩ := clean
  cases visits with
  | skipped => exact ⟨⟨frames, siblings⟩, by simp [Step.hint?]⟩
  | opened _ _ named =>
    have label := (Condition.Clean.name line).openName located.directive.kind
    rw [← named] at label
    exact ⟨⟨List.forall_mem_cons.mpr ⟨label, frames⟩, List.forall_mem_cons.mpr ⟨label, siblings⟩⟩,
      by simpa [Step.hint?] using label⟩
  | branched _ _ named =>
    have label := Condition.Clean.name line
    rw [← named] at label
    exact ⟨⟨List.forall_mem_cons.mpr ⟨label, (List.forall_mem_cons.mp frames).2⟩,
      List.forall_mem_cons.mpr ⟨label, siblings⟩⟩, by simpa [Step.hint?] using label⟩
  | inverted _ _ named =>
    have label := (List.forall_mem_cons.mp frames).1.negate
    rw [← named] at label
    exact ⟨⟨frames, List.forall_mem_cons.mpr ⟨label, siblings⟩⟩, by simpa [Step.hint?] using label⟩
  | closed =>
    obtain ⟨label, others⟩ := clean_collect Condition.Clean.nil siblings
    exact ⟨⟨(List.forall_mem_cons.mp frames).2, others⟩, by simpa [Step.hint?] using label⟩
  | unmatched => exact ⟨⟨frames, siblings⟩, by simp [Step.hint?]⟩

theorem trace_clean {directives : List Located} (lines : ∀ located ∈ directives, located.directive.condition.OneLine) :
    (trace {} directives).state.Clean ∧
      ∀ hint ∈ (trace {} directives).steps.filterMap Step.hint?, Condition.Clean hint.label := by
  refine trace_induction (P := fun directives steps state =>
    (∀ located ∈ directives, located.directive.condition.OneLine) →
    state.Clean ∧ ∀ hint ∈ steps.filterMap Step.hint?, Condition.Clean hint.label)
    (fun _ => ⟨⟨by simp, by simp⟩, by simp⟩) ?_ directives lines
  intro directives steps state located step next visits kept lines
  obtain ⟨earlier, last⟩ := List.forall_mem_append.mp lines
  obtain ⟨clean, shown⟩ := kept earlier
  obtain ⟨cleanNext, label⟩ := visits.clean (last located List.mem_cons_self) clean
  refine ⟨cleanNext, ?_⟩
  rw [List.filterMap_append]
  refine List.forall_mem_append.mpr ⟨shown, ?_⟩
  intro hint member
  obtain ⟨step, single, given⟩ := List.mem_filterMap.mp member
  obtain rfl := List.mem_singleton.mp single
  exact label hint given

/-- A path holds labels that were shown. -/
theorem path_labels (directives : List Located) (reference : Nat) :
    ∀ name ∈ ((trace {} directives).pathAt reference).names,
      ∃ hint ∈ (trace {} directives).steps.filterMap Step.hint?, hint.label = name := by
  have kept : ∀ {hints : List Hint} {names : List Text} (hint : Hint),
      (∀ name ∈ names, ∃ hint ∈ hints, hint.label = name) →
      ∀ name ∈ names, ∃ other ∈ hints ++ [hint], other.label = name := by
    intro hints names hint labels name member
    obtain ⟨other, listed, same⟩ := labels name member
    exact ⟨other, List.mem_append_left _ listed, same⟩
  intro name member
  refine path_induction (P := fun _ hints names => ∀ name ∈ names, ∃ hint ∈ hints, hint.label = name) reference
    (by simp) ?_ ?_ ?_ ?_ directives name (List.mem_reverse.mpr member)
  · intro sites hints names site hint _ _ labels
    split
    · exact List.forall_mem_cons.mpr ⟨⟨hint, by simp, rfl⟩, kept hint labels⟩
    · exact kept hint labels
  · intro sites hints names site hint _ _ _ _ _ labels
    split
    · cases names with
      | nil => simp
      | cons innermost outer =>
        exact List.forall_mem_cons.mpr ⟨⟨hint, by simp, rfl⟩, kept hint (List.forall_mem_cons.mp labels).2⟩
    · exact kept hint labels
  · intro sites hints names site hint _ _ _ _ _ labels
    split
    · intro name inside
      exact kept hint labels name (List.mem_of_mem_tail inside)
    · exact kept hint labels
  · intro sites hints names site _ _ labels
    exact labels

/-! ### Opposites -/

/-- The frame of a chain has the label of the directive that named the chain last. -/
def Frame.Names (frame : Frame) (chain : Chain Encounter) : Prop :=
  frame.name = (chain.lastNamed Encounter.kind).label

section Step

variable {before : List Encounter} {state next : State} {located : Located} {step : Step}

theorem Visits.names (visits : Visits state located step next) (visible : located.commented = false)
    (names : List.Forall₂ Frame.Names state.frames (openChains before)) :
    List.Forall₂ Frame.Names next.frames (openChains (before ++ [{ index := before.length, located, step }])) := by
  cases visits with
  | skipped commented =>
    rw [visible] at commented
    cases commented
  | opened _ opens =>
    rw [openChains_opener (by exact opens)]
    exact .cons rfl names
  | branched _ kind =>
    have turns : located.directive.kind.role = .branch := congrArg Kind.role kind
    obtain ⟨chain, rest, _, others, found⟩ := List.forall₂_cons_left_iff.mp names
    rw [openChains_branch (by exact turns) found]
    refine .cons ?_ others
    simp [Frame.Names, Chain.lastNamed, Encounter.kind, kind, Encounter.label, Encounter.hint?, Step.hint?]
  | inverted _ kind =>
    have turns : located.directive.kind.role = .branch := congrArg Kind.role kind
    obtain ⟨chain, rest, top, others, found⟩ := List.forall₂_cons_left_iff.mp names
    rw [openChains_branch (by exact turns) found]
    refine .cons ?_ others
    simpa [Frame.Names, Chain.lastNamed, Encounter.kind, kind] using top
  | closed _ kind =>
    have closes : located.directive.kind.role = .closer := congrArg Kind.role kind
    obtain ⟨chain, rest, _, others, found⟩ := List.forall₂_cons_left_iff.mp names
    rw [openChains_closer (by exact closes) found]
    exact others
  | unmatched _ found other =>
    have joins : located.directive.kind.role ≠ .opener := found ▸ other
    rw [openChains_stray (by exact joins) (List.forall₂_nil_left_iff.mp names)]
    exact names

theorem Visits.inverts {chain : Chain Encounter} {rest : List (Chain Encounter)} (visits : Visits state located step next)
    (visible : located.commented = false) (kind : located.directive.kind = .otherwise)
    (names : List.Forall₂ Frame.Names state.frames (openChains before)) (found : openChains before = chain :: rest) :
    step.hint?.map Hint.label = some (negate (chain.lastNamed Encounter.kind).label) := by
  rw [found] at names
  cases visits with
  | skipped commented =>
    rw [visible] at commented
    cases commented
  | opened _ opens => simp [kind, Kind.role] at opens
  | branched _ other | closed _ other => simp [kind] at other
  | inverted _ _ named =>
    obtain ⟨top, _⟩ := List.forall₂_cons.mp names
    rw [named, top]
    rfl
  | unmatched => cases names

end Step

/-- Every `#else` of a chain shows the opposite of the label that named the chain before it. -/
def Inverts (chain : Chain Encounter) : Prop :=
  ∀ before turn after, chain.branches = before ++ turn :: after → turn.kind = .otherwise →
    turn.hint?.map Hint.label = some (negate (Chain.lastNamed Encounter.kind { chain with branches := before }).label)

theorem trace_inverts (directives : List Located) :
    List.Forall₂ Frame.Names (trace {} directives).state.frames (openChains (encountersOf directives)) ∧
    ∀ chain ∈ Chain.latestFirst Encounter.role (encountersOf directives), Inverts chain := by
  refine encountersOf_induction (P := fun encounters state =>
    List.Forall₂ Frame.Names state.frames (openChains encounters) ∧
    ∀ chain ∈ Chain.latestFirst Encounter.role encounters, Inverts chain)
    ⟨.nil, by simp [Chain.latestFirst]⟩ ?_ directives
  rintro before state located step next visits visible ⟨names, inverts⟩
  refine ⟨visits.names visible names, Chain.forall_concat inverts ?_ ?_ ?_⟩
  · intro _ earlier turn after split
    simp at split
  · intro chain rest _ found kept earlier turn after split kind
    rcases List.eq_nil_or_concat' after with rfl | ⟨later, last, rfl⟩
    · -- The new branch is the `#else`, and its chain is the innermost one.
      obtain ⟨rfl, rfl⟩ := List.append_singleton_inj.mp split
      exact visits.inverts visible kind names found
    · rw [← List.cons_append, ← List.append_assoc] at split
      exact kept earlier turn later (List.append_inj' split rfl).1 kind
  · intro chain rest _ _ kept
    exact kept

theorem emitted_clean (text : Text) (reference : Nat) : ∀ hint ∈ (decorate text reference).emitted, Clean hint.label :=
  (trace_clean (locate_oneLine text)).2

theorem mem_branches {chain : Chain Encounter} {turn : Encounter} (shaped : chain.Shaped Encounter.role)
    (member : turn ∈ chain.members) (branch : turn.role = .branch) : turn ∈ chain.branches := by
  rcases Chain.mem_turns_or_closer member with listed | closer
  · rcases List.mem_cons.mp listed with rfl | listed
    · rw [shaped.opener] at branch
      cases branch
    · exact listed
  · rw [shaped.closer turn closer] at branch
    cases branch

/-- The directive that named a chain last is one of those before the last branches. -/
theorem lastNamed_mem_turns (kind : Encounter → Kind) {chain : Chain Encounter} {before after : List Encounter}
    (split : chain.branches = before ++ after) :
    Chain.lastNamed kind { chain with branches := before } ∈ chain.turns := by
  have listed := List.getLastD_mem_cons (l := before.filter fun branch => kind branch ≠ .otherwise) (a := chain.opener)
  rcases List.mem_cons.mp listed with opener | branch
  · exact List.mem_cons.mpr (Or.inl opener)
  · refine List.mem_cons_of_mem _ ?_
    rw [split]
    exact List.mem_append_left _ (List.mem_of_mem_filter branch)

theorem negate_label {text : Text} {encounter : Encounter} {hint : Hint} (met : encounter ∈ encounters text)
    (kind : encounter.kind = .otherwise) (shown : encounter.hint? = some hint) :
    ∃ chain ∈ Chain.ofDirectives Encounter.role (encounters text), ∃ before after,
      chain.branches = before ++ encounter :: after ∧
      ∃ named, (Chain.lastNamed Encounter.kind { chain with branches := before }).hint? = some named ∧
        negate hint.label = named.label := by
  obtain ⟨chain, present, member⟩ := mem_members_iff.mpr ⟨met, by simp [shown]⟩
  have shaped := Chain.latestFirst_shaped _ _ chain present
  obtain ⟨before, after, split⟩ := List.append_of_mem (mem_branches shaped member (congrArg Kind.role kind))
  refine ⟨chain, List.mem_reverse.mpr present, before, after, split, ?_⟩
  have listed : Chain.lastNamed Encounter.kind { chain with branches := before } ∈ chain.members :=
    List.mem_append_left _ (lastNamed_mem_turns _ split)
  obtain ⟨named, given, _⟩ := chain_hints (locate text) chain present _ listed
  refine ⟨named, given, ?_⟩
  have label := (trace_inverts (locate text)).2 chain present before encounter after split kind
  rw [shown, Encounter.label, given] at label
  obtain same : hint.label = negate named.label := Option.some.inj label
  have emitted : named ∈ (decorate text 0).emitted := by
    rw [emitted_encounters]
    exact List.mem_filterMap.mpr ⟨_, (mem_members_iff.mp ⟨chain, present, listed⟩).1, given⟩
  rw [same, (emitted_clean text 0 named emitted).negate_negate]

/-- What the scan shows is clean and stays on one line, and the label of an `#else` is the opposite of the label
on the latest directive of its chain that brought a condition. -/
theorem shown_names_clean (text : Text) (reference : Nat) :
    (∀ hints ∈ (decorate text reference).bands, ∀ hint ∈ hints,
      Clean hint.label ∧ Text.OneLine hint.rendered.toList) ∧
    (∀ name ∈ (decorate text reference).path.names, Clean name) ∧
    Text.OneLine (decorate text reference).status.toList ∧
    (decorate text reference).emitted = (encounters text).filterMap Encounter.hint? ∧
    ∀ encounter ∈ encounters text, encounter.kind = .otherwise → ∀ hint, encounter.hint? = some hint →
      ∃ chain ∈ Chain.ofDirectives Encounter.role (encounters text), ∃ before after,
        chain.branches = before ++ encounter :: after ∧
        ∃ named, (Chain.lastNamed Encounter.kind { chain with branches := before }).hint? = some named ∧
          negate hint.label = named.label := by
  have labels := emitted_clean text reference
  have path : ∀ name ∈ (decorate text reference).path.names, Clean name := by
    intro name member
    obtain ⟨hint, given, rfl⟩ := path_labels (locate text) reference name member
    exact labels hint given
  refine ⟨?_, path, Text.OneLine.status fun name member => (path name member).line,
    emitted_encounters text reference, fun encounter met kind hint shown => negate_label met kind shown⟩
  intro hints listed hint member
  obtain ⟨band, _, rfl⟩ := List.mem_map.mp listed
  have clean := labels hint (List.mem_of_mem_filter member)
  refine ⟨clean, ?_⟩
  rw [Hint.rendered, String.toList_append, String.toList_ofList (l := hint.label)]
  exact Text.OneLine.append (by decide) clean.line

/-- An `#else` takes back the `!` of the branch it follows, whatever is nested in between. -/
theorem shown_names_clean_nested :
    ∃ encounter ∈ encounters "#if A\n#elif !(!!B) // c\n#ifdef D\n#else\n#endif\n#else\n#endif".toList,
      encounter.line = 5 ∧ encounter.label = "B".toList ∧
      ∃ chain ∈ Chain.ofDirectives Encounter.role
        (encounters "#if A\n#elif !(!!B) // c\n#ifdef D\n#else\n#endif\n#else\n#endif".toList),
      ∃ before after, chain.branches = before ++ encounter :: after ∧
      ∃ named, (Chain.lastNamed Encounter.kind { chain with branches := before }).hint? = some named ∧
        named.label = "!B".toList := by
  have found : (encounters "#if A\n#elif !(!!B) // c\n#ifdef D\n#else\n#endif\n#else\n#endif".toList).any
      (fun encounter => encounter.line = 5 && encounter.kind = .otherwise &&
        encounter.hint?.any fun hint => hint.label = "B".toList) = true := by
    decide +kernel
  obtain ⟨encounter, met, holds⟩ := List.any_eq_true.mp found
  simp only [Bool.and_eq_true, decide_eq_true_eq, Option.any_eq_true] at holds
  obtain ⟨⟨line, kind⟩, hint, shown, label⟩ := holds
  obtain ⟨_, _, _, _, opposites⟩ :=
    shown_names_clean "#if A\n#elif !(!!B) // c\n#ifdef D\n#else\n#endif\n#else\n#endif".toList 0
  obtain ⟨chain, listed, before, after, split, named, given, opposite⟩ := opposites encounter met kind hint shown
  rw [label] at opposite
  refine ⟨encounter, met, line, ?_, chain, listed, before, after, split, named, given, opposite.symm⟩
  rw [Encounter.label, shown, ← label]
  rfl

end Decoration
end Conditionals
