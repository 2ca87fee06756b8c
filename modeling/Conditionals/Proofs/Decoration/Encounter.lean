import Conditionals.Proofs.Chain.Members
import Conditionals.Proofs.Decoration.Path
import Mathlib.Data.List.DropRight

/-!
# Directives met by the decoration scan

An encounter is a directive outside comments with the step it made. `Tracked` ties the state of
the scan to the chains of the encounters so far: there is a frame for each open chain, and the
siblings are one segment per open chain. `Joins` then tells what a directive does from the chains
alone, without frames and siblings, and `encounter_induction` is all that later proofs need.
-/

namespace Conditionals.Decoration

/-- A directive outside comments: its place among them, and what it did. -/
structure Encounter where
  index : Nat
  located : Located
  step : Step
  deriving DecidableEq, Repr

namespace Encounter

def line (encounter : Encounter) : Nat := encounter.located.line

def kind (encounter : Encounter) : Kind := encounter.located.directive.kind

def role (encounter : Encounter) : Role := encounter.kind.role

def site (encounter : Encounter) : Site := encounter.located.site

def hint? (encounter : Encounter) : Option Hint := encounter.step.hint?

def diagnostic? (encounter : Encounter) : Option Diagnostic := encounter.step.diagnostic?

/-- The label shown for the directive, empty when none is shown. -/
def label (encounter : Encounter) : Text := (encounter.hint?.map Hint.label).getD []

def band? (encounter : Encounter) : Option Nat := encounter.hint?.map Hint.band

/-- The entry of the directive in the names of the open chains. -/
def sibling (encounter : Encounter) : Sibling := { name := encounter.label, kind := encounter.kind }

end Encounter

/-- Puts directives beside the steps they made, and leaves out those on comment lines. -/
def encountersOf (directives : List Located) : List Encounter :=
  ((directives.zip (trace {} directives).steps).filter fun met => !met.1.commented).mapIdx fun index met =>
    { index, located := met.1, step := met.2 }

def encounters (text : Text) : List Encounter :=
  encountersOf (locate text)

theorem trace_length (state : State) (directives : List Located) :
    (trace state directives).steps.length = directives.length := by
  simpa using congrArg List.length (trace_lines state directives)

theorem encountersOf_commented {located : Located} (commented : located.commented = true) (directives : List Located) :
    encountersOf (directives ++ [located]) = encountersOf directives := by
  unfold encountersOf
  rw [trace_append, List.zip_append (trace_length {} directives).symm]
  simp [trace, commented]

theorem encountersOf_visible {located : Located} (visible : located.commented = false) (directives : List Located) :
    encountersOf (directives ++ [located]) = encountersOf directives ++
      [{ index := (encountersOf directives).length, located, step := ((trace {} directives).state.visit located).1 }] := by
  unfold encountersOf
  rw [trace_append, List.zip_append (trace_length {} directives).symm]
  simp [trace, visible]

theorem encountersOf_located (directives : List Located) :
    (encountersOf directives).map Encounter.located = directives.filter fun located => !located.commented := by
  induction directives using List.reverseRecOn with
  | nil => rfl
  | append_singleton directives located ih =>
    cases commented : located.commented with
    | true => simp [encountersOf_commented commented, ih, commented]
    | false => simp [encountersOf_visible commented, ih, commented]

/-- Each directive outside comments is met once, in the order of the search. -/
theorem encounters_located (text : Text) :
    (encounters text).map Encounter.located = (uncommented text).map fun occurrence =>
      { line := (LineTable.ofText text).lineOf occurrence.offset
        commented := false
        directive := occurrence.directive } :=
  (encountersOf_located _).trans (locate_uncommented text)

theorem encountersOf_sites (directives : List Located) : (encountersOf directives).map Encounter.site = sitesOf directives := by
  rw [sitesOf, ← encountersOf_located, List.map_map]
  rfl

/-- What steps show is shown by encounters, when skipped directives show nothing. -/
theorem encountersOf_filterMap {γ : Type} {observe : Step → Option γ}
    (silent : ∀ line frames, observe { line, act := .skipped, frames } = none) (directives : List Located) :
    (encountersOf directives).filterMap (fun encounter => observe encounter.step) =
      (trace {} directives).steps.filterMap observe := by
  induction directives using List.reverseRecOn with
  | nil => rfl
  | append_singleton directives located ih =>
    rw [trace_append, List.filterMap_append, ← ih]
    cases commented : located.commented with
    | true =>
      rw [encountersOf_commented commented]
      simp [trace, State.visit, commented, silent]
    | false =>
      rw [encountersOf_visible commented, List.filterMap_append]
      rfl

/-- The chains that have not ended after some encounters, the innermost first. -/
def openChains (encounters : List Encounter) : List (Chain Encounter) :=
  Chain.pending (Chain.latestFirst Encounter.role encounters)

/-! ### Labels of one chain -/

/-- Labels joined by `&`. Empty labels at the end are left out. -/
def combine (labels : List Text) : Text :=
  [' ', '&', ' '].intercalate (labels.rdropWhile fun label => label = [])

theorem prependName_eq_nil_iff {name label : Text} : prependName name label = [] ↔ name = [] ∧ label = [] := by
  unfold prependName
  split <;> simp [*]

theorem foldr_prependName_eq_nil_iff {labels : List Text} :
    labels.foldr prependName [] = [] ↔ ∀ label ∈ labels, label = [] := by
  induction labels with
  | nil => simp
  | cons label labels ih => rw [List.foldr_cons, prependName_eq_nil_iff, ih, List.forall_mem_cons]

/-- Joining from the back drops the empty labels it starts with and keeps those it meets later. -/
theorem combine_eq_foldr (labels : List Text) : combine labels = labels.foldr prependName [] := by
  induction labels with
  | nil => rfl
  | cons label labels ih =>
    rw [List.foldr_cons, ← ih]
    unfold combine
    rw [List.rdropWhile, List.reverse_cons, List.dropWhile_append]
    -- Whether an empty label in front survives depends on a name behind it.
    by_cases empty : ∀ other ∈ labels, other = []
    · have none : labels.rdropWhile (fun other => other = []) = [] := by simpa using empty
      have dropped : labels.reverse.dropWhile (fun other => other = []) = [] := by simpa using empty
      rw [none, dropped]
      by_cases blank : label = [] <;> simp [blank, prependName]
    · have named : combine labels ≠ [] := by rwa [ih, ne_eq, foldr_prependName_eq_nil_iff]
      have kept : labels.rdropWhile (fun other => other = []) ≠ [] := by simpa using empty
      rw [if_neg (by simpa using empty), List.reverse_concat, ← List.rdropWhile, List.intercalate_cons_of_ne_nil kept,
        prependName, ← combine, if_neg named]
      simp

theorem collect_branches {siblings : List Sibling} (branches : ∀ sibling ∈ siblings, sibling.kind.role = .branch)
    (label : Text) (earlier : List Sibling) :
    collect label (siblings.reverse ++ earlier) =
      collect ((siblings.map Sibling.name).foldr prependName label) earlier := by
  induction siblings using List.reverseRecOn generalizing label with
  | nil => rfl
  | append_singleton siblings sibling ih =>
    obtain ⟨others, last⟩ := List.forall_mem_append.mp branches
    have branch := last sibling List.mem_cons_self
    rw [List.reverse_concat, List.cons_append, collect, if_neg (by simp [Kind.isOpener, branch]), ih others,
      List.map_append, List.foldr_append]
    rfl

/-- The entries of an open chain among the siblings, the latest first. -/
def history (chain : Chain Encounter) : List Sibling :=
  (chain.turns.map Encounter.sibling).reverse

theorem history_branch (chain : Chain Encounter) (branch : Encounter) :
    history { chain with branches := chain.branches ++ [branch] } = branch.sibling :: history chain := by
  simp [history, Chain.turns]

/-- A closer takes the entries of its own chain and leaves the others. -/
theorem collect_history {chain : Chain Encounter} (shaped : chain.Shaped Encounter.role) (earlier : List Sibling) :
    collect [] (history chain ++ earlier) = (combine (chain.turns.map Encounter.label), earlier) := by
  have branches : ∀ sibling ∈ chain.branches.map Encounter.sibling, sibling.kind.role = .branch := by
    intro sibling member
    obtain ⟨branch, listed, rfl⟩ := List.mem_map.mp member
    exact shaped.branches branch listed
  have opener : chain.opener.sibling.kind.isOpener = true := decide_eq_true shaped.opener
  rw [history, Chain.turns, List.map_cons, List.reverse_cons, List.append_assoc, collect_branches branches,
    List.singleton_append, collect, if_pos opener, combine_eq_foldr, List.map_map]
  rfl

/-! ### The state of a scan and its chains -/

/-- A frame belongs to a chain. -/
structure Frame.Heads (frame : Frame) (chain : Chain Encounter) : Prop where
  named : { line := frame.line, kind := frame.kind } = (chain.lastNamed Encounter.kind).site
  band : chain.opener.band? = some (frame.level % bandCount)

structure Tracked (encounters : List Encounter) (state : State) : Prop where
  frames : List.Forall₂ Frame.Heads state.frames (openChains encounters)
  siblings : state.siblings = (openChains encounters).flatMap history

/-- What a directive does, told from the chains of those before it. -/
inductive Joins (before : List Encounter) (encounter : Encounter) : Prop where
  | opener (role : encounter.role = .opener) (label : Text)
      (hint : encounter.hint? =
        some { line := encounter.line, band := (openChains before).length % bandCount, label })
  | branch (role : encounter.role = .branch) (chain : Chain Encounter) (outer : List (Chain Encounter))
      (found : openChains before = chain :: outer) (band : Nat) (same : chain.opener.band? = some band) (label : Text)
      (hint : encounter.hint? = some { line := encounter.line, band, label })
  | closer (role : encounter.role = .closer) (chain : Chain Encounter) (outer : List (Chain Encounter))
      (found : openChains before = chain :: outer) (band : Nat) (same : chain.opener.band? = some band)
      (hint : encounter.hint? =
        some { line := encounter.line, band, label := combine (chain.turns.map Encounter.label) })
  | stray (role : encounter.role ≠ .opener) (none : openChains before = [])
      (diagnostic : encounter.diagnostic? =
        some { fault := .unmatched, line := encounter.line, kind := encounter.kind })

namespace Joins

variable {before : List Encounter} {encounter : Encounter} {chain : Chain Encounter} {outer : List (Chain Encounter)}

theorem opened (joins : Joins before encounter) (opens : encounter.role = .opener) :
    ∃ label, encounter.hint? =
      some { line := encounter.line, band := (openChains before).length % bandCount, label } := by
  cases joins with
  | opener _ label hint => exact ⟨label, hint⟩
  | branch role | closer role | stray role => simp [opens] at role

theorem inside (joins : Joins before encounter) (other : encounter.role ≠ .opener)
    (found : openChains before = chain :: outer) :
    ∃ hint, encounter.hint? = some hint ∧ hint.line = encounter.line ∧ chain.opener.band? = some hint.band := by
  cases joins with
  | opener opens => exact absurd opens other
  | branch _ innermost _ listed _ same _ hint | closer _ innermost _ listed _ same hint =>
    rw [found] at listed
    cases listed
    exact ⟨_, hint, rfl, same⟩
  | stray _ none =>
    rw [found] at none
    cases none

theorem closed (joins : Joins before encounter) (closes : encounter.role = .closer)
    (found : openChains before = chain :: outer) :
    encounter.hint?.map Hint.label = some (combine (chain.turns.map Encounter.label)) := by
  cases joins with
  | closer _ innermost _ listed _ same hint =>
    rw [found] at listed
    cases listed
    rw [hint]
    rfl
  | stray _ none =>
    rw [found] at none
    cases none
  | opener role | branch role => simp [closes] at role

/-- A directive joins a chain and shows a hint, or finds none and is reported. -/
theorem shown_or_reported (joins : Joins before encounter) :
    (encounter.role = .opener ∨ openChains before ≠ []) ∧ encounter.diagnostic? = none ∧
      (∃ hint, encounter.hint? = some hint ∧ hint.line = encounter.line) ∨
    (encounter.role ≠ .opener ∧ openChains before = []) ∧ encounter.hint? = none ∧
      encounter.diagnostic? = some { fault := .unmatched, line := encounter.line, kind := encounter.kind } := by
  have silent : ∀ hint, encounter.hint? = some hint → encounter.diagnostic? = none := by
    intro hint shown
    refine Option.eq_none_iff_forall_ne_some.mpr fun diagnostic reported => ?_
    have hidden : encounter.hint? = none := Step.hint?_of_diagnostic? reported
    rw [shown] at hidden
    cases hidden
  cases joins with
  | opener role _ hint => exact Or.inl ⟨Or.inl role, silent _ hint, _, hint, rfl⟩
  | branch _ _ _ found _ _ _ hint | closer _ _ _ found _ _ hint =>
    exact Or.inl ⟨Or.inr (by simp [found]), silent _ hint, _, hint, rfl⟩
  | stray role none diagnostic => exact Or.inr ⟨⟨role, none⟩, Step.hint?_of_diagnostic? diagnostic, diagnostic⟩

end Joins

section Step

variable {before : List Encounter} {encounter : Encounter} {chain : Chain Encounter} {rest : List (Chain Encounter)}

theorem openChains_opener (opens : encounter.role = .opener) :
    openChains (before ++ [encounter]) = { opener := encounter } :: openChains before :=
  Chain.pending_opener opens

theorem openChains_branch (turns : encounter.role = .branch) (found : openChains before = chain :: rest) :
    openChains (before ++ [encounter]) = { chain with branches := chain.branches ++ [encounter] } :: rest :=
  Chain.pending_branch turns found

theorem openChains_closer (closes : encounter.role = .closer) (found : openChains before = chain :: rest) :
    openChains (before ++ [encounter]) = rest :=
  Chain.pending_closer closes found

theorem openChains_stray (other : encounter.role ≠ .opener) (none : openChains before = []) :
    openChains (before ++ [encounter]) = openChains before :=
  congrArg Chain.pending (Chain.latestFirst_stray other none)

theorem openChains_shaped (found : openChains before = chain :: rest) : chain.Shaped Encounter.role :=
  Chain.latestFirst_shaped _ _ chain (Chain.mem_of_pending found)

namespace Tracked

variable {frame : Frame} {frames outer : List Frame} {siblings : List Sibling}

theorem opener (tracked : Tracked before { frames, siblings }) (opens : encounter.role = .opener)
    (heads : frame.Heads { opener := encounter }) :
    Tracked (before ++ [encounter]) { frames := frame :: frames, siblings := encounter.sibling :: siblings } := by
  constructor
  · rw [openChains_opener opens]
    exact .cons heads tracked.frames
  · rw [openChains_opener opens, List.flatMap_cons, ← tracked.siblings]
    rfl

theorem branch {turned : Frame} {sibling : Sibling} (tracked : Tracked before { frames := frame :: outer, siblings })
    (turns : encounter.role = .branch) (entry : sibling = encounter.sibling)
    (heads : ∀ chain, frame.Heads chain → turned.Heads { chain with branches := chain.branches ++ [encounter] }) :
    Tracked (before ++ [encounter]) { frames := turned :: outer, siblings := sibling :: siblings } := by
  obtain ⟨chain, rest, top, others, found⟩ := List.forall₂_cons_left_iff.mp tracked.frames
  constructor
  · rw [openChains_branch turns found]
    exact .cons (heads chain top) others
  · rw [openChains_branch turns found, List.flatMap_cons, history_branch, List.cons_append, ← List.flatMap_cons,
      ← found, ← tracked.siblings, entry]

/-- The innermost chain has the top frame, and its entries come first. -/
theorem innermost (tracked : Tracked before { frames := frame :: outer, siblings }) :
    ∃ chain rest, openChains before = chain :: rest ∧ frame.Heads chain ∧
      collect [] siblings = (combine (chain.turns.map Encounter.label), rest.flatMap history) := by
  obtain ⟨chain, rest, heads, _, found⟩ := List.forall₂_cons_left_iff.mp tracked.frames
  refine ⟨chain, rest, found, heads, ?_⟩
  have entries : siblings = (openChains before).flatMap history := tracked.siblings
  rw [entries, found, List.flatMap_cons]
  exact collect_history (openChains_shaped found) _

theorem closer (tracked : Tracked before { frames := frame :: outer, siblings }) (closes : encounter.role = .closer) :
    Tracked (before ++ [encounter]) { frames := outer, siblings := (collect [] siblings).2 } := by
  obtain ⟨chain, rest, found, _, collected⟩ := tracked.innermost
  have heads := tracked.frames
  rw [found] at heads
  constructor
  · rw [openChains_closer closes found]
    exact (List.forall₂_cons.mp heads).2
  · rw [openChains_closer closes found, collected]

theorem stray (tracked : Tracked before { frames := [], siblings }) (other : encounter.role ≠ .opener) :
    Tracked (before ++ [encounter]) { frames := [], siblings } := by
  have none := List.forall₂_nil_left_iff.mp tracked.frames
  constructor
  · rw [openChains_stray other none]
    exact tracked.frames
  · rw [openChains_stray other none]
    exact tracked.siblings

theorem visit {state next : State} {located : Located} {step : Step} (tracked : Tracked before state)
    (visits : Visits state located step next) (visible : located.commented = false) :
    Joins before { index := before.length, located, step } ∧
    Tracked (before ++ [{ index := before.length, located, step }]) next := by
  cases visits with
  | skipped commented =>
    rw [visible] at commented
    cases commented
  | @opened _ _ _ name _ opens =>
    refine ⟨.opener opens name ?_, tracked.opener opens ⟨rfl, rfl⟩⟩
    rw [← tracked.frames.length_eq]
    rfl
  | @branched _ _ _ _ name _ kind =>
    have turns : located.directive.kind.role = .branch := congrArg Kind.role kind
    obtain ⟨chain, rest, found, heads, _⟩ := tracked.innermost
    refine ⟨.branch turns chain rest found _ heads.band name rfl, tracked.branch turns ?_ ?_⟩
    · rw [← kind]
      rfl
    · intro chain heads
      refine ⟨?_, heads.band⟩
      simp [Chain.lastNamed, Encounter.kind, Encounter.site, Located.site, kind]
  | @inverted _ _ _ _ label _ kind =>
    have turns : located.directive.kind.role = .branch := congrArg Kind.role kind
    obtain ⟨chain, rest, found, heads, _⟩ := tracked.innermost
    refine ⟨.branch turns chain rest found _ heads.band label rfl, tracked.branch turns ?_ ?_⟩
    · rw [← kind]
      rfl
    · intro chain heads
      refine ⟨?_, heads.band⟩
      simpa [Chain.lastNamed, Encounter.kind, kind] using heads.named
  | closed _ kind =>
    have closes : located.directive.kind.role = .closer := congrArg Kind.role kind
    obtain ⟨chain, rest, found, heads, collected⟩ := tracked.innermost
    refine ⟨.closer closes chain rest found _ heads.band ?_, tracked.closer closes⟩
    rw [Encounter.hint?, Step.hint?, collected]
    rfl
  | unmatched _ found other =>
    have joins : located.directive.kind.role ≠ .opener := found ▸ other
    refine ⟨.stray joins (List.forall₂_nil_left_iff.mp tracked.frames) ?_, tracked.stray joins⟩
    rw [Encounter.diagnostic?, Step.diagnostic?, ← found]
    rfl

end Tracked
end Step

/-! ### Runs -/

/-- A property of the encounters and of the state holds of every scan when it holds at the start and a
visit outside comments keeps it. -/
theorem encountersOf_induction {P : List Encounter → State → Prop} (start : P [] {})
    (visit : ∀ before state located step next, Visits state located step next → located.commented = false →
      P before state → P (before ++ [{ index := before.length, located, step }]) next)
    (directives : List Located) : P (encountersOf directives) (trace {} directives).state := by
  induction directives using List.reverseRecOn with
  | nil => exact start
  | append_singleton directives located ih =>
    rw [trace_append]
    cases commented : located.commented with
    | true =>
      rw [encountersOf_commented commented]
      simpa [trace, State.visit, commented] using ih
    | false =>
      rw [encountersOf_visible commented]
      exact visit _ _ located _ _ (visit_visits _ located) commented ih

theorem trace_tracked (directives : List Located) : Tracked (encountersOf directives) (trace {} directives).state := by
  refine encountersOf_induction ⟨.nil, rfl⟩ ?_ directives
  intro before state located step next visits visible tracked
  exact (tracked.visit visits visible).2

/-- A property of encounters holds of every scan when each directive that joins the chains so far
keeps it. -/
theorem encounter_induction {P : List Encounter → Prop} (start : P [])
    (meet : ∀ before encounter, encounter.index = before.length → Joins before encounter → P before →
      P (before ++ [encounter]))
    (directives : List Located) : P (encountersOf directives) := by
  suffices kept : Tracked (encountersOf directives) (trace {} directives).state ∧ P (encountersOf directives) from kept.2
  refine encountersOf_induction (P := fun encounters state => Tracked encounters state ∧ P encounters)
    ⟨⟨.nil, rfl⟩, start⟩ ?_ directives
  rintro before state located step next visits visible ⟨tracked, kept⟩
  obtain ⟨joins, tracked⟩ := tracked.visit visits visible
  exact ⟨tracked, meet _ _ rfl joins kept⟩

theorem encounter_joins (directives : List Located) : ∀ encounter ∈ encountersOf directives,
    encounter.index < (encountersOf directives).length ∧
      Joins ((encountersOf directives).take encounter.index) encounter := by
  refine encounter_induction (P := fun encounters => ∀ encounter ∈ encounters,
    encounter.index < encounters.length ∧ Joins (encounters.take encounter.index) encounter) (by simp) ?_ directives
  intro before encounter place joins kept other member
  rw [List.length_append, List.length_singleton]
  rcases List.mem_append.mp member with old | new
  · obtain ⟨inside, joined⟩ := kept other old
    rw [List.take_append_of_le_length (Nat.le_of_lt inside)]
    exact ⟨by omega, joined⟩
  · obtain rfl := List.mem_singleton.mp new
    rw [place, List.take_left]
    exact ⟨by omega, joins⟩

/-- A property of chains holds of every scan when it holds of a chain that opens, and a branch or a
closer of the innermost chain keeps it. -/
theorem chain_induction {Q : Chain Encounter → Prop}
    (opener : ∀ before encounter, Joins before encounter → encounter.role = .opener → Q { opener := encounter })
    (branch : ∀ before encounter chain rest, Joins before encounter → encounter.role = .branch →
      openChains before = chain :: rest → Q chain → Q { chain with branches := chain.branches ++ [encounter] })
    (closer : ∀ before encounter chain rest, Joins before encounter → encounter.role = .closer →
      openChains before = chain :: rest → Q chain → Q { chain with closer := some encounter })
    (directives : List Located) : ∀ chain ∈ Chain.latestFirst Encounter.role (encountersOf directives), Q chain := by
  refine encounter_induction (P := fun encounters => ∀ chain ∈ Chain.latestFirst Encounter.role encounters, Q chain)
    (by simp [Chain.latestFirst]) ?_ directives
  intro before encounter _ joins kept
  apply Chain.forall_concat kept
  · exact opener before encounter joins
  · intro chain rest
    exact branch before encounter chain rest joins
  · intro chain rest
    exact closer before encounter chain rest joins

/-! ### What a scan reports -/

theorem emitted_encounters (text : Text) (reference : Nat) :
    (decorate text reference).emitted = (encounters text).filterMap Encounter.hint? :=
  (encountersOf_filterMap (fun _ _ => rfl) (locate text)).symm

theorem diagnostics_encounters (text : Text) (reference : Nat) :
    (decorate text reference).diagnostics =
      (encounters text).filterMap Encounter.diagnostic? ++ (traceOf text).state.frames.map Frame.diagnostic :=
  congrArg (· ++ _) (encountersOf_filterMap (fun _ _ => rfl) (locate text)).symm

/-! ### Hints of one chain -/

/-- Every directive of a chain shows a hint, in the band of its opener. -/
theorem chain_hints (directives : List Located) :
    ∀ chain ∈ Chain.latestFirst Encounter.role (encountersOf directives), ∀ member ∈ chain.members,
      ∃ hint, member.hint? = some hint ∧ hint.line = member.line ∧ chain.opener.band? = some hint.band := by
  refine chain_induction ?_ ?_ ?_ directives
  · intro before encounter joins opens member listed
    obtain ⟨label, hint⟩ := joins.opened opens
    obtain rfl := List.mem_singleton.mp listed
    refine ⟨_, hint, rfl, ?_⟩
    rw [Encounter.band?, hint]
    rfl
  · intro before encounter chain rest joins turns found shown
    have added := joins.inside (by simp [turns]) found
    rw [Chain.members_branch found]
    exact List.forall_mem_append.mpr ⟨shown, List.forall_mem_singleton.mpr added⟩
  · intro before encounter chain rest joins closes found shown
    have added := joins.inside (by simp [closes]) found
    rw [Chain.members_closer found]
    exact List.forall_mem_append.mpr ⟨shown, List.forall_mem_singleton.mpr added⟩

/-- The directives of all chains are, each once, those that show a hint. -/
theorem members_perm (directives : List Located) :
    ((Chain.latestFirst Encounter.role (encountersOf directives)).flatMap Chain.members).Perm
      ((encountersOf directives).filter fun encounter => encounter.hint?.isSome) := by
  refine encounter_induction (P := fun encounters =>
    ((Chain.latestFirst Encounter.role encounters).flatMap Chain.members).Perm
      (encounters.filter fun encounter => encounter.hint?.isSome)) .nil ?_ directives
  intro before encounter _ joins kept
  rw [List.filter_append]
  rcases joins.shown_or_reported with ⟨joined, _, hint, shown, _⟩ | ⟨⟨other, none⟩, hidden, _⟩
  · rw [List.filter_cons_of_pos (by simp [shown])]
    exact (Chain.members_concat joined).trans (kept.append_right _)
  · rw [Chain.latestFirst_stray other none, List.filter_cons_of_neg (by simp [hidden])]
    simpa using kept

theorem mem_members_iff {directives : List Located} {encounter : Encounter} :
    (∃ chain ∈ Chain.latestFirst Encounter.role (encountersOf directives), encounter ∈ chain.members) ↔
      encounter ∈ encountersOf directives ∧ encounter.hint?.isSome := by
  rw [← List.mem_flatMap, (members_perm directives).mem_iff, List.mem_filter]

end Conditionals.Decoration
