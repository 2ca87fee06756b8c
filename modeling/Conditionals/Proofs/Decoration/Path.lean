import Conditionals.Proofs.Chain
import Conditionals.Proofs.Decoration.Hints
import Conditionals.Proofs.Decoration.Trace
import Conditionals.Proofs.Occurrence.Lines

/-!
# The active path and its chains

The path of a line is built on the way through all directives of a text, those below the line
included. `path_induction` follows it next to the directives met and the hints given. The frames
only serve to tell whether a directive finds a chain. From that, `path_length` counts the path and
`path_trail` names it; `path_through_chains` states both for the chains of a text.
-/

namespace Conditionals

namespace ActivePath

theorem reverse_push (path : ActivePath) (name : Text) : (path.push name).names.reverse = name :: path.names.reverse :=
  List.reverse_concat ..

theorem reverse_pop (path : ActivePath) : path.pop.names.reverse = path.names.reverse.tail :=
  List.tail_reverse.symm

theorem reverse_replaceLast (path : ActivePath) (name : Text) :
    (path.replaceLast name).names.reverse = path.names.reverse.modifyHead fun _ => name := by
  unfold replaceLast
  split
  · rename_i empty
    simp [empty]
  · rename_i nonempty
    have split := List.dropLast_append_getLast nonempty
    rw [List.reverse_concat, ← split, List.reverse_concat, List.dropLast_concat]
    rfl

end ActivePath

namespace Decoration

def Located.site (located : Located) : Site :=
  { line := located.line, kind := located.directive.kind }

/-- Where directives stand that are not on comment lines. -/
def sitesOf (directives : List Located) : List Site :=
  (directives.filter fun located => !located.commented).map Located.site

/-- Where the directives of a text stand, those on comment lines left out. -/
def sites (text : Text) : List Site :=
  sitesOf (locate text)

/-- The directives that the search finds outside comment lines. -/
def uncommented (text : Text) : List Occurrence :=
  let table := LineTable.ofText text
  (occurrences text).filter fun occurrence => !(table.text? (table.lineOf occurrence.offset)).any isComment

theorem locate_uncommented (text : Text) :
    (locate text).filter (fun located => !located.commented) = (uncommented text).map fun occurrence =>
      { line := (LineTable.ofText text).lineOf occurrence.offset
        commented := false
        directive := occurrence.directive } := by
  unfold locate uncommented
  rw [List.filter_map]
  refine List.map_congr_left fun occurrence found => ?_
  have plain : ((LineTable.ofText text).text? ((LineTable.ofText text).lineOf occurrence.offset)).any isComment =
      false := by
    simpa using (List.mem_filter.mp found).2
  simp only [plain]

/-- Each directive outside comments stands on the line of its hash. -/
theorem sites_eq (text : Text) :
    sites text = (uncommented text).map fun occurrence =>
      { line := (LineTable.ofText text).lineOf occurrence.offset, kind := occurrence.directive.kind } := by
  rw [sites, sitesOf, locate_uncommented, List.map_map]
  rfl

theorem sitesOf_concat_commented {located : Located} (commented : located.commented = true)
    (directives : List Located) : sitesOf (directives ++ [located]) = sitesOf directives := by
  simp [sitesOf, commented]

theorem sitesOf_concat_visible {located : Located} (visible : located.commented = false)
    (directives : List Located) : sitesOf (directives ++ [located]) = sitesOf directives ++ [located.site] := by
  simp [sitesOf, visible]

section Follow

variable {step : Step} (reference : Nat) (path : ActivePath)

theorem follow_opened {kind : Kind} {name : Text} {level : Nat} (opened : step.act = .opened kind name level) :
    (step.follow reference path).names.reverse =
      if step.line ≤ reference then name :: path.names.reverse else path.names.reverse := by
  simp only [Step.follow, opened]
  split
  · exact path.reverse_push name
  · rfl

theorem follow_turned {label : Text} {level : Nat}
    (turned : step.act = .branched label level ∨ step.act = .inverted label level) :
    (step.follow reference path).names.reverse =
      if step.line ≤ reference then path.names.reverse.modifyHead fun _ => label else path.names.reverse := by
  have replaced : step.follow reference path = if step.line ≤ reference then path.replaceLast label else path := by
    rcases turned with act | act <;> simp only [Step.follow, act]
  rw [replaced]
  split
  · exact path.reverse_replaceLast label
  · rfl

theorem follow_closed {label : Text} {frame : Frame} (closed : step.act = .closed label frame) :
    (step.follow reference path).names.reverse =
      if step.line < reference then path.names.reverse.tail else path.names.reverse := by
  simp only [Step.follow, closed]
  split
  · exact path.reverse_pop
  · rfl

end Follow

/-- A property of the directives met, the hints given and the names around a line, the innermost
first, holds of every trace when it holds at the start and all that a directive can do keeps it. -/
theorem path_induction {P : List Site → List Hint → List Text → Prop} (reference : Nat) (start : P [] [] [])
    (opener : ∀ sites hints names (site : Site) (hint : Hint), site.role = .opener → hint.line = site.line →
      P sites hints names →
      P (sites ++ [site]) (hints ++ [hint]) (if site.line ≤ reference then hint.label :: names else names))
    (branch : ∀ sites hints names (site : Site) (hint : Hint) chain rest, site.role = .branch → hint.line = site.line →
      Chain.pending (Chain.latestFirst Site.role sites) = chain :: rest → P sites hints names →
      P (sites ++ [site]) (hints ++ [hint])
        (if site.line ≤ reference then names.modifyHead fun _ => hint.label else names))
    (closer : ∀ sites hints names (site : Site) (hint : Hint) chain rest, site.role = .closer → hint.line = site.line →
      Chain.pending (Chain.latestFirst Site.role sites) = chain :: rest → P sites hints names →
      P (sites ++ [site]) (hints ++ [hint]) (if site.line < reference then names.tail else names))
    (stray : ∀ sites hints names (site : Site), site.role ≠ .opener →
      Chain.pending (Chain.latestFirst Site.role sites) = [] → P sites hints names → P (sites ++ [site]) hints names)
    (directives : List Located) :
    P (sitesOf directives) ((trace {} directives).steps.filterMap Step.hint?)
      ((trace {} directives).pathAt reference).names.reverse := by
  -- There is a frame for each chain that has not ended, below the line of reference too.
  suffices follows : (trace {} directives).state.frames.length =
      (Chain.pending (Chain.latestFirst Site.role (sitesOf directives))).length ∧
      P (sitesOf directives) ((trace {} directives).steps.filterMap Step.hint?)
        ((trace {} directives).steps.foldl (Step.follow reference) {}).names.reverse from follows.2
  refine trace_induction (P := fun directives steps state =>
    state.frames.length = (Chain.pending (Chain.latestFirst Site.role (sitesOf directives))).length ∧
    P (sitesOf directives) (steps.filterMap Step.hint?)
      (steps.foldl (Step.follow reference) {}).names.reverse) ⟨rfl, start⟩ ?_ directives
  rintro directives steps state located step next visits ⟨depth, kept⟩
  rw [List.filterMap_append, List.foldl_concat]
  generalize steps.filterMap Step.hint? = hints at kept ⊢
  generalize steps.foldl (Step.follow reference) {} = path at kept ⊢
  cases visits with
  | skipped commented =>
    rw [sitesOf_concat_commented commented]
    refine ⟨depth, ?_⟩
    rw [show [_].filterMap Step.hint? = [] from rfl, List.append_nil]
    exact kept
  | opened visible role _ =>
    have opens : located.site.role = .opener := role
    rw [sitesOf_concat_visible visible, Chain.pending_opener opens, follow_opened reference path rfl]
    exact ⟨congrArg (· + 1) depth, opener _ _ _ located.site _ opens rfl kept⟩
  | branched visible kind _ =>
    have turns : located.site.role = .branch := congrArg Kind.role kind
    obtain ⟨chain, rest, found, outer⟩ := Chain.exists_pending depth
    rw [sitesOf_concat_visible visible, Chain.pending_branch turns found, follow_turned reference path (Or.inl rfl)]
    exact ⟨congrArg (· + 1) outer, branch _ _ _ located.site _ chain rest turns rfl found kept⟩
  | inverted visible kind _ =>
    have turns : located.site.role = .branch := congrArg Kind.role kind
    obtain ⟨chain, rest, found, outer⟩ := Chain.exists_pending depth
    rw [sitesOf_concat_visible visible, Chain.pending_branch turns found, follow_turned reference path (Or.inr rfl)]
    exact ⟨congrArg (· + 1) outer, branch _ _ _ located.site _ chain rest turns rfl found kept⟩
  | closed visible kind =>
    have closes : located.site.role = .closer := congrArg Kind.role kind
    obtain ⟨chain, rest, found, outer⟩ := Chain.exists_pending depth
    rw [sitesOf_concat_visible visible, Chain.pending_closer closes found, follow_closed reference path rfl]
    exact ⟨outer, closer _ _ _ located.site _ chain rest closes rfl found kept⟩
  | unmatched visible found other =>
    have none := List.eq_nil_of_length_eq_zero depth.symm
    have joins : located.site.role ≠ .opener := by
      rwa [← found] at other
    rw [sitesOf_concat_visible visible, Chain.latestFirst_stray joins none]
    refine ⟨depth, ?_⟩
    rw [show [_].filterMap Step.hint? = [] from rfl, List.append_nil]
    exact stray _ _ _ located.site joins none kept

/-! ### Lines and labels -/

theorem hint_lines (directives : List Located) :
    (((trace {} directives).steps.filterMap Step.hint?).map Hint.line).Sublist ((sitesOf directives).map Site.line) := by
  have shown : ∀ {sites : List Site} {hints : List Hint} {site : Site} {hint : Hint}, hint.line = site.line →
      (hints.map Hint.line).Sublist (sites.map Site.line) →
      ((hints ++ [hint]).map Hint.line).Sublist ((sites ++ [site]).map Site.line) := by
    intro sites hints site hint same lines
    rw [List.map_append, List.map_append, List.map_singleton, List.map_singleton, same]
    exact lines.append_right _
  refine path_induction (P := fun sites hints _ => (hints.map Hint.line).Sublist (sites.map Site.line)) 0
    List.Sublist.slnil ?_ ?_ ?_ ?_ directives
  · intro sites hints names site hint _ same lines
    exact shown same lines
  · intro sites hints names site hint chain rest _ same _ lines
    exact shown same lines
  · intro sites hints names site hint chain rest _ same _ lines
    exact shown same lines
  · intro sites hints names site _ _ lines
    rw [List.map_append]
    exact lines.trans (List.sublist_append_left _ _)

/-- The path of a line has a name for each chain open there, also with several directives on a line. -/
theorem path_length {directives : List Located} (reference : Nat)
    (ordered : (sitesOf directives).Pairwise fun first second => first.line ≤ second.line) :
    ((trace {} directives).pathAt reference).names.length =
      (Chain.turnsAt Site.role Site.line reference (sitesOf directives)).length := by
  rw [← List.length_reverse]
  refine path_induction (P := fun sites _ names => sites.Pairwise (fun first second => first.line ≤ second.line) →
    names.length = (Chain.turnsAt Site.role Site.line reference sites).length) reference (fun _ => rfl)
    ?_ ?_ ?_ ?_ directives ordered
  · intro sites hints names site hint opener _ kept ordered
    rw [Chain.turnsAt_opener opener]
    have counted := kept (List.pairwise_append.mp ordered).1
    split
    · exact congrArg (· + 1) counted
    · exact counted
  · intro sites hints names site hint chain rest branch _ found kept ordered
    rw [Chain.length_turnsAt_branch branch found, ← kept (List.pairwise_append.mp ordered).1]
    split
    · exact List.length_modifyHead
    · rfl
  · intro sites hints names site hint chain rest closer _ found kept ordered
    obtain ⟨earlier, _, before⟩ := List.pairwise_append.mp ordered
    rw [Chain.length_turnsAt_closer closer found fun other member => before other member site List.mem_cons_self,
      ← kept earlier]
    split
    · exact List.length_tail
    · rfl
  · intro sites hints names site other none kept ordered
    rw [Chain.turnsAt_stray other none]
    exact kept (List.pairwise_append.mp ordered).1

/-- A name is the label of a hint on the line of a directive. -/
def Labels (hints : List Hint) (name : Text) (site : Site) : Prop :=
  ∃ hint ∈ hints, hint.line = site.line ∧ hint.label = name

theorem Labels.concat {hints : List Hint} {name : Text} {site : Site} (labels : Labels hints name site) (hint : Hint) :
    Labels (hints ++ [hint]) name site := by
  obtain ⟨old, member, labelled⟩ := labels
  exact ⟨old, List.mem_append_left _ member, labelled⟩

/-- Where no two directives share a line, the path of a line holds the labels of the branches that
the line lies in. -/
theorem path_trail {directives : List Located} (reference : Nat)
    (ordered : (sitesOf directives).Pairwise fun first second => first.line < second.line) :
    Chain.Trail Site.role Site.line reference (Labels ((trace {} directives).steps.filterMap Step.hint?))
      ((trace {} directives).pathAt reference).names.reverse (sitesOf directives) := by
  refine path_induction (P := fun sites hints names => sites.Pairwise (fun first second => first.line < second.line) →
    Chain.Trail Site.role Site.line reference (Labels hints) names sites) reference
    (fun _ => .nil) ?_ ?_ ?_ ?_ directives ordered
  · intro sites hints names site hint opener same kept ordered
    have trail := (kept (List.pairwise_append.mp ordered).1).mono fun _ _ labels => labels.concat hint
    exact trail.opener opener ⟨hint, by simp, same, rfl⟩
  · intro sites hints names site hint chain rest branch same found kept ordered
    obtain ⟨earlier, _, before⟩ := List.pairwise_append.mp ordered
    have trail := (kept earlier).mono fun _ _ labels => labels.concat hint
    exact trail.branch branch found (fun other member => before other member site List.mem_cons_self)
      ⟨hint, by simp, same, rfl⟩
  · intro sites hints names site hint chain rest closer _ found kept ordered
    obtain ⟨earlier, _, before⟩ := List.pairwise_append.mp ordered
    have trail := (kept earlier).mono fun _ _ labels => labels.concat hint
    exact trail.closer closer found fun other member => before other member site List.mem_cons_self
  · intro sites hints names site other none kept ordered
    exact (kept (List.pairwise_append.mp ordered).1).stray other none

theorem sites_ordered (text : Text) : (sites text).Pairwise fun first second => first.line ≤ second.line :=
  List.pairwise_map.mpr ((locate_ordered text).filter _)

theorem sites_ordered_of_nodup {text : Text} (distinct : ((sites text).map Site.line).Nodup) :
    (sites text).Pairwise fun first second => first.line < second.line :=
  (sites_ordered text).imp₂ (fun _ _ => Nat.lt_of_le_of_ne) (List.pairwise_map.mp distinct)

theorem labelsOn_of_labels {text : Text} {name : Text} {site : Site} (reference : Nat)
    (distinct : ((sites text).map Site.line).Nodup)
    (labels : Labels ((traceOf text).steps.filterMap Step.hint?) name site) :
    (decorate text reference).labelsOn site.line = [name] := by
  obtain ⟨hint, member, same, rfl⟩ := labels
  rw [← same]
  exact labelsOn_eq reference (distinct.sublist (hint_lines _)) member

/-- The active path of a line has a name for each chain open at the line. Where no two directives
share a line, the name is the label on the directive that starts the branch around the line. -/
theorem path_through_chains (text : Text) (reference : Nat) :
    (decorate text reference).path.names.length =
      ((Chain.ofDirectives Site.role (sites text)).filter (Chain.isOpenAt Site.line reference)).length ∧
    (((sites text).map Site.line).Nodup →
      List.Forall₂ (fun name chain => ∃ turn, Chain.turnAt? Site.line reference chain = some turn ∧
          (decorate text reference).labelsOn turn.line = [name])
        (decorate text reference).path.names
        ((Chain.ofDirectives Site.role (sites text)).filter (Chain.isOpenAt Site.line reference))) := by
  rw [Chain.ofDirectives, List.filter_reverse, List.length_reverse]
  constructor
  · exact (path_length reference (sites_ordered text)).trans (Chain.length_turnsAt _)
  · intro distinct
    have trail := path_trail reference (sites_ordered_of_nodup distinct)
    rw [Chain.Trail, Chain.turnsAt, List.forall₂_map_right_iff] at trail
    rw [← List.forall₂_reverse_iff, List.reverse_reverse]
    refine trail.imp ?_
    rintro name chain ⟨turn, found, labels⟩
    exact ⟨turn, found, labelsOn_of_labels reference distinct labels⟩

/-- Below an `#else` the path shows the label of the `#else`. -/
theorem path_through_chains_else :
    ((sites "#ifdef A\n#else\nx".toList).map Site.line).Nodup ∧
    (decorate "#ifdef A\n#else\nx".toList 2).path.names = ["!A".toList] ∧
    (decorate "#ifdef A\n#else\nx".toList 2).labelsOn 1 = ["!A".toList] := by
  have distinct : ((sites "#ifdef A\n#else\nx".toList).map Site.line).Nodup := by decide +kernel
  have opened : (Chain.ofDirectives Site.role (sites "#ifdef A\n#else\nx".toList)).filter (Chain.isOpenAt Site.line 2) =
      [{ opener := ⟨0, .ifDefined⟩, branches := [⟨1, .otherwise⟩] }] := by
    decide +kernel
  have shown : (decorate "#ifdef A\n#else\nx".toList 2).path.names = ["!A".toList] := by decide +kernel
  have named := (path_through_chains "#ifdef A\n#else\nx".toList 2).2 distinct
  rw [opened] at named
  obtain ⟨name, rest, ⟨turn, found, labels⟩, none, names⟩ := List.forall₂_cons_right_iff.mp named
  cases none
  cases found
  exact ⟨distinct, shown, labels.trans (names.symm.trans shown)⟩

end Decoration
end Conditionals
