import Conditionals.Directive.Kind
import Mathlib.Data.List.Induction
import Mathlib.Data.List.Forall2

/-!
# Chains of directives

An opener starts a chain, and a branch or a closer joins the innermost chain that has not ended.
`turnsAt` lists, for each chain open at a line, the branch the line lies in. It is described by
what one more directive does to it: directives below the line leave it alone. A `Trail` is any
list of values that changes along with it.
-/

namespace Conditionals

/-- The line and the kind of a directive. -/
structure Site where
  line : Nat
  kind : Kind
  deriving DecidableEq, Repr

def Site.role (site : Site) : Role :=
  site.kind.role

/-- An opener, the branches that follow it, and the closer once there is one. -/
structure Chain (α : Type) where
  opener : α
  branches : List α := []
  closer : Option α := none
  deriving DecidableEq, Repr

namespace Chain

variable {α β : Type}

/-- The directives that start a branch of the chain, in order. -/
def turns (chain : Chain α) : List α :=
  chain.opener :: chain.branches

def isEnded (chain : Chain α) : Bool :=
  chain.closer.isSome

/-- Changes the innermost chain that has not ended. The chain opened last stands first. -/
def amend (change : Chain α → Chain α) : List (Chain α) → List (Chain α)
  | [] => []
  | chain :: earlier => if chain.isEnded then chain :: amend change earlier else change chain :: earlier

/-- Lets a directive join the chains before it. One that finds no chain joins none. -/
def join (role : α → Role) (chains : List (Chain α)) (directive : α) : List (Chain α) :=
  match role directive with
  | .opener => { opener := directive } :: chains
  | .branch => amend (fun chain => { chain with branches := chain.branches ++ [directive] }) chains
  | .closer => amend (fun chain => { chain with closer := some directive }) chains

/-- The chains of directives, the one opened last first. -/
def latestFirst (role : α → Role) (directives : List α) : List (Chain α) :=
  directives.foldl (join role) []

def ofDirectives (role : α → Role) (directives : List α) : List (Chain α) :=
  (latestFirst role directives).reverse

/-- Whether a chain is open at a line: it starts at or above the line and does not end above it. -/
def isOpenAt (line : α → Nat) (reference : Nat) (chain : Chain α) : Bool :=
  line chain.opener ≤ reference && chain.closer.all fun closer => reference ≤ line closer

/-- The last directive at or above a line that starts a branch of the chain. -/
def turnAt? (line : α → Nat) (reference : Nat) (chain : Chain α) : Option α :=
  (chain.turns.filter fun turn => line turn ≤ reference).getLast?

/-- The chains that have not ended. -/
def pending (chains : List (Chain α)) : List (Chain α) :=
  chains.filter fun chain => !chain.isEnded

/-! ### The innermost chain -/

theorem amend_of_pending_nil {chains : List (Chain α)} (none : pending chains = []) (change : Chain α → Chain α) :
    amend change chains = chains := by
  induction chains with
  | nil => rfl
  | cons chain earlier ih =>
    obtain ⟨ended, rest⟩ := List.forall_mem_cons.mp (List.filter_eq_nil_iff.mp none)
    simp only [Bool.not_eq_true', Bool.not_eq_false] at ended
    rw [amend, if_pos ended, ih (List.filter_eq_nil_iff.mpr rest)]

theorem exists_innermost {chains rest : List (Chain α)} {chain : Chain α} (found : pending chains = chain :: rest) :
    ∃ later earlier, chains = later ++ chain :: earlier ∧ (∀ other ∈ later, other.isEnded) ∧
      chain.isEnded = false ∧ pending earlier = rest ∧
      ∀ change, amend change chains = later ++ change chain :: earlier := by
  induction chains with
  | nil => cases found
  | cons first earlier ih =>
    cases ended : first.isEnded with
    | true =>
      rw [pending, List.filter_cons_of_neg (by simp [ended])] at found
      obtain ⟨later, earlier', rfl, all, open_, rest, amended⟩ := ih found
      refine ⟨first :: later, earlier', rfl, List.forall_mem_cons.mpr ⟨ended, all⟩, open_, rest, ?_⟩
      intro change
      rw [amend, if_pos ended, amended, List.cons_append]
    | false =>
      rw [pending, List.filter_cons_of_pos (by simp [ended])] at found
      obtain ⟨rfl, rest⟩ := List.cons.inj found
      refine ⟨[], earlier, rfl, by simp, ended, rest, ?_⟩
      intro change
      rw [amend, if_neg (by simp [ended]), List.nil_append]

theorem latestFirst_concat (role : α → Role) (directives : List α) (directive : α) :
    latestFirst role (directives ++ [directive]) = join role (latestFirst role directives) directive := by
  simp [latestFirst]

theorem pending_append (first second : List (Chain α)) : pending (first ++ second) = pending first ++ pending second :=
  List.filter_append ..

theorem pending_of_ended {chains : List (Chain α)} (ended : ∀ chain ∈ chains, chain.isEnded) : pending chains = [] :=
  List.filter_eq_nil_iff.mpr fun chain member => by simp [ended chain member]

/-- A stack as deep as the chains not ended tells whether there is one. -/
theorem exists_pending {chains : List (Chain α)} {top : β} {stack : List β}
    (depth : (top :: stack).length = (pending chains).length) :
    ∃ chain rest, pending chains = chain :: rest ∧ stack.length = rest.length := by
  rw [List.length_cons] at depth
  obtain ⟨chain, rest, found⟩ := List.exists_cons_of_length_eq_add_one depth.symm
  rw [found, List.length_cons] at depth
  exact ⟨chain, rest, found, Nat.succ.inj depth⟩

section Step

variable {role : α → Role} {directives : List α} {directive : α} {chain : Chain α} {rest : List (Chain α)}

theorem latestFirst_opener (opener : role directive = .opener) :
    latestFirst role (directives ++ [directive]) = { opener := directive } :: latestFirst role directives := by
  rw [latestFirst_concat, join, opener]

theorem latestFirst_branch (branch : role directive = .branch) :
    latestFirst role (directives ++ [directive]) =
      amend (fun chain => { chain with branches := chain.branches ++ [directive] }) (latestFirst role directives) := by
  rw [latestFirst_concat, join, branch]

theorem latestFirst_closer (closer : role directive = .closer) :
    latestFirst role (directives ++ [directive]) =
      amend (fun chain => { chain with closer := some directive }) (latestFirst role directives) := by
  rw [latestFirst_concat, join, closer]

theorem latestFirst_stray (other : role directive ≠ .opener) (none : pending (latestFirst role directives) = []) :
    latestFirst role (directives ++ [directive]) = latestFirst role directives := by
  rw [latestFirst_concat, join]
  split
  · contradiction
  all_goals exact amend_of_pending_nil none _

theorem pending_opener (opener : role directive = .opener) :
    pending (latestFirst role (directives ++ [directive])) =
      { opener := directive } :: pending (latestFirst role directives) := by
  rw [latestFirst_opener opener]
  rfl

theorem pending_branch (branch : role directive = .branch) (found : pending (latestFirst role directives) = chain :: rest) :
    pending (latestFirst role (directives ++ [directive])) =
      { chain with branches := chain.branches ++ [directive] } :: rest := by
  obtain ⟨later, earlier, _, ended, active, outer, amended⟩ := exists_innermost found
  rw [latestFirst_branch branch, amended, pending_append, pending_of_ended ended, List.nil_append, pending,
    List.filter_cons_of_pos (by simpa [isEnded] using active), ← outer, pending]

theorem pending_closer (closer : role directive = .closer) (found : pending (latestFirst role directives) = chain :: rest) :
    pending (latestFirst role (directives ++ [directive])) = rest := by
  obtain ⟨later, earlier, _, ended, _, outer, amended⟩ := exists_innermost found
  rw [latestFirst_closer closer, amended, pending_append, pending_of_ended ended, List.nil_append, pending,
    List.filter_cons_of_neg (by simp [isEnded]), ← outer, pending]

end Step

/-! ### Members of chains -/

theorem mem_amend {change : Chain α → Chain α} {chains : List (Chain α)} {chain : Chain α}
    (member : chain ∈ amend change chains) : chain ∈ chains ∨ ∃ old ∈ chains, chain = change old := by
  induction chains with
  | nil => cases member
  | cons first earlier ih =>
    rw [amend] at member
    split at member
    · rcases List.mem_cons.mp member with rfl | member
      · exact Or.inl List.mem_cons_self
      · rcases ih member with old | ⟨old, present, changed⟩
        · exact Or.inl (List.mem_cons_of_mem _ old)
        · exact Or.inr ⟨old, List.mem_cons_of_mem _ present, changed⟩
    · rcases List.mem_cons.mp member with rfl | member
      · exact Or.inr ⟨first, List.mem_cons_self, rfl⟩
      · exact Or.inl (List.mem_cons_of_mem _ member)

/-- Chains are made of the directives they were grouped from. -/
theorem mem_latestFirst {role : α → Role} {directives : List α} {chain : Chain α}
    (member : chain ∈ latestFirst role directives) :
    chain.opener ∈ directives ∧ ∀ closer ∈ chain.closer, closer ∈ directives := by
  induction directives using List.reverseRecOn generalizing chain with
  | nil => cases member
  | append_singleton directives directive ih =>
    have older : ∀ {old : Chain α}, old ∈ latestFirst role directives →
        old.opener ∈ directives ++ [directive] ∧ ∀ closer ∈ old.closer, closer ∈ directives ++ [directive] :=
      fun present => ⟨List.mem_append_left _ (ih present).1,
        fun closer ends => List.mem_append_left _ ((ih present).2 closer ends)⟩
    rw [latestFirst_concat, join] at member
    split at member
    · rcases List.mem_cons.mp member with rfl | member
      · exact ⟨by simp, by simp⟩
      · exact older member
    · rcases mem_amend member with present | ⟨old, present, rfl⟩
      · exact older present
      · exact ⟨(older present).1, (older present).2⟩
    · rcases mem_amend member with present | ⟨old, present, rfl⟩
      · exact older present
      · exact ⟨(older present).1, by simp⟩

/-! ### Chains open at a line -/

section Reference

variable (role : α → Role) (line : α → Nat) (reference : Nat)

/-- The chains open at a line, the one opened last first. -/
def around (directives : List α) : List (Chain α) :=
  (latestFirst role directives).filter (isOpenAt line reference)

/-- For each chain open at a line, the branch that the line lies in. -/
def turnsAt (directives : List α) : List (Option α) :=
  (around role line reference directives).map (turnAt? line reference)

variable {role line reference} {directives : List α} {directive : α} {chain : Chain α} {rest : List (Chain α)}

theorem isOpenAt_of_pending (active : chain.isEnded = false) :
    isOpenAt line reference chain = decide (line chain.opener ≤ reference) := by
  have missing : chain.closer = none := by simpa [isEnded] using active
  simp [isOpenAt, missing]

theorem turnAt?_branch (chain : Chain α) (directive : α) :
    turnAt? line reference { chain with branches := chain.branches ++ [directive] } =
      if line directive ≤ reference then some directive else turnAt? line reference chain := by
  have more : turns { chain with branches := chain.branches ++ [directive] } = chain.turns ++ [directive] := rfl
  rw [turnAt?, more, List.filter_append]
  by_cases above : line directive ≤ reference <;> simp [above, turnAt?]

/-- Once every directive above a line has been met, the chains open there are those not ended. -/
theorem isOpenAt_eq (member : chain ∈ latestFirst role directives)
    (before : ∀ other ∈ directives, line other < reference) : isOpenAt line reference chain = !chain.isEnded := by
  obtain ⟨opens, closes⟩ := mem_latestFirst member
  have started := before _ opens
  cases ended : chain.closer with
  | none =>
    simp only [isOpenAt, ended, isEnded, Option.all_none, Bool.and_true, Option.isSome_none, Bool.not_false,
      decide_eq_true_eq]
    omega
  | some closer =>
    have above := before closer (closes closer ended)
    simp only [isOpenAt, ended, isEnded, Option.all_some, Option.isSome_some, Bool.not_true, Bool.and_eq_false_iff,
      decide_eq_false_iff_not]
    omega

theorem filter_isOpenAt {chains : List (Chain α)} (part : ∀ chain ∈ chains, chain ∈ latestFirst role directives)
    (before : ∀ other ∈ directives, line other < reference) :
    chains.filter (isOpenAt line reference) = pending chains :=
  List.filter_congr fun chain member => isOpenAt_eq (part chain member) before

theorem turnsAt_opener (opener : role directive = .opener) :
    turnsAt role line reference (directives ++ [directive]) =
      if line directive ≤ reference then some directive :: turnsAt role line reference directives
      else turnsAt role line reference directives := by
  rw [turnsAt, around, latestFirst_opener opener, List.filter_cons]
  by_cases above : line directive ≤ reference
  · simp [isOpenAt, turnAt?, turns, turnsAt, around, above]
  · simp [isOpenAt, turnsAt, around, above]

theorem turnsAt_stray (other : role directive ≠ .opener) (none : pending (latestFirst role directives) = []) :
    turnsAt role line reference (directives ++ [directive]) = turnsAt role line reference directives := by
  rw [turnsAt, around, latestFirst_stray other none]
  rfl

/-- The innermost chain may be replaced by one that is open at the line just as it was, and in the
same branch there. -/
theorem turnsAt_unchanged {change : Chain α → Chain α} (found : pending (latestFirst role directives) = chain :: rest)
    (amended : latestFirst role (directives ++ [directive]) = amend change (latestFirst role directives))
    (sameOpen : isOpenAt line reference (change chain) = isOpenAt line reference chain)
    (sameTurn : turnAt? line reference (change chain) = turnAt? line reference chain) :
    turnsAt role line reference (directives ++ [directive]) = turnsAt role line reference directives := by
  obtain ⟨later, earlier, split, _, _, _, changed⟩ := exists_innermost found
  rw [changed] at amended
  simp only [turnsAt, around, amended, split, List.filter_append, List.filter_cons, sameOpen]
  split <;> simp [sameTurn]

/-- Above the line, only the innermost chain of those open there changes. -/
theorem turnsAt_amended {change : Chain α → Chain α} (found : pending (latestFirst role directives) = chain :: rest)
    (amended : latestFirst role (directives ++ [directive]) = amend change (latestFirst role directives))
    (before : ∀ other ∈ directives, line other < reference) :
    turnsAt role line reference (directives ++ [directive]) =
      if isOpenAt line reference (change chain)
      then (turnsAt role line reference directives).modifyHead fun _ => turnAt? line reference (change chain)
      else (turnsAt role line reference directives).tail := by
  obtain ⟨later, earlier, split, ended, active, outer, changed⟩ := exists_innermost found
  have laterPart : ∀ other ∈ later, other ∈ latestFirst role directives := by simp +contextual [split]
  have earlierPart : ∀ other ∈ earlier, other ∈ latestFirst role directives := by simp +contextual [split]
  have member : chain ∈ latestFirst role directives := by simp [split]
  have none : later.filter (isOpenAt line reference) = [] := by
    rw [filter_isOpenAt laterPart before, pending_of_ended ended]
  have same : earlier.filter (isOpenAt line reference) = rest := by
    rw [filter_isOpenAt earlierPart before, outer]
  have opened : isOpenAt line reference chain = true := by
    rw [isOpenAt_eq member before, active]
    rfl
  rw [changed] at amended
  simp only [turnsAt, around, amended, split, List.filter_append, none, List.nil_append, List.filter_cons, opened,
    if_true, same, List.map_cons, List.tail_cons, List.modifyHead_cons]
  split <;> simp

theorem turnsAt_branch (branch : role directive = .branch) (found : pending (latestFirst role directives) = chain :: rest)
    (before : ∀ other ∈ directives, line other < line directive) :
    turnsAt role line reference (directives ++ [directive]) =
      if line directive ≤ reference then (turnsAt role line reference directives).modifyHead fun _ => some directive
      else turnsAt role line reference directives := by
  by_cases above : line directive ≤ reference
  · obtain ⟨later, earlier, split, _, active, _, _⟩ := exists_innermost found
    have member : chain ∈ latestFirst role directives := by simp [split]
    have opens := before _ (mem_latestFirst member).1
    have opened : isOpenAt line reference { chain with branches := chain.branches ++ [directive] } = true :=
      (isOpenAt_of_pending active).trans (decide_eq_true (by omega))
    rw [turnsAt_amended found (latestFirst_branch branch) fun other member => Nat.lt_of_lt_of_le (before other member) above,
      if_pos opened, if_pos above, turnAt?_branch, if_pos above]
  · -- The chain gets another branch below the line.
    rw [if_neg above]
    refine turnsAt_unchanged found (latestFirst_branch branch) rfl ?_
    rw [turnAt?_branch, if_neg above]

theorem turnsAt_closer (closer : role directive = .closer) (found : pending (latestFirst role directives) = chain :: rest)
    (before : ∀ other ∈ directives, line other < line directive) :
    turnsAt role line reference (directives ++ [directive]) =
      if line directive < reference then (turnsAt role line reference directives).tail
      else turnsAt role line reference directives := by
  by_cases above : line directive < reference
  · have ended : isOpenAt line reference { chain with closer := some directive } = false := by
      simp [isOpenAt, above]
    rw [turnsAt_amended found (latestFirst_closer closer) fun other member => Nat.lt_trans (before other member) above,
      if_neg (by simp [ended]), if_pos above]
  · obtain ⟨_, _, _, _, active, _⟩ := exists_innermost found
    rw [if_neg above]
    refine turnsAt_unchanged found (latestFirst_closer closer) ?_ rfl
    rw [isOpenAt_of_pending active]
    simp [isOpenAt]
    omega

/-! ### Values for the chains open at a line -/

variable (role line reference) in
/-- Values that stand, one by one, for the branches that a line lies in. -/
def Trail (relate : β → α → Prop) (values : List β) (directives : List α) : Prop :=
  List.Forall₂ (fun value turn => ∃ directive, turn = some directive ∧ relate value directive) values
    (turnsAt role line reference directives)

namespace Trail

variable {relate : β → α → Prop} {value : β} {values : List β}

theorem nil : Trail role line reference relate [] [] := List.Forall₂.nil

theorem mono {weaker : β → α → Prop} (trail : Trail role line reference relate values directives)
    (implies : ∀ value directive, relate value directive → weaker value directive) :
    Trail role line reference weaker values directives :=
  trail.imp fun value _ ⟨directive, turn, related⟩ => ⟨directive, turn, implies value directive related⟩

theorem opener (trail : Trail role line reference relate values directives) (opener : role directive = .opener)
    (related : relate value directive) :
    Trail role line reference relate (if line directive ≤ reference then value :: values else values)
      (directives ++ [directive]) := by
  rw [Trail, turnsAt_opener opener]
  split
  · exact .cons ⟨directive, rfl, related⟩ trail
  · exact trail

theorem branch (trail : Trail role line reference relate values directives) (branch : role directive = .branch)
    (found : pending (latestFirst role directives) = chain :: rest)
    (before : ∀ other ∈ directives, line other < line directive) (related : relate value directive) :
    Trail role line reference relate (if line directive ≤ reference then values.modifyHead fun _ => value else values)
      (directives ++ [directive]) := by
  rw [Trail, turnsAt_branch branch found before]
  rw [Trail] at trail
  generalize turnsAt role line reference directives = turns at trail ⊢
  split
  · cases trail with
    | nil => exact .nil
    | cons _ outer => exact .cons ⟨directive, rfl, related⟩ outer
  · exact trail

theorem closer (trail : Trail role line reference relate values directives) (closer : role directive = .closer)
    (found : pending (latestFirst role directives) = chain :: rest)
    (before : ∀ other ∈ directives, line other < line directive) :
    Trail role line reference relate (if line directive < reference then values.tail else values)
      (directives ++ [directive]) := by
  rw [Trail, turnsAt_closer closer found before]
  split
  · rw [← List.drop_one, ← List.drop_one]
    exact List.forall₂_drop 1 trail
  · exact trail

theorem stray (trail : Trail role line reference relate values directives) (other : role directive ≠ .opener)
    (none : pending (latestFirst role directives) = []) :
    Trail role line reference relate values (directives ++ [directive]) := by
  rw [Trail, turnsAt_stray other none]
  exact trail

/-- Two lists of values that follow the same directives can be compared one by one. -/
theorem compare {γ : Type} {other : γ → α → Prop} {others : List γ}
    (trail : Trail role line reference relate values directives)
    (second : Trail role line reference other others directives) :
    List.Forall₂ (fun value counterpart => ∃ directive, relate value directive ∧ other counterpart directive)
      values others := by
  rw [Trail] at trail second
  generalize turnsAt role line reference directives = turns at trail second
  induction trail generalizing others with
  | nil =>
    cases second
    exact .nil
  | cons related _ ih =>
    cases second with
    | cons counterpart outer =>
      obtain ⟨directive, rfl, related⟩ := related
      obtain ⟨_, same, counterpart⟩ := counterpart
      cases same
      exact .cons ⟨directive, related, counterpart⟩ (ih outer)

end Trail

/-! ### The number of chains open at a line

Directives on one line are allowed here, so only the numbers can be compared. -/

theorem length_turnsAt (directives : List α) :
    (turnsAt role line reference directives).length = (around role line reference directives).length :=
  List.length_map ..

theorem length_turnsAt_amended {change : Chain α → Chain α} (found : pending (latestFirst role directives) = chain :: rest)
    (amended : latestFirst role (directives ++ [directive]) = amend change (latestFirst role directives)) :
    (turnsAt role line reference (directives ++ [directive])).length + (isOpenAt line reference chain).toNat =
      (turnsAt role line reference directives).length + (isOpenAt line reference (change chain)).toNat := by
  obtain ⟨later, earlier, split, _, _, _, changed⟩ := exists_innermost found
  rw [changed] at amended
  simp only [length_turnsAt, around, amended, split, List.filter_append, List.filter_cons, List.length_append]
  cases isOpenAt line reference chain <;> cases isOpenAt line reference (change chain) <;>
    simp only [Bool.false_eq_true, if_true, if_false, List.length_cons, Bool.toNat_true, Bool.toNat_false] <;> omega

theorem length_turnsAt_branch (branch : role directive = .branch)
    (found : pending (latestFirst role directives) = chain :: rest) :
    (turnsAt role line reference (directives ++ [directive])).length = (turnsAt role line reference directives).length :=
  Nat.add_right_cancel (length_turnsAt_amended found (latestFirst_branch branch))

theorem length_turnsAt_closer (closer : role directive = .closer)
    (found : pending (latestFirst role directives) = chain :: rest)
    (before : ∀ other ∈ directives, line other ≤ line directive) :
    (turnsAt role line reference (directives ++ [directive])).length =
      if line directive < reference then (turnsAt role line reference directives).length - 1
      else (turnsAt role line reference directives).length := by
  have counted : (turnsAt role line reference (directives ++ [directive])).length + _ = _ + _ :=
    length_turnsAt_amended found (latestFirst_closer closer)
  obtain ⟨later, earlier, split, _, active, _⟩ := exists_innermost found
  have member : chain ∈ latestFirst role directives := by simp [split]
  have opens := before _ (mem_latestFirst member).1
  rw [isOpenAt_of_pending active] at counted
  by_cases above : line directive < reference
  · have opened : line chain.opener ≤ reference := by omega
    have ended : ¬reference ≤ line directive := by omega
    simp only [isOpenAt, opened, ended, Option.all_some, decide_true, decide_false, Bool.and_false, Bool.toNat_true,
      Bool.toNat_false] at counted
    rw [if_pos above]
    omega
  · have ends : reference ≤ line directive := by omega
    simp only [isOpenAt, ends, Option.all_some, decide_true, Bool.and_true] at counted
    rw [if_neg above]
    exact Nat.add_right_cancel counted

end Reference

end Chain
end Conditionals
