import Conditionals.Proofs.Chain

/-!
# Members of chains

A directive that joins a chain joins exactly one, and the others are strays. `forall_concat` carries
a property of every chain over one more directive: only a new chain or the innermost one can
break it.
-/

namespace Conditionals.Chain

variable {α β : Type}

def members (chain : Chain α) : List α :=
  chain.turns ++ chain.closer.toList

/-- The last directive that starts a branch of the chain. -/
def lastTurn (chain : Chain α) : α :=
  chain.branches.getLastD chain.opener

/-- The last directive that brings the chain a condition: the opener, or a branch that is no
`#else`. -/
def lastNamed (kind : α → Kind) (chain : Chain α) : α :=
  (chain.branches.filter fun branch => kind branch ≠ .otherwise).getLastD chain.opener

/-- The chains not ended where the directive at a position is met, the innermost first. -/
def openBefore (role : α → Role) (directives : List α) (position : Nat) : List (Chain α) :=
  pending (latestFirst role (directives.take position))

/-- The directives that find no chain to join, in order. -/
def strays (role : α → Role) (directives : List α) : List α :=
  (directives.zipIdx.filter fun entry =>
    role entry.1 ≠ .opener && (openBefore role directives entry.2).isEmpty).map Prod.fst

/-- The number of chains not ended after each directive. -/
def depths (role : α → Role) (directives : List α) : List Nat :=
  (List.range directives.length).map fun position => (openBefore role directives (position + 1)).length

theorem mem_turns_or_closer {chain : Chain α} {directive : α} (member : directive ∈ chain.members) :
    directive ∈ chain.turns ∨ chain.closer = some directive := by
  rcases List.mem_append.mp member with turn | closer
  · exact Or.inl turn
  · exact Or.inr (Option.mem_toList.mp closer)

theorem mem_of_pending {chains rest : List (Chain α)} {chain : Chain α} (found : pending chains = chain :: rest) :
    chain ∈ chains := by
  have listed : chain ∈ pending chains := found ▸ List.mem_cons_self
  exact List.mem_of_mem_filter listed

section Concat

variable {role : α → Role} {directives : List α} {directive : α} {chain : Chain α} {rest : List (Chain α)}

theorem forall_amend {Q : Chain α → Prop} {change : Chain α → Chain α} {chains : List (Chain α)}
    (kept : ∀ chain ∈ chains, Q chain)
    (changed : ∀ chain rest, pending chains = chain :: rest → Q chain → Q (change chain)) :
    ∀ chain ∈ amend change chains, Q chain := by
  cases found : pending chains with
  | nil => rwa [amend_of_pending_nil found]
  | cons innermost rest =>
    have holds := changed innermost rest found (kept innermost (mem_of_pending found))
    obtain ⟨later, earlier, split, _, _, _, amended⟩ := exists_innermost found
    rw [split] at kept
    obtain ⟨above, below⟩ := List.forall_mem_append.mp kept
    rw [amended]
    exact List.forall_mem_append.mpr
      ⟨above, List.forall_mem_cons.mpr ⟨holds, (List.forall_mem_cons.mp below).2⟩⟩

theorem forall_concat {Q : Chain α → Prop} (kept : ∀ chain ∈ latestFirst role directives, Q chain)
    (opener : role directive = .opener → Q { opener := directive })
    (branch : ∀ chain rest, role directive = .branch → pending (latestFirst role directives) = chain :: rest →
      Q chain → Q { chain with branches := chain.branches ++ [directive] })
    (closer : ∀ chain rest, role directive = .closer → pending (latestFirst role directives) = chain :: rest →
      Q chain → Q { chain with closer := some directive }) :
    ∀ chain ∈ latestFirst role (directives ++ [directive]), Q chain := by
  cases joins : role directive with
  | opener =>
    rw [latestFirst_opener joins]
    exact List.forall_mem_cons.mpr ⟨opener joins, kept⟩
  | branch =>
    rw [latestFirst_branch joins]
    exact forall_amend kept fun chain rest found holds => branch chain rest joins found holds
  | closer =>
    rw [latestFirst_closer joins]
    exact forall_amend kept fun chain rest found holds => closer chain rest joins found holds

theorem closer_of_pending (found : pending (latestFirst role directives) = chain :: rest) : chain.closer = none := by
  obtain ⟨_, _, _, _, active, _⟩ := exists_innermost found
  simpa [isEnded] using active

/-- A chain is an opener, then branches, then a closer. -/
structure Shaped (role : α → Role) (chain : Chain α) : Prop where
  opener : role chain.opener = .opener
  branches : ∀ branch ∈ chain.branches, role branch = .branch
  closer : ∀ closer ∈ chain.closer, role closer = .closer

theorem latestFirst_shaped (role : α → Role) (directives : List α) :
    ∀ chain ∈ latestFirst role directives, Shaped role chain := by
  induction directives using List.reverseRecOn with
  | nil => simp [latestFirst]
  | append_singleton directives directive ih =>
    apply forall_concat ih
    · intro opener
      exact ⟨opener, by simp, by simp⟩
    · intro chain rest branch _ shaped
      exact ⟨shaped.opener, List.forall_mem_append.mpr ⟨shaped.branches, List.forall_mem_singleton.mpr branch⟩,
        shaped.closer⟩
    · intro chain rest closer _ shaped
      exact ⟨shaped.opener, shaped.branches, by simpa using closer⟩

theorem Shaped.role_turn {role : α → Role} {chain : Chain α} (shaped : Shaped role chain) {turn : α}
    (member : turn ∈ chain.turns) : role turn ≠ .closer := by
  rcases List.mem_cons.mp member with rfl | branch
  · simp [shaped.opener]
  · simp [shaped.branches turn branch]

/-! ### Each member once -/

theorem members_branch (found : pending (latestFirst role directives) = chain :: rest) :
    members { chain with branches := chain.branches ++ [directive] } = chain.members ++ [directive] := by
  simp [members, turns, closer_of_pending found]

theorem members_closer (found : pending (latestFirst role directives) = chain :: rest) :
    members { chain with closer := some directive } = chain.members ++ [directive] := by
  simp [members, turns, closer_of_pending found]

theorem members_amend {change : Chain α → Chain α} {chains : List (Chain α)} (found : pending chains = chain :: rest)
    (changed : (change chain).members = chain.members ++ [directive]) :
    ((amend change chains).flatMap members).Perm (chains.flatMap members ++ [directive]) := by
  obtain ⟨later, earlier, rfl, _, _, _, amended⟩ := exists_innermost found
  rw [amended, List.flatMap_append, List.flatMap_cons, changed, List.flatMap_append, List.flatMap_cons]
  simp only [List.append_assoc]
  -- The new member comes right after its own chain, and has to pass the chains opened before.
  have last : ([directive] ++ earlier.flatMap members).Perm (earlier.flatMap members ++ [directive]) :=
    List.perm_append_comm
  exact (last.append_left _).append_left _

/-- One more member, in a new chain or in the innermost one. -/
theorem members_concat (joins : role directive = .opener ∨ pending (latestFirst role directives) ≠ []) :
    ((latestFirst role (directives ++ [directive])).flatMap members).Perm
      ((latestFirst role directives).flatMap members ++ [directive]) := by
  cases part : role directive with
  | opener =>
    rw [latestFirst_opener part]
    exact (List.perm_append_singleton _ _).symm
  | branch =>
    obtain ⟨chain, rest, found⟩ := List.exists_cons_of_ne_nil (joins.resolve_left (by simp [part]))
    rw [latestFirst_branch part]
    exact members_amend found (members_branch found)
  | closer =>
    obtain ⟨chain, rest, found⟩ := List.exists_cons_of_ne_nil (joins.resolve_left (by simp [part]))
    rw [latestFirst_closer part]
    exact members_amend found (members_closer found)

/-! ### Strays -/

theorem openBefore_append {position : Nat} (inside : position ≤ directives.length) (later : List α) :
    openBefore role (directives ++ later) position = openBefore role directives position := by
  rw [openBefore, List.take_append_of_le_length inside, openBefore]

theorem openBefore_length (later : List α) :
    openBefore role (directives ++ later) directives.length = pending (latestFirst role directives) := by
  rw [openBefore_append (Nat.le_refl _), openBefore, List.take_length]

theorem depths_concat (role : α → Role) (directives : List α) (directive : α) :
    depths role (directives ++ [directive]) =
      depths role directives ++ [(pending (latestFirst role (directives ++ [directive]))).length] := by
  have last : openBefore role (directives ++ [directive]) (directives.length + 1) =
      pending (latestFirst role (directives ++ [directive])) := by
    rw [openBefore, List.take_of_length_le (by simp)]
  have old : (List.range directives.length).map
      (fun position => (openBefore role (directives ++ [directive]) (position + 1)).length) = depths role directives := by
    refine List.map_congr_left fun position inside => ?_
    rw [openBefore_append (List.mem_range.mp inside)]
  rw [depths, List.length_append, List.length_singleton, List.range_succ, List.map_append, List.map_singleton, old, last]

theorem strays_concat (role : α → Role) (directives : List α) (directive : α) :
    strays role (directives ++ [directive]) = strays role directives ++
      if role directive ≠ .opener ∧ pending (latestFirst role directives) = [] then [directive] else [] := by
  -- One more directive at the end changes nothing for those before it.
  have old : directives.zipIdx.filter (fun entry =>
      role entry.1 ≠ .opener && (openBefore role (directives ++ [directive]) entry.2).isEmpty) =
      directives.zipIdx.filter fun entry =>
        role entry.1 ≠ .opener && (openBefore role directives entry.2).isEmpty := by
    refine List.filter_congr fun entry member => ?_
    have inside := (List.mem_zipIdx member).2.1
    rw [openBefore_append (by omega)]
  rw [strays, List.zipIdx_append, List.filter_append, List.map_append, old, strays, List.zipIdx_singleton,
    Nat.zero_add, List.filter_cons, openBefore_length]
  congr 1
  by_cases found : pending (latestFirst role directives) = [] <;> by_cases opener : role directive = .opener <;>
    simp [found, opener]

theorem strays_joined (joins : role directive = .opener ∨ pending (latestFirst role directives) ≠ []) :
    strays role (directives ++ [directive]) = strays role directives := by
  rw [strays_concat, if_neg (by tauto), List.append_nil]

theorem strays_stray (other : role directive ≠ .opener) (none : pending (latestFirst role directives) = []) :
    strays role (directives ++ [directive]) = strays role directives ++ [directive] := by
  rw [strays_concat, if_pos ⟨other, none⟩]

end Concat

/-! ### Chains of other values -/

def map (f : α → β) (chain : Chain α) : Chain β :=
  { opener := f chain.opener, branches := chain.branches.map f, closer := chain.closer.map f }

theorem isEnded_map (f : α → β) (chain : Chain α) : (chain.map f).isEnded = chain.isEnded := by
  simp [isEnded, map]

theorem lastNamed_map (f : α → β) (kind : β → Kind) (chain : Chain α) :
    (chain.map f).lastNamed kind = f (chain.lastNamed fun directive => kind (f directive)) := by
  unfold lastNamed map
  rw [List.filter_map]
  exact List.getLastD_map

theorem pending_map (f : α → β) (chains : List (Chain α)) :
    pending (chains.map (map f)) = (pending chains).map (map f) := by
  rw [pending, List.filter_map, pending]
  congr 1
  exact List.filter_congr fun chain _ => by simp [isEnded_map]

theorem amend_map (f : α → β) {change : Chain α → Chain α} {changed : Chain β → Chain β}
    (same : ∀ chain, changed (map f chain) = map f (change chain)) (chains : List (Chain α)) :
    amend changed (chains.map (map f)) = (amend change chains).map (map f) := by
  induction chains with
  | nil => rfl
  | cons chain earlier ih =>
    rw [List.map_cons, amend, amend, isEnded_map, ih, same]
    split <;> rfl

/-- Grouping looks at nothing but roles. -/
theorem latestFirst_map (f : α → β) (role : β → Role) (directives : List α) :
    latestFirst role (directives.map f) = (latestFirst (fun directive => role (f directive)) directives).map (map f) := by
  induction directives using List.reverseRecOn with
  | nil => rfl
  | append_singleton directives directive ih =>
    rw [List.map_append, List.map_singleton, latestFirst_concat, latestFirst_concat, ih, join, join]
    cases role (f directive) with
    | opener => rfl
    | branch => exact amend_map f (fun chain => by simp [map]) _
    | closer => exact amend_map f (fun chain => rfl) _

end Conditionals.Chain
