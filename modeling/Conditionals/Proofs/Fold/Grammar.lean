import Conditionals.Proofs.Fold.Trace

/-!
# The grammar of blocks

Lines without faults derive from `Items ::= empty | Code Items | Open Items (Branch Items)* Endif Items`.
`Items` holds the derivations; each has its lines, and its ranges in post-order. A scan reads a
derivation without a diagnostic and completes exactly its ranges, on whatever stack it starts.
Conversely a scan without diagnostics gives a derivation back: `Closes` says what the rest of the
lines looks like for each block that is still open.
-/

namespace Conditionals.Fold

/-- The role of the directive at the start of a line, none for a line of code. -/
def roleOf? (line : Text) : Option Role :=
  (classify line).map fun directive => directive.kind.role

/-- A line with a given role. -/
abbrev LineOf (role : Option Role) := { line : Text // roleOf? line = role }

mutual

/-- Derivations of lines whose blocks are all opened and closed. -/
inductive Items where
  | empty
  | code (line : LineOf none) (rest : Items)
  | block (opener : LineOf (some .opener)) (body : Items) (branches : Branches)
      (closer : LineOf (some .closer)) (rest : Items)

/-- Derivations of the branches that follow the first one in a block. -/
inductive Branches where
  | none
  | more (branch : LineOf (some .branch)) (body : Items) (later : Branches)

end

mutual

/-- The lines that a derivation derives. -/
def Items.lines : Items → List Text
  | .empty => []
  | .code line rest => line.1 :: rest.lines
  | .block opener body branches closer rest =>
    opener.1 :: (body.lines ++ (branches.lines ++ closer.1 :: rest.lines))

def Branches.lines : Branches → List Text
  | .none => []
  | .more branch body later => branch.1 :: (body.lines ++ later.lines)

end

mutual

/-- The ranges of items that start at `line`, in post-order. -/
def Items.ranges (line : Nat) : Items → List LineRange
  | .empty => []
  | .code _ rest => rest.ranges (line + 1)
  | .block _ body branches _ rest =>
    let turn := line + 1 + body.lines.length
    let last := turn + branches.lines.length
    body.ranges (line + 1) ++ (branches.ranges line turn ++ rest.ranges (last + 1))

/-- The ranges of the branch that starts at `first` and has its body up to `line`, and of the
branches after it. What comes on `line` is the next branch or the closer. -/
def Branches.ranges (first line : Nat) : Branches → List LineRange
  | .none => [{ first, last := line }]
  | .more _ body later =>
    { first, last := line - 1 } ::
      (body.ranges (line + 1) ++ later.ranges line (line + 1 + body.lines.length))

end

/-! ### Derivations are read without faults -/

/-- Reading lines from `line` on turns one stack into another and completes the given ranges,
with no diagnostic. -/
def Reads (line : Nat) (before : List Block) (lines : List Text) (ranges : List LineRange)
    (after : List Block) : Prop :=
  (trace { line, blocks := before } lines).steps.filterMap Step.range? = ranges ∧
  (trace { line, blocks := before } lines).steps.filterMap Step.diagnostic? = [] ∧
  (trace { line, blocks := before } lines).state.blocks = after

namespace Reads

variable {line : Nat} {before between after : List Block} {first second : List Text} {left right : List LineRange}

theorem nil : Reads line before [] [] before := ⟨rfl, rfl, rfl⟩

theorem append (reads : Reads line before first left between)
    (later : Reads (line + first.length) between second right after) :
    Reads line before (first ++ second) (left ++ right) after := by
  obtain ⟨ranges, silent, stack⟩ := reads
  have state : (trace { line, blocks := before } first).state = { line := line + first.length, blocks := between } := by
    rw [← stack, ← trace_line { line, blocks := before } first]
  obtain ⟨moreRanges, moreSilent, moreStack⟩ := later
  refine ⟨?_, ?_, ?_⟩
  · rw [trace_append, List.filterMap_append, state, ranges, moreRanges]
  · rw [trace_append, List.filterMap_append, state, silent, moreSilent, List.append_nil]
  · rw [trace_append, state, moreStack]

theorem code {text : Text} (role : roleOf? text = none) : Reads line before [text] [] before := by
  have code := Option.map_eq_none_iff.mp role
  simp [Reads, trace, read_code code]

theorem opener {text : Text} (role : roleOf? text = some .opener) :
    ∃ kind, Reads line before [text] [] ({ line, kind } :: before) := by
  obtain ⟨directive, found, role⟩ := Option.map_eq_some_iff.mp role
  refine ⟨directive.kind, ?_⟩
  simp [Reads, trace, read_directive found, meet_opener role, Step.range?, Step.diagnostic?]

theorem branch {text : Text} (role : roleOf? text = some .branch) (block : Block) :
    ∃ kind, Reads line (block :: before) [text] [{ first := block.line, last := line - 1 }] ({ line, kind } :: before) := by
  obtain ⟨directive, found, role⟩ := Option.map_eq_some_iff.mp role
  refine ⟨directive.kind, ?_⟩
  simp [Reads, trace, read_directive found, meet_branch role, Step.range?, Step.diagnostic?]

theorem closer {text : Text} (role : roleOf? text = some .closer) (block : Block) :
    Reads line (block :: before) [text] [{ first := block.line, last := line }] before := by
  obtain ⟨directive, found, role⟩ := Option.map_eq_some_iff.mp role
  simp [Reads, trace, read_directive found, meet_closer role, Step.range?, Step.diagnostic?]

end Reads

mutual

theorem Items.reads (items : Items) (line : Nat) (blocks : List Block) :
    Reads line blocks items.lines (items.ranges line) blocks := by
  cases items with
  | empty => exact .nil
  | code text rest => exact (Reads.code text.2).append (rest.reads (line + 1) blocks)
  | block opener body branches closer rest =>
    obtain ⟨kind, opened⟩ : ∃ kind, Reads line blocks [opener.1] [] ({ line, kind } :: blocks) :=
      Reads.opener opener.2
    have inner := body.reads (line + 1) ({ line, kind } :: blocks)
    have turned := branches.reads closer line (line + 1 + body.lines.length) kind blocks
    have outer := rest.reads (line + 1 + body.lines.length + (branches.lines ++ [closer.1]).length) blocks
    -- The closer ends the last branch, so the branches are read together with it.
    have whole := opened.append (inner.append (turned.append outer))
    simpa [Items.lines, Items.ranges, Nat.add_assoc] using whole

theorem Branches.reads (branches : Branches) (closer : LineOf (some .closer)) (first line : Nat) (kind : Kind)
    (blocks : List Block) :
    Reads line ({ line := first, kind } :: blocks) (branches.lines ++ [closer.1]) (branches.ranges first line) blocks := by
  cases branches with
  | none => exact Reads.closer closer.2 _
  | more branch body later =>
    obtain ⟨turn, turned⟩ : ∃ turn, Reads line ({ line := first, kind } :: blocks) [branch.1]
        [{ first, last := line - 1 }] ({ line, kind := turn } :: blocks) :=
      Reads.branch branch.2 _
    have inner := body.reads (line + 1) ({ line, kind := turn } :: blocks)
    have ended := later.reads closer line (line + 1 + body.lines.length) turn blocks
    have whole := turned.append (inner.append ended)
    simpa [Branches.lines, Branches.ranges] using whole

end

/-! ### Scans without faults have a derivation -/

/-- Lines that close as many blocks as are open, and derive from the grammar after that. -/
def Closes : Nat → List Text → Prop
  | 0, lines => ∃ items : Items, items.lines = lines
  | depth + 1, lines => ∃ (body : Items) (branches : Branches) (closer : LineOf (some .closer)) (rest : List Text),
      lines = body.lines ++ (branches.lines ++ closer.1 :: rest) ∧ Closes depth rest

namespace Closes

variable {depth : Nat} {lines : List Text} {text : Text}

theorem code (role : roleOf? text = none) (closes : Closes depth lines) : Closes depth (text :: lines) := by
  cases depth with
  | zero =>
    obtain ⟨items, rfl⟩ := closes
    exact ⟨.code ⟨text, role⟩ items, rfl⟩
  | succ depth =>
    obtain ⟨body, branches, closer, rest, rfl, outer⟩ := closes
    exact ⟨.code ⟨text, role⟩ body, branches, closer, rest, rfl, outer⟩

/-- The block that `text` opens becomes the first item of what was read inside it. -/
theorem opener (role : roleOf? text = some .opener) (closes : Closes (depth + 1) lines) :
    Closes depth (text :: lines) := by
  obtain ⟨body, branches, closer, rest, rfl, outer⟩ := closes
  cases depth with
  | zero =>
    obtain ⟨items, rfl⟩ := outer
    exact ⟨.block ⟨text, role⟩ body branches closer items, rfl⟩
  | succ depth =>
    obtain ⟨body', branches', closer', rest', rfl, outer⟩ := outer
    refine ⟨.block ⟨text, role⟩ body branches closer body', branches', closer', rest', ?_, outer⟩
    simp [Items.lines]

theorem branch (role : roleOf? text = some .branch) (closes : Closes (depth + 1) lines) :
    Closes (depth + 1) (text :: lines) := by
  obtain ⟨body, branches, closer, rest, rfl, outer⟩ := closes
  refine ⟨.empty, .more ⟨text, role⟩ body branches, closer, rest, ?_, outer⟩
  simp [Items.lines, Branches.lines]

theorem closer (role : roleOf? text = some .closer) (closes : Closes depth lines) :
    Closes (depth + 1) (text :: lines) :=
  ⟨.empty, .none, ⟨text, role⟩, lines, rfl, closes⟩

end Closes

theorem closes_of_silent (line : Nat) (blocks : List Block) (lines : List Text)
    (silent : ∀ step ∈ (trace { line, blocks } lines).steps, step.diagnostic? = none)
    (ended : (trace { line, blocks } lines).state.blocks = []) : Closes blocks.length lines := by
  induction lines generalizing line blocks with
  | nil =>
    obtain rfl : blocks = [] := ended
    exact ⟨.empty, rfl⟩
  | cons text rest ih =>
    rw [trace] at silent ended
    cases found : classify text with
    | none =>
      rw [read_code found] at silent ended
      have role : roleOf? text = none := by rw [roleOf?, found]; rfl
      exact (ih (line + 1) blocks silent ended).code role
    | some directive =>
      rw [read_directive found] at silent ended
      obtain ⟨matched, silent⟩ := List.forall_mem_cons.mp silent
      have same : roleOf? text = some directive.kind.role := by rw [roleOf?, found]; rfl
      have closes := ih (line + 1) _ silent ended
      cases role : directive.kind.role with
      | opener =>
        rw [meet_opener role] at closes
        exact closes.opener (same.trans (congrArg some role))
      | branch =>
        cases blocks with
        | nil =>
          rw [meet_unmatched (by simp [role])] at matched
          cases matched
        | cons block outer =>
          rw [meet_branch role] at closes
          exact closes.branch (same.trans (congrArg some role))
      | closer =>
        cases blocks with
        | nil =>
          rw [meet_unmatched (by simp [role])] at matched
          cases matched
        | cons block outer =>
          rw [meet_closer role] at closes
          exact closes.closer (same.trans (congrArg some role))

theorem folding_of_items (items : Items) :
    folding items.lines = { ranges := items.ranges 0, diagnostics := [] } := by
  obtain ⟨ranges, silent, stack⟩ := items.reads 0 []
  simp [folding, Trace.folding, ranges, silent, stack]

/-- A scan reports nothing exactly when its lines derive from the grammar of blocks. Its ranges
are then those of the derivation, in post-order. -/
theorem folding_grammar (chosen : Categories) (lines : List Text) :
    (scan chosen Token.never lines).result = .ok (folding lines) ∧
    ((folding lines).diagnostics = [] ↔ ∃ items : Items, items.lines = lines) ∧
    ∀ items : Items, items.lines = lines → (folding lines).ranges = items.ranges 0 := by
  refine ⟨scan_never chosen lines, ⟨?_, ?_⟩, ?_⟩
  · intro silent
    obtain ⟨steps, blocks⟩ := List.append_eq_nil_iff.mp silent
    exact closes_of_silent 0 [] lines (List.filterMap_eq_nil_iff.mp steps) (List.map_eq_nil_iff.mp blocks)
  · rintro ⟨items, rfl⟩
    rw [folding_of_items]
  · rintro items rfl
    rw [folding_of_items]

/-- A block with a branch, and a block inside its first branch. -/
theorem folding_grammar_nested :
    (folding ["#if A".toList, "#ifdef B".toList, "#endif".toList, "#else".toList, "#endif".toList]).ranges =
      [{ first := 1, last := 2 }, { first := 0, last := 2 }, { first := 3, last := 4 }] := by
  let closer : LineOf (some .closer) := ⟨"#endif".toList, by decide +kernel⟩
  let inner : Items := .block ⟨"#ifdef B".toList, by decide +kernel⟩ .empty .none closer .empty
  let branches : Branches := .more ⟨"#else".toList, by decide +kernel⟩ .empty .none
  let items : Items := .block ⟨"#if A".toList, by decide +kernel⟩ inner branches closer .empty
  exact (folding_grammar .all _).2.2 items rfl

end Conditionals.Fold
