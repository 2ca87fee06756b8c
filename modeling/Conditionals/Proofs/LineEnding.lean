import Conditionals.Proofs.View

/-!
# Line endings

A text means the same with line feeds alone and with a carriage return before each of them. Lines may
differ: one that ended in a carriage return already keeps it when another is put behind it. Their
views do not, since a carriage return at the end of a line is blank and starts no directive.
-/

namespace Conditionals

/-! ### A carriage return at the end of a line -/

theorem occurrences_return (line : Text) : occurrences (line ++ ['\r']) = occurrences line := by
  have found := Occurrence.findFrom_append (by decide : isBreak '\r' = true) 0 true line []
  rwa [Occurrence.findFrom, List.append_nil] at found

theorem view_return (line : Text) : view (line ++ ['\r']) = view line := by
  have blank : ∀ c ∈ ['\r'], Text.isBlank c = true := List.forall_mem_singleton.mpr (by decide)
  rw [view, view, classify, classify, isComment, isComment, Text.trim_blanks blank, occurrences_return]

theorem view_dropReturn (piece : Text) : view (Text.dropReturn piece) = view piece := by
  obtain ⟨ending, rfl | rfl, split⟩ := Text.dropReturn_append piece
  · rw [List.append_nil] at split
    rw [split]
  · rw [← view_return, split]

/-- Whether a carriage return before a line feed belongs to the line makes no difference to the scans. -/
theorem views_eq (text : Text) : views text = (text.splitOn '\n').map view := by
  rw [views, LineTable.texts_ofText, List.map_map]
  exact List.map_congr_left fun piece _ => view_dropReturn piece

/-! ### Carriage returns at the end of all lines -/

/-- The text with a carriage return before every line feed. -/
def Text.withReturns (text : Text) : Text :=
  text.flatMap fun c => if c = '\n' then ['\r', '\n'] else [c]

theorem Text.withReturns_piece {piece : Text} (absent : '\n' ∉ piece) : Text.withReturns piece = piece := by
  have kept : ∀ c ∈ piece, (if c = '\n' then ['\r', '\n'] else [c]) = [c] := by
    intro c member
    refine if_neg fun feed => absent ?_
    rwa [← feed]
  rw [Text.withReturns, List.flatMap_congr kept, List.flatMap_singleton']

theorem Text.withReturns_append (first second : Text) :
    Text.withReturns (first ++ '\n' :: second) = (Text.withReturns first ++ ['\r']) ++ '\n' :: Text.withReturns second := by
  simp [Text.withReturns]

theorem views_withReturns (text : Text) : views (Text.withReturns text) = views text := by
  refine Text.piece_induction (P := fun text => views (Text.withReturns text) = views text) ?_ ?_ text
  · intro piece absent
    rw [Text.withReturns_piece absent]
  · intro piece rest absent ih
    rw [views_eq, views_eq] at ih ⊢
    have ended : '\n' ∉ piece ++ ['\r'] := by simpa using absent
    rw [Text.withReturns_append, Text.withReturns_piece absent, List.splitOn_append_cons_self_of_not_mem ended,
      List.splitOn_append_cons_self_of_not_mem absent, List.map_cons, List.map_cons, view_return, ih]

open Fold (foldingOfText scanText Token)

/-- A carriage return put before every line feed changes nothing that a scan gives, whatever carriage
returns the text has already. -/
theorem scans_withReturns (chosen : Categories) (text : Text) (reference : Nat) :
    (scanText chosen Token.never text).result = .ok (foldingOfText text) ∧
    (scanText chosen Token.never (Text.withReturns text)).result = .ok (foldingOfText text) ∧
    (Decoration.scan chosen (Text.withReturns text) reference).value = (Decoration.scan chosen text reference).value := by
  have same := views_withReturns text
  refine ⟨Fold.scan_never chosen _, ?_, Decoration.decorate_of_views same reference⟩
  rw [← Fold.folding_of_views same]
  exact Fold.scan_never chosen _

/-- The lines themselves may change: here the first one keeps the carriage return it had. -/
example : (LineTable.ofText (Text.withReturns "#if A\r\nx".toList)).texts = ["#if A\r".toList, "x".toList] := by
  decide +kernel

end Conditionals
