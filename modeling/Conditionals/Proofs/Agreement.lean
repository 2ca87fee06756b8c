import Conditionals.Proofs.Decoration.Path
import Conditionals.Proofs.Fold.Cover
import Conditionals.Proofs.Occurrence.Anchored

/-!
# The two scans agree

The decoration scan looks for directives anywhere in a text, and the folding scan looks at the
start of lines. Where every directive starts its line they meet the same directives, so the chains
around a line are the same, and the active path can be read off the fold ranges around the line.
-/

namespace Conditionals

open Decoration Fold

theorem sitesOf_locateLine {line : Text} (number : Nat)
    (anchored : isComment line = false → ∀ found ∈ occurrences line, found.offset = Text.indent line) :
    sitesOf (locateLine number line) =
      ((classify line).map fun directive => { line := number, kind := directive.kind : Site }).toList := by
  cases comment : isComment line with
  | true => simp [sitesOf, locateLine, comment, classify_comment comment]
  | false =>
    have keywords := congrArg (List.map fun keyword : Keyword => { line := number, kind := keyword.kind : Site })
      (occurrences_anchored (anchored comment))
    rw [List.map_map, ← Option.toList_map, Option.map_map] at keywords
    rw [sitesOf, locateLine, List.filter_eq_self.mpr (by simp [comment]), List.map_map]
    exact keywords

theorem sites_anchored {text : Text} (anchored : Anchored text) :
    Decoration.sites text = Fold.sites (LineTable.ofText text).texts := by
  rw [Decoration.sites, locate_eq, sitesOf, List.filter_flatMap, List.map_flatMap, Fold.sites, directives,
    List.map_filterMap, List.filterMap_eq_flatMap_toList]
  refine List.flatMap_congr ?_
  rintro ⟨line, number⟩ member
  have read := List.mem_zipIdx_iff_getElem?.mp member
  rw [LineTable.texts, List.getElem?_map, Option.map_eq_some_iff] at read
  obtain ⟨entry, read, rfl⟩ := read
  rw [Option.map_map]
  exact sitesOf_locateLine number (anchored.line read)

/-- Where every directive starts its line, the active path of a line holds the labels on the first
lines of the fold ranges around it, the outermost range first. -/
theorem path_through_ranges {text : Text} {reference : Nat} (chosen : Categories) (anchored : Anchored text)
    (inside : reference < (LineTable.ofText text).lineCount) :
    (scanText chosen Token.never text).result = .ok (foldingOfText text) ∧
    (decorate text reference).path.names.length = ((foldingOfText text).around reference).length ∧
    List.Forall₂ (fun name range => (decorate text reference).labelsOn range.first = [name])
      (decorate text reference).path.names
      (((foldingOfText text).around reference).mergeSort fun left right => left.first ≤ right.first) := by
  have same := sites_anchored anchored
  have ordered : (Decoration.sites text).Pairwise fun first second => first.line < second.line := by
    rw [same]
    exact Fold.sites_ordered _
  have distinct : ((Decoration.sites text).map Site.line).Nodup :=
    List.pairwise_map.mpr (ordered.imp Nat.ne_of_lt)
  have counted : reference < (LineTable.ofText text).texts.length := by
    rwa [LineTable.texts, List.length_map]
  have covered := around_trail counted
  rw [← same] at covered
  -- Names and ranges both follow the branches around the line, the innermost first.
  have related := (path_trail reference ordered).compare covered
  rw [List.forall₂_map_right_iff] at related
  have labelled : List.Forall₂ (fun name range => (decorate text reference).labelsOn range.first = [name])
      (decorate text reference).path.names.reverse ((foldingOfText text).around reference) := by
    refine related.imp ?_
    rintro name range ⟨site, labels, start⟩
    rw [start]
    exact labelsOn_of_labels reference distinct labels
  refine ⟨scan_never chosen _, ?_, ?_⟩
  · rw [← labelled.length_eq, List.length_reverse]
  · rw [foldingOfText, around_sorted, ← List.forall₂_reverse_iff, List.reverse_reverse]
    exact labelled

/-- A stray closer and two blocks that nothing closes do not disturb the agreement. -/
theorem path_through_ranges_unterminated :
    Anchored "#endif\n#ifdef A\n  #if B\nx\n  #else\ny".toList ∧
    5 < (LineTable.ofText "#endif\n#ifdef A\n  #if B\nx\n  #else\ny".toList).lineCount ∧
    List.Forall₂ (fun name line => (decorate "#endif\n#ifdef A\n  #if B\nx\n  #else\ny".toList 5).labelsOn line = [name])
      (decorate "#endif\n#ifdef A\n  #if B\nx\n  #else\ny".toList 5).path.names [1, 4] := by
  have anchored : Anchored "#endif\n#ifdef A\n  #if B\nx\n  #else\ny".toList := by decide +kernel
  have inside : 5 < (LineTable.ofText "#endif\n#ifdef A\n  #if B\nx\n  #else\ny".toList).lineCount := by
    decide +kernel
  have starts : (((foldingOfText "#endif\n#ifdef A\n  #if B\nx\n  #else\ny".toList).around 5).mergeSort
      fun left right => left.first ≤ right.first).map LineRange.first = [1, 4] := by
    rw [foldingOfText, around_sorted]
    decide +kernel
  refine ⟨anchored, inside, ?_⟩
  rw [← starts, List.forall₂_map_right_iff]
  exact (path_through_ranges .all anchored inside).2.2

end Conditionals
