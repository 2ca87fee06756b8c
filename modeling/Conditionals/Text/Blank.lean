import Conditionals.Text.Basic

/-!
# Blank characters

A character is blank when it has the Unicode property `White_Space`. Trimming removes blank
characters from the ends of a text and nothing else.
-/

namespace Conditionals.Text

/-- The code points with the property `White_Space`, as inclusive ranges in increasing order. -/
def blankRanges : List (Nat × Nat) :=
  [(0x09, 0x0D), (0x20, 0x20), (0x85, 0x85), (0xA0, 0xA0), (0x1680, 0x1680), (0x2000, 0x200A),
    (0x2028, 0x2029), (0x202F, 0x202F), (0x205F, 0x205F), (0x3000, 0x3000)]

def isBlank (c : Char) : Bool :=
  blankRanges.any fun range => range.1 ≤ c.toNat && c.toNat ≤ range.2

def trimStart (text : Text) : Text :=
  text.dropWhile isBlank

def trimEnd (text : Text) : Text :=
  (text.reverse.dropWhile isBlank).reverse

def trim (text : Text) : Text :=
  trimEnd (trimStart text)

theorem trimStart_sublist (text : Text) : (trimStart text).Sublist text :=
  (List.dropWhile_suffix _).sublist

theorem trimEnd_sublist (text : Text) : (trimEnd text).Sublist text := by
  have shorter := (List.dropWhile_suffix (l := text.reverse) isBlank).sublist.reverse
  rwa [List.reverse_reverse] at shorter

theorem trim_sublist (text : Text) : (trim text).Sublist text :=
  (trimEnd_sublist _).trans (trimStart_sublist text)

theorem trimEnd_cons {c : Char} (solid : isBlank c = false) (text : Text) :
    trimEnd (c :: text) = c :: trimEnd text := by
  rw [trimEnd, trimEnd, List.reverse_cons, List.dropWhile_append]
  split
  · rename_i empty
    simp [List.isEmpty_iff.mp empty, solid]
  · exact List.reverse_concat ..

end Conditionals.Text
