import Conditionals.Text.Basic
import Mathlib.Data.String.Basic

/-!
# Slices of the UTF-8 form

`slice?` cuts a text at two byte offsets, and fails where an offset is out of bounds or inside a
character. `slice?_append` gives the slices that exist. A search for the byte of an ASCII character finds
that character and not a part of another one (`split_of_byte`), and counting such bytes counts the
characters (`count_bytes_cut`).
-/

namespace Conditionals.Text

theorem byteLength_eq_utf8Len (text : Text) : byteLength text = String.utf8Len text := by
  induction text with
  | nil => rfl
  | cons c text ih => rw [byteLength_cons, String.utf8Len_cons, ih, Nat.add_comm]

/-- The part of a text between two offsets, which have to be in order and at ends of characters. -/
def slice? (text : Text) (start stop : Nat) : Option Text :=
  let form := String.ofList text
  if start ≤ stop ∧ String.Pos.Raw.IsValid form ⟨start⟩ ∧ String.Pos.Raw.IsValid form ⟨stop⟩ then
    some (String.Pos.Raw.extract form ⟨start⟩ ⟨stop⟩).toList
  else
    none

theorem isValid_byteLength (before after : Text) :
    String.Pos.Raw.IsValid (String.ofList (before ++ after)) ⟨byteLength before⟩ := by
  refine String.Pos.Raw.isValid_ofList.mpr ⟨before.length, ?_⟩
  rw [List.take_left, String.utf8ByteSize_ofList, byteLength_eq_utf8Len]

theorem slice?_append (before part after : Text) :
    slice? (before ++ part ++ after) (byteLength before) (byteLength before + byteLength part) = some part := by
  have start := isValid_byteLength before (part ++ after)
  have stop := isValid_byteLength (before ++ part) after
  rw [← List.append_assoc] at start
  rw [byteLength_append] at stop
  have cut := String.extract_of_valid before part after
  rw [← byteLength_eq_utf8Len, ← byteLength_eq_utf8Len] at cut
  simp only [slice?]
  rw [if_pos ⟨Nat.le_add_right _ _, start, stop⟩, cut, String.toList_ofList]

def byte? (text : Text) (offset : Nat) : Option UInt8 :=
  (String.ofList text).toByteArray.data[offset]?

def bytes (text : Text) : List UInt8 :=
  (String.ofList text).toByteArray.data.toList

theorem bytes_eq (text : Text) : bytes text = text.flatMap String.utf8EncodeChar := by
  show (text.flatMap String.utf8EncodeChar).toByteArray.data.toList = _
  rw [List.data_toByteArray]

theorem byte?_eq (text : Text) (offset : Nat) : byte? text offset = (bytes text)[offset]? :=
  Array.getElem?_toList.symm

@[simp] theorem bytes_append (first second : Text) : bytes (first ++ second) = bytes first ++ bytes second := by
  simp only [bytes_eq, List.flatMap_append]

theorem bytes_cons (c : Char) (text : Text) : bytes (c :: text) = String.utf8EncodeChar c ++ bytes text := by
  simp only [bytes_eq, List.flatMap_cons]

@[simp] theorem length_bytes (text : Text) : (bytes text).length = byteLength text := by
  induction text with
  | nil => rfl
  | cons c text ih => rw [bytes_cons, List.length_append, String.length_utf8EncodeChar, ih, byteLength_cons]

theorem byte_of_wide {c : Char} (wide : ¬c.val.toNat ≤ 127) : ∀ byte ∈ String.utf8EncodeChar c, 128 ≤ byte.toNat := by
  have high : ∀ n, 128 ≤ n → n < 256 → 128 ≤ (UInt8.ofNat n).toNat := by
    intro n low bound
    rw [UInt8.toNat_ofNat']
    omega
  fun_cases String.utf8EncodeChar c with
  | case1 value narrow => exact absurd narrow wide
  | case2 | case3 | case4 =>
    simp only [List.forall_mem_cons, List.not_mem_nil, false_implies, implies_true, and_true]
    and_intros <;> exact high _ (by omega) (by omega)

theorem eq_of_byte_mem {c d : Char} (ascii : c.val ≤ 127) (member : c.toUInt8 ∈ String.utf8EncodeChar d) : d = c := by
  have bound : c.val.toNat ≤ 127 := UInt32.le_iff_toNat_le.mp ascii
  have value : c.toUInt8.toNat = c.val.toNat := by
    rw [Char.toUInt8, UInt32.toNat_toUInt8]
    omega
  have narrow : d.val.toNat ≤ 127 := by
    by_contra wide
    have high := byte_of_wide wide _ member
    omega
  rw [String.utf8EncodeChar, if_pos narrow, List.mem_singleton, ← UInt8.toNat_inj, value, UInt8.toNat_ofNat'] at member
  apply Char.toNat_inj.mp
  show d.val.toNat = c.val.toNat
  omega

theorem split_of_byte {text : Text} {offset : Nat} {c : Char} (ascii : c.val ≤ 127)
    (byte : byte? text offset = some c.toUInt8) : ∃ before rest, text = before ++ c :: rest ∧ offset = byteLength before := by
  rw [byte?_eq] at byte
  induction text generalizing offset with
  | nil => cases byte
  | cons d text ih =>
    have width := String.length_utf8EncodeChar d
    rw [bytes_cons, List.getElem?_append] at byte
    split at byte
    · rename_i inside
      obtain rfl := eq_of_byte_mem ascii (List.mem_of_getElem? byte)
      have single := Char.utf8Size_eq_one_iff.mpr ascii
      refine ⟨[], text, rfl, ?_⟩
      rw [byteLength_nil]
      omega
    · obtain ⟨before, rest, split, same⟩ := ih byte
      refine ⟨d :: before, rest, by rw [split, List.cons_append], ?_⟩
      rw [byteLength_cons]
      omega

/-! ### Counting bytes -/

theorem count_bytes_absent {c : Char} (ascii : c.val ≤ 127) {text : Text} (absent : c ∉ text) (offset : Nat) :
    ((bytes text).take offset).count c.toUInt8 = 0 := by
  refine List.count_eq_zero.mpr fun found => absent ?_
  have member := List.mem_of_mem_take found
  rw [bytes_eq] at member
  obtain ⟨d, inside, byte⟩ := List.mem_flatMap.mp member
  rwa [← eq_of_byte_mem ascii byte]

/-- Up to an offset behind the first of some ASCII characters, there is one more of them than behind it. -/
theorem count_bytes_cut {c : Char} (ascii : c.val ≤ 127) {piece : Text} (absent : c ∉ piece) (rest : Text)
    (offset : Nat) :
    ((bytes (piece ++ c :: rest)).take offset).count c.toUInt8 =
      if offset ≤ byteLength piece then 0
      else ((bytes rest).take (offset - byteLength piece - 1)).count c.toUInt8 + 1 := by
  have single : String.utf8EncodeChar c = [c.toUInt8] :=
    String.utf8EncodeChar_eq_singleton (Char.utf8Size_eq_one_iff.mpr ascii)
  rw [bytes_append, List.take_append, List.count_append, count_bytes_absent ascii absent, Nat.zero_add, length_bytes,
    bytes_cons, single, List.singleton_append]
  split
  · rename_i before
    rw [Nat.sub_eq_zero_of_le before]
    rfl
  · rename_i behind
    obtain ⟨further, same⟩ := Nat.exists_eq_add_of_lt (Nat.lt_of_not_le behind)
    obtain rfl : offset = byteLength piece + (further + 1) := same
    rw [Nat.add_sub_cancel_left, List.take_succ_cons, List.count_cons_self]
    rfl

end Conditionals.Text
