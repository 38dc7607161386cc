import Mathlib.Data.List.Basic
import Mathlib.Tactic.Common

/-!
# Characters of a text in ASCII

The characters of a text, read off its bytes where it is ASCII. They are the ones that `String.toList` decodes, and the
kernel comes to them without decoding, which a check over a table of many texts is sped up by.
-/

namespace Bajutsu

def asciiChars (s : String) : List Char :=
  let bytes := s.toByteArray.data.toList
  if bytes.all (· < 128) then bytes.map fun byte => Char.ofNat byte.toNat else s.toList

theorem not_ascii_byte {n : Nat} (hLow : 128 ≤ n) (hHigh : n < 256) : ¬UInt8.ofNat n < 128 := by
  rw [UInt8.lt_iff_toNat_lt, UInt8.toNat_ofNat']
  change ¬n % 256 < 128
  omega

/-- A character outside ASCII is led by a byte outside ASCII. -/
theorem small_of_ascii {c : Char} (h : (String.utf8EncodeChar c).all (· < 128) = true) : c.val.toNat ≤ 0x7f := by
  by_contra hLarge
  rw [String.utf8EncodeChar] at h
  simp only [if_neg hLarge] at h
  split at h
  · have hHead := of_decide_eq_true (List.all_eq_true.mp h _ List.mem_cons_self)
    exact not_ascii_byte (by omega) (by omega) hHead
  · split at h
    · have hHead := of_decide_eq_true (List.all_eq_true.mp h _ List.mem_cons_self)
      exact not_ascii_byte (by omega) (by omega) hHead
    · have hHead := of_decide_eq_true (List.all_eq_true.mp h _ List.mem_cons_self)
      exact not_ascii_byte (by omega) (by omega) hHead

theorem chars_of_ascii (l : List Char) (h : (l.flatMap String.utf8EncodeChar).all (· < 128) = true) :
    (l.flatMap String.utf8EncodeChar).map (fun byte => Char.ofNat byte.toNat) = l := by
  induction l with
  | nil => rfl
  | cons c l ih =>
    rw [List.flatMap_cons, List.all_append, Bool.and_eq_true] at h
    have hSmall := small_of_ascii h.1
    have hBytes : String.utf8EncodeChar c = [UInt8.ofNat c.val.toNat] := by rw [String.utf8EncodeChar, if_pos hSmall]
    have hChar : Char.ofNat (UInt8.ofNat c.val.toNat).toNat = c := by
      rw [UInt8.toNat_ofNat_of_lt' (by change _ < 256; omega)]
      exact Char.ofNat_toNat c
    rw [List.flatMap_cons, hBytes, List.singleton_append, List.map_cons, hChar, ih h.2]

theorem toList_eq_asciiChars (s : String) : s.toList = asciiChars s := by
  have hBytes : s.toByteArray.data.toList = s.toList.flatMap String.utf8EncodeChar := by
    conv_lhs => rw [← String.ofList_toList (s := s), String.toByteArray_ofList, List.utf8Encode, List.toList_data_toByteArray]
  rw [asciiChars, hBytes]
  split
  · rename_i h
    exact (chars_of_ascii s.toList h).symm
  · rfl

end Bajutsu
