import Mathlib.Tactic.SplitIfs
import KubeAtlas.Text.Utf8
/-!
# What the bytes of a text say

No two texts have the same bytes. An ASCII character is a byte of its own, and no other character
has that byte among its bytes; so a text can be searched for a line feed in its bytes.
-/

namespace KubeAtlas.Text.Utf8

theorem toNat_lt (c : Char) : c.toNat < 0x110000 := by
  have hvalid : c.toNat.isValidChar := c.valid
  unfold Nat.isValidChar at hvalid
  omega

theorem encodeChar_eq (c : Char) : encodeChar c = String.utf8EncodeChar c := by
  have hmax := toNat_lt c
  have hval : c.val.toNat = c.toNat := rfl
  simp only [encodeChar, String.utf8EncodeChar, hval, Nat.toUInt8]
  split_ifs
  any_goals omega
  · rfl
  all_goals
    simp only [List.cons.injEq, and_true]
    refine ⟨congrArg UInt8.ofNat ?_, ?_⟩
    · omega
  · exact congrArg UInt8.ofNat (by omega)
  · exact ⟨congrArg UInt8.ofNat (by omega), congrArg UInt8.ofNat (by omega)⟩
  · exact ⟨congrArg UInt8.ofNat (by omega), congrArg UInt8.ofNat (by omega),
      congrArg UInt8.ofNat (by omega)⟩

theorem encode_injective {s t : List Char} (h : encode s = encode t) : s = t := by
  have hbytes : ∀ u : List Char, u.utf8Encode = (encode u).toByteArray := by
    intro u
    rw [List.utf8Encode, encode, funext encodeChar_eq]
  apply String.ofList_injective
  apply String.toByteArray_inj.1
  rw [String.toByteArray_ofList, String.toByteArray_ofList, hbytes, hbytes, h]

theorem mem_encodeChar_iff {b : UInt8} (hb : b.toNat < 128) (c : Char) :
    b ∈ encodeChar c ↔ c.toNat = b.toNat := by
  have hmax := toNat_lt c
  have hbyte : ∀ n < 256, b = UInt8.ofNat n ↔ b.toNat = n := by
    intro n hn
    rw [← UInt8.toNat_inj, UInt8.toNat_ofNat', Nat.mod_eq_of_lt hn]
  simp only [encodeChar, Nat.toUInt8]
  split_ifs
  -- every byte of a longer character is at least 128
  all_goals
    simp only [List.mem_cons, List.not_mem_nil, or_false]
    simp (disch := omega) only [hbyte]
    omega

theorem mem_encode_iff {b : UInt8} (hb : b.toNat < 128) (s : List Char) :
    b ∈ encode s ↔ ∃ c ∈ s, c.toNat = b.toNat := by
  simp only [encode, List.mem_flatMap, mem_encodeChar_iff hb]

end KubeAtlas.Text.Utf8
