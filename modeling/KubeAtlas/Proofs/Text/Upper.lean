import Mathlib
import KubeAtlas.Text.Upper
/-!
# What upper case does to a text

A space or a line feed in the upper case of a text stood in the text already: no character has a
blank of ASCII for its upper case, except such a blank itself. And upper case does not see in which
case the letters of ASCII are spelt.
-/

namespace KubeAtlas.Text

variable {c d : Char}

theorem upperRuns_beyond : ∀ r ∈ upperRuns, (32 : Int) < r.1 + r.2.2.2 := by decide +kernel

theorem upperExpansions_beyond : ∀ e ∈ upperExpansions, ∀ n ∈ e.2, 32 < n := by decide +kernel

theorem toNat_ofNat_cases (n : Nat) : (Char.ofNat n).toNat = n ∨ (Char.ofNat n).toNat = 0 := by
  unfold Char.ofNat
  split
  · exact .inl rfl
  · exact .inr rfl

theorem forall_ascii {p : Char → Prop} (h : ∀ n < 128, p (Char.ofNat n)) (hc : c.toNat < 128) :
    p c := by
  rw [← Char.ofNat_toNat c]
  exact h c.toNat hc

theorem blank_of_mem_upperChar (hd : d ∈ upperChar c) (hpos : 0 < d.toNat) (hblank : d.toNat ≤ 32) :
    d = c := by
  have hbeyond : ∀ n, 32 < n → d ≠ Char.ofNat n := by
    rintro n hn rfl
    have hcases := toNat_ofNat_cases n
    omega
  rw [upperChar] at hd
  split at hd
  · next hc =>
      obtain rfl := List.mem_singleton.1 hd
      have hall : ∀ n < 128, (Char.ofNat n).toUpper.toNat ≤ 32 →
          (Char.ofNat n).toUpper = Char.ofNat n := by decide +kernel
      exact forall_ascii (p := fun c => c.toUpper.toNat ≤ 32 → c.toUpper = c) hall hc hblank
  · split at hd
    · next e image hfind =>
        obtain ⟨n, hn, rfl⟩ := List.mem_map.1 hd
        have hn' := upperExpansions_beyond _ (List.mem_of_find?_eq_some hfind) n hn
        exact absurd rfl (hbeyond n hn')
    · split at hd
      · next first count step offset hfind =>
          obtain rfl := List.mem_singleton.1 hd
          have hrun := List.find?_some hfind
          have hfirst : first ≤ c.toNat := by simp at hrun; exact hrun.1.1
          have himage := upperRuns_beyond _ (List.mem_of_find?_eq_some hfind)
          refine absurd rfl (hbeyond _ ?_)
          simp only at himage
          omega
      · exact List.mem_singleton.1 hd

theorem toLower_of_le (hc : 128 ≤ c.toNat) : c.toLower = c := by
  rw [Char.toLower, dif_neg]
  rintro ⟨-, hle⟩
  have hle' : c.toNat ≤ 90 := hle
  omega

theorem upperChar_toLower (c : Char) : upperChar c.toLower = upperChar c := by
  by_cases hc : c.toNat < 128
  · have hall : ∀ n < 128, upperChar (Char.ofNat n).toLower = upperChar (Char.ofNat n) := by
      decide +kernel
    exact forall_ascii (p := fun c => upperChar c.toLower = upperChar c) hall hc
  · rw [toLower_of_le (Nat.le_of_not_lt hc)]

theorem toList_upper (s : String) : (upper s).toList = s.toList.flatMap upperChar := by
  rw [upper, String.toList_ofList]

theorem mem_of_mem_upper {s : String} (hd : d ∈ (upper s).toList) (hpos : 0 < d.toNat)
    (hblank : d.toNat ≤ 32) : d ∈ s.toList := by
  rw [toList_upper] at hd
  obtain ⟨c, hc, hmem⟩ := List.mem_flatMap.1 hd
  rw [blank_of_mem_upperChar hmem hpos hblank]
  exact hc

/-- Texts that differ in the case of the letters of ASCII have one upper case. -/
theorem upper_eq_of_toLower {s t : String}
    (h : s.toList.map Char.toLower = t.toList.map Char.toLower) : upper s = upper t := by
  have hlower : ∀ u : String,
      upper u = String.ofList ((u.toList.map Char.toLower).flatMap upperChar) := by
    intro u
    rw [upper, List.flatMap_map, funext upperChar_toLower]
  rw [hlower, hlower, h]

end KubeAtlas.Text
