import KubeAtlas.Text.Base64
import KubeAtlas.Text.Blank
import Mathlib.Data.List.Basic
/-!
# Base64 there and back

Three bytes are read from the four characters they are written with, whatever follows, so that a
text is read group by group up to the last group, which has the pads. A text that was written holds
characters of the alphabet and pads and nothing else, so that taking out blanks leaves it as it is,
and gives it back if blanks were put in.

The strict reading does not pass over anything. It can end before the end of the text only at the
pad that completes a group, and then refuses what follows; so a character that is neither of the
alphabet nor a pad is fatal wherever it stands.
-/

namespace KubeAtlas.Text

/-- A text with blanks put in, anywhere. -/
inductive Spaced : List Char → List Char → Prop
  | nil : Spaced [] []
  | keep (c : Char) {s t : List Char} (h : Spaced s t) : Spaced (c :: s) (c :: t)
  | blank {c : Char} (hc : isBlank c = true) {s t : List Char} (h : Spaced s t) : Spaced s (c :: t)

namespace Spaced

variable {s t s' t' newline : List Char}

theorem squeeze_eq (h : Spaced s t) : squeeze t = squeeze s := by
  induction h with
  | nil => rfl
  | keep c _ ih =>
      rw [squeeze, squeeze, List.filter_cons, List.filter_cons]
      exact congrArg (fun rest => if !isBlank c then c :: rest else rest) ih
  | blank hc _ ih =>
      rw [squeeze, List.filter_cons_of_neg (by simp [hc])]
      exact ih

theorem refl (s : List Char) : Spaced s s := by
  induction s with
  | nil => exact nil
  | cons c s ih => exact ih.keep c

theorem append (h : Spaced s t) (h' : Spaced s' t') : Spaced (s ++ s') (t ++ t') := by
  induction h with
  | nil => exact h'
  | keep c _ ih => exact ih.keep c
  | blank hc _ ih => exact ih.blank hc

theorem of_blanks (h : ∀ c ∈ newline, isBlank c = true) : Spaced [] newline := by
  induction newline with
  | nil => exact nil
  | cons c rest ih =>
      obtain ⟨hc, hrest⟩ := List.forall_mem_cons.1 h
      exact (ih hrest).blank hc

theorem intercalate (h : ∀ c ∈ newline, isBlank c = true) (lines : List (List Char)) :
    Spaced lines.flatten (newline.intercalate lines) := by
  induction lines with
  | nil => exact nil
  | cons line lines ih =>
      cases lines with
      | nil =>
          rw [List.intercalate_singleton, List.flatten_singleton]
          exact refl line
      | cons next rest =>
          rw [List.intercalate_cons_cons, List.flatten_cons, List.append_assoc]
          exact (refl line).append ((of_blanks h).append ih)

end Spaced

namespace Base64

theorem sextet?_sextetChar : ∀ n < 64, sextet? (sextetChar n) = some n := by decide +kernel

theorem sextetChar_ne_pad : ∀ n < 64, sextetChar n ≠ '=' := by decide +kernel

theorem sextetChar_plain :
    ∀ n < 64, (sextetChar n).toNat < 128 ∧ isBlank (sextetChar n) = false := by decide +kernel

def Reading.after (bytes : List UInt8) : Reading := ⟨[], 0, false, bytes⟩

variable {strict : Bool} {bytes done : List UInt8}

theorem read_sextetChar {r : Reading} (hr : r.padded = false) {n : Nat} (hn : n < 64)
    (rest : List Char) : read strict r (sextetChar n :: rest) = read strict (r.add n) rest := by
  rw [read.eq_3 strict r (sextetChar n) rest (sextetChar_ne_pad n hn), sextet?_sextetChar n hn]
  simp [hr]

theorem ofNat_eq {n : Nat} {a : UInt8} (hn : n % 256 = a.toNat) : UInt8.ofNat n = a :=
  UInt8.toNat_inj.1 (UInt8.toNat_ofNat'.trans hn)

/-! ### Groups -/

theorem read_group (a b c : UInt8) (rest : List UInt8) :
    read strict (.after done) (encode (a :: b :: c :: rest)) =
      read strict (.after (c :: b :: a :: done)) (encode rest) := by
  have ha := a.toNat_lt
  have hb := b.toNat_lt
  have hc := c.toNat_lt
  simp only [encode]
  rw [read_sextetChar rfl (by omega), read_sextetChar rfl (by omega),
    read_sextetChar rfl (by omega), read_sextetChar rfl (by omega)]
  simp only [Reading.add, Reading.after]
  rw [ofNat_eq (a := c) (by omega), ofNat_eq (a := b) (by omega), ofNat_eq (a := a) (by omega)]

theorem read_pair (a b : UInt8) :
    read strict (.after done) (encode [a, b]) = .ok (done.reverse ++ [a, b]) := by
  have ha := a.toNat_lt
  have hb := b.toNat_lt
  simp only [encode]
  rw [read_sextetChar rfl (by omega), read_sextetChar rfl (by omega),
    read_sextetChar rfl (by omega)]
  simp only [Reading.add, Reading.after]
  rw [ofNat_eq (a := b) (by omega), ofNat_eq (a := a) (by omega)]
  simp [read, pure, Except.pure]

theorem read_single (a : UInt8) :
    read strict (.after done) (encode [a]) = .ok (done.reverse ++ [a]) := by
  have ha := a.toNat_lt
  simp only [encode]
  rw [read_sextetChar rfl (by omega), read_sextetChar rfl (by omega)]
  simp only [Reading.add, Reading.after]
  rw [ofNat_eq (a := a) (by omega)]
  simp [read, pure, Except.pure]

theorem read_encode (bytes done : List UInt8) :
    read strict (.after done) (encode bytes) = .ok (done.reverse ++ bytes) := by
  induction bytes using encode.induct generalizing done with
  | case1 => simp [encode, read, Reading.after, Reading.finish, pure, Except.pure]
  | case2 a => exact read_single a
  | case3 a b => exact read_pair a b
  | case4 a b c rest ih =>
      rw [read_group, ih]
      simp

/-! ### The characters -/

theorem mem_encode {c : Char} (hc : c ∈ encode bytes) : c = '=' ∨ ∃ n < 64, c = sextetChar n := by
  induction bytes using encode.induct with
  | case1 => cases hc
  | case2 a =>
      have ha := a.toNat_lt
      simp only [encode, List.mem_cons, List.not_mem_nil, or_false] at hc
      rcases hc with rfl | rfl | rfl | rfl
      exacts [.inr ⟨_, by omega, rfl⟩, .inr ⟨_, by omega, rfl⟩, .inl rfl, .inl rfl]
  | case3 a b =>
      have ha := a.toNat_lt
      have hb := b.toNat_lt
      simp only [encode, List.mem_cons, List.not_mem_nil, or_false] at hc
      rcases hc with rfl | rfl | rfl | rfl
      exacts [.inr ⟨_, by omega, rfl⟩, .inr ⟨_, by omega, rfl⟩, .inr ⟨_, by omega, rfl⟩, .inl rfl]
  | case4 a b c rest ih =>
      have ha := a.toNat_lt
      have hb := b.toNat_lt
      have hc' := c.toNat_lt
      simp only [encode, List.mem_cons] at hc
      rcases hc with rfl | rfl | rfl | rfl | hc
      exacts [.inr ⟨_, by omega, rfl⟩, .inr ⟨_, by omega, rfl⟩, .inr ⟨_, by omega, rfl⟩,
        .inr ⟨_, by omega, rfl⟩, ih hc]

theorem plain_of_mem_encode {c : Char} (hc : c ∈ encode bytes) :
    c.toNat < 128 ∧ isBlank c = false := by
  rcases mem_encode hc with rfl | ⟨n, hn, rfl⟩
  · decide
  · exact sextetChar_plain n hn

theorem head?_encode : (encode bytes).head? ≠ some '=' := by
  cases bytes using encode.fun_cases with
  | case1 => simp [encode]
  | case2 a =>
      have ha := a.toNat_lt
      simpa [encode] using sextetChar_ne_pad _ (by omega)
  | case3 a b =>
      have ha := a.toNat_lt
      have hb := b.toNat_lt
      simpa [encode] using sextetChar_ne_pad _ (by omega)
  | case4 a b c rest =>
      have ha := a.toNat_lt
      have hb := b.toNat_lt
      have hc := c.toNat_lt
      simpa [encode] using sextetChar_ne_pad _ (by omega)

theorem decode_encode (bytes : List UInt8) : decode (encode bytes) = .ok bytes := by
  have hascii : ¬ (encode bytes).any (fun c => 128 ≤ c.toNat) = true := by
    simp only [List.any_eq_true, decide_eq_true_eq, not_exists, not_and, Nat.not_le]
    exact fun c hc => (plain_of_mem_encode hc).1
  rw [decode, if_neg hascii, if_neg head?_encode]
  exact read_encode bytes []

theorem squeeze_encode (bytes : List UInt8) : squeeze (encode bytes) = encode bytes := by
  refine List.filter_eq_self.2 fun c hc => ?_
  rw [(plain_of_mem_encode hc).2]
  rfl

/-! ### Other characters -/

/-- The letters and digits of ASCII, the two signs of the alphabet, and the pad. -/
def IsData (c : Char) : Prop :=
  ('A' ≤ c ∧ c ≤ 'Z') ∨ ('a' ≤ c ∧ c ≤ 'z') ∨ ('0' ≤ c ∧ c ≤ '9') ∨ c = '+' ∨ c = '/' ∨ c = '='

theorem sextet?_of_foreign {c : Char} (hc : ¬ IsData c) : sextet? c = none := by
  simp only [IsData, not_or] at hc
  obtain ⟨hupper, hlower, hdigit, hplus, hslash, -⟩ := hc
  rw [sextet?, if_neg hupper, if_neg hlower, if_neg hdigit, if_neg hplus, if_neg hslash]

/-- A character that is no data is met before the strict reading can end. -/
theorem read_of_foreign {s : List Char} {c : Char} (hmem : c ∈ s) (hc : ¬ IsData c)
    (r : Reading) : ∃ e, read true r s = .error e := by
  induction s generalizing r with
  | nil => cases hmem
  | cons d rest ih =>
      by_cases hpad : d = '='
      · subst hpad
        have hrest : c ∈ rest := by
          rcases List.mem_cons.1 hmem with rfl | hrest
          · exact absurd (.inr (.inr (.inr (.inr (.inr rfl))))) hc
          · exact hrest
        simp only [read]
        split
        · rw [if_pos (by simp [List.ne_nil_of_mem hrest])]
          exact ⟨_, rfl⟩
        · exact ih hrest _
      · rw [read.eq_3 true r d rest hpad]
        cases hd : sextet? d with
        | none => exact ⟨.foreignCharacter, rfl⟩
        | some n =>
            have hrest : c ∈ rest := by
              rcases List.mem_cons.1 hmem with rfl | hrest
              · rw [sextet?_of_foreign hc] at hd
                cases hd
              · exact hrest
            simp only
            split
            · exact ⟨_, rfl⟩
            · exact ih hrest _

/-- No text with another character is base64. -/
theorem decode_of_foreign {s : List Char} {c : Char} (hmem : c ∈ s) (hc : ¬ IsData c) :
    ∃ e, decode s = .error e := by
  rw [decode]
  split
  · exact ⟨_, rfl⟩
  · split
    · exact ⟨_, rfl⟩
    · exact read_of_foreign hmem hc .start

end Base64
end KubeAtlas.Text
