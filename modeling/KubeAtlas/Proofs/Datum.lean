import KubeAtlas.Graph.Basic
/-!
# Keys and texts of data

A key forgets how a value is spelt, except for text: what has the key of a text is that text. A
label and its tree have the same key, and two labels with one key count as present alike. What a
value is shown as is never empty, unless it is the empty text. And two data can be compared.
-/

namespace KubeAtlas

namespace Datum

mutual

def same : Datum → Datum → Bool
  | .scalar s, .scalar t => s == t
  | .date d, .date e => d == e
  | .moment m, .moment n => m == n
  | .list items, .list others => sameItems items others
  | .tuple items, .tuple others => sameItems items others
  | .set items, .set others => sameItems items others
  | .map entries, .map others => sameEntries entries others
  | .cycle up, .cycle other => up == other
  | _, _ => false

def sameItems : List Datum → List Datum → Bool
  | [], [] => true
  | d :: rest, e :: others => same d e && sameItems rest others
  | _, _ => false

def sameEntries : List (Datum × Datum) → List (Datum × Datum) → Bool
  | [], [] => true
  | (k, v) :: rest, (l, w) :: others => same k l && same v w && sameEntries rest others
  | _, _ => false

end

mutual

theorem same_iff : ∀ d e : Datum, same d e = true ↔ d = e
  | .scalar s, e => by cases e <;> simp [same]
  | .date d, e => by cases e <;> simp [same]
  | .moment m, e => by cases e <;> simp [same]
  | .list items, e => by cases e <;> simp [same, sameItems_iff items]
  | .tuple items, e => by cases e <;> simp [same, sameItems_iff items]
  | .set items, e => by cases e <;> simp [same, sameItems_iff items]
  | .map entries, e => by cases e <;> simp [same, sameEntries_iff entries]
  | .cycle up, e => by cases e <;> simp [same]

theorem sameItems_iff : ∀ items others : List Datum,
    sameItems items others = true ↔ items = others
  | [], others => by cases others <;> simp [sameItems]
  | d :: rest, others => by
      cases others <;> simp [sameItems, same_iff d, sameItems_iff rest]

theorem sameEntries_iff : ∀ entries others : List (Datum × Datum),
    sameEntries entries others = true ↔ entries = others
  | [], others => by cases others <;> simp [sameEntries]
  | (k, v) :: rest, others => by
      cases others <;>
        simp [sameEntries, same_iff k, same_iff v, sameEntries_iff rest, Prod.ext_iff]

end

instance : DecidableEq Datum := fun d e => decidable_of_iff (same d e = true) (same_iff d e)

end Datum

/-! ### Keys -/

theorem Datum.eq_str_of_key? {d : Datum} {s : String} (h : d.key? = some (.str s)) :
    d = .str s := by
  cases d with
  | scalar v =>
      rw [Datum.key?, Option.some.injEq, Key.atom.injEq] at h
      cases v with
      | str t => rw [Scalar.key, Key.Atom.str.injEq] at h; rw [h]
      | float x => rw [Scalar.key] at h; split at h <;> simp at h
      | _ => simp [Scalar.key] at h
  | moment m =>
      rw [Datum.key?, Option.some.injEq, Key.atom.injEq, Moment.key] at h
      split at h <;> simp at h
  | tuple items => simp [Datum.key?, Option.map_eq_some_iff] at h
  | _ => simp [Datum.key?] at h

theorem Datum.str?_eq_some_iff {d : Datum} {s : String} :
    d.str? = some s ↔ d.key? = some (.str s) := by
  constructor
  · intro h
    cases d with
    | scalar v => cases v <;> cases h; rfl
    | _ => cases h
  · intro h
    rw [Datum.eq_str_of_key? h]
    rfl

mutual

theorem Label.key?_datum (l : Label) : l.datum.key? = some l.key := by
  cases l with
  | tuple id items => rw [datum, Datum.key?, keys?_data items, key, Option.map_some]
  | _ => rfl

theorem Label.keys?_data (items : List Label) : Datum.keys? (data items) = some (keys items) := by
  cases items with
  | nil => rfl
  | cons l rest => rw [data, Datum.keys?, key?_datum l, keys?_data rest, keys]

end

theorem Label.eq_str_of_key {l : Label} {s : String} (h : l.key = .str s) : l = .str s := by
  have hdatum : l.datum = .str s := Datum.eq_str_of_key? (by rw [Label.key?_datum, h])
  cases l with
  | scalar t => exact congrArg Label.scalar (Datum.scalar.inj hdatum)
  | _ => cases hdatum

/-! ### Truth -/

theorem Binary64.toInt?_eq_some_zero_iff (x : Binary64) : x.toInt? = some 0 ↔ x.isZero = true := by
  rw [toInt?, truncate?, isZero, Bool.and_eq_true, beq_iff_eq]
  constructor
  · intro h
    split at h
    · next hwhole =>
        rw [if_pos hwhole.1, Option.some.injEq] at h
        refine ⟨hwhole.1, ?_⟩
        by_cases hexponent : 0 ≤ x.exponent
        · simp only [if_pos hexponent, Nat.shiftLeft_eq] at h
          have hproduct : x.significand * 2 ^ x.exponent.toNat = 0 := by split at h <;> omega
          exact (Nat.mul_eq_zero.1 hproduct).resolve_right (Nat.ne_of_gt (Nat.two_pow_pos _))
        · have hrest := hwhole.2.resolve_left hexponent
          simp only [if_neg hexponent, Nat.shiftRight_eq_div_pow] at h
          rw [Nat.one_shiftLeft] at hrest
          have hquotient : x.significand / 2 ^ (-x.exponent).toNat = 0 := by split at h <;> omega
          rw [← Nat.div_add_mod x.significand (2 ^ (-x.exponent).toNat), hquotient, hrest,
            Nat.mul_zero]
    · cases h
  · rintro ⟨hfinite, hzero⟩
    rw [if_pos ⟨hfinite, .inr (by rw [hzero, Nat.zero_mod])⟩, if_pos hfinite, hzero]
    simp

def Key.Atom.isTruthy : Key.Atom → Bool
  | null => false
  | int n => n != 0
  | str s => !s.isEmpty
  | bytes b => !b.isEmpty
  | float _ | foreign _ | date _ | wallClock _ | instant _ => true

def Key.isTruthy : Key → Bool
  | atom a => a.isTruthy
  | tuple items => !items.isEmpty

theorem Scalar.isTruthy_key (s : Scalar) : s.key.isTruthy = s.isTruthy := by
  cases s with
  | bool b => cases b <;> rfl
  | float x =>
      have hzero := Binary64.toInt?_eq_some_zero_iff x
      rw [key, isTruthy]
      cases hint : x.toInt? with
      | none =>
          have hnot : x.isZero = false := by simpa [hint] using hzero
          rw [hnot]
          rfl
      | some n =>
          rw [hint, Option.some.injEq] at hzero
          by_cases hn : n = 0
          · rw [hzero.1 hn, hn]
            rfl
          · have hnot : x.isZero = false := by simpa [hn] using hzero
            rw [hnot]
            simpa [Key.Atom.isTruthy] using hn
  | _ => rfl

theorem Label.isTruthy_key (l : Label) : l.key.isTruthy = l.isTruthy := by
  cases l with
  | scalar s => exact s.isTruthy_key
  | date id d => rfl
  | moment id m =>
      rw [key, Moment.key, isTruthy]
      split <;> rfl
  | tuple id items => cases items <;> rfl

/-! ### Texts -/

theorem Binary64.Layout.render_plain_ne_nil (d : Decimal) : Layout.plain.render d ≠ [] := by
  rw [Layout.render]
  split
  · split
    · exact List.cons_ne_nil _ _
    · split <;> simp [Layout.plain]
  · simp

theorem Binary64.text_ne_empty (x : Binary64) : x.text ≠ "" := by
  rw [text]
  split
  · decide
  · simp only
    split
    · simp
    · split
      · simp
      · simp [Layout.render_plain_ne_nil]

theorem toString_int_ne_empty (n : Int) : toString n ≠ "" := by
  cases n with
  | ofNat n =>
      have h : (toString (Int.ofNat n)) = Nat.repr n := rfl
      rw [h, Nat.repr]
      simp
  | negSucc n =>
      have h : (toString (Int.negSucc n)) = "-" ++ Nat.repr (n + 1) := rfl
      rw [h]
      simp

theorem Datum.displayScalar_ne_empty (s : Scalar) : Datum.displayScalar s ≠ "" := by
  cases s with
  | str s => simp [displayScalar, Text.quoted]
  | int n => exact toString_int_ne_empty n
  | float x => exact Binary64.text_ne_empty x
  | bool b => cases b <;> decide
  | null => decide
  | bytes b => simp [displayScalar, Text.quotedBytes]
  | foreign name => simp [displayScalar]

theorem Datum.displayIn_scalar (above : List Kind) (s : Scalar) :
    displayIn above (.scalar s) = displayScalar s := rfl

theorem Datum.text_ne_empty {d : Datum} (hd : d ≠ .str "") : d.text ≠ "" := by
  cases d with
  | scalar s =>
      cases s with
      | str s => exact fun h => hd (congrArg Datum.str h)
      | _ =>
          simp only [text, display, displayIn_scalar]
          exact displayScalar_ne_empty _
  | date d =>
      rw [text, Date.text]
      simp
  | moment m =>
      rw [text, Moment.text]
      simp
  | list items =>
      have hlist : (list items).text =
          "[" ++ ", ".intercalate (displayItems [.list] items) ++ "]" := rfl
      simp [hlist]
  | tuple items =>
      rcases items with _ | ⟨item, _ | ⟨second, rest⟩⟩
      · decide
      · have hone : (tuple [item]).text = "(" ++ displayIn [.tuple] item ++ ",)" := rfl
        simp [hone]
      · have hmany : (tuple (item :: second :: rest)).text =
            "(" ++ ", ".intercalate (displayItems [.tuple] (item :: second :: rest)) ++ ")" := rfl
        simp [hmany]
  | set items =>
      cases items with
      | nil => decide
      | cons item rest =>
          have hset : (set (item :: rest)).text =
              "\x7b" ++ ", ".intercalate (displayItems [.set] (item :: rest)) ++ "\x7d" := rfl
          simp [hset]
  | map entries =>
      have hmap : (map entries).text =
          "\x7b" ++ ", ".intercalate (displayEntries [.map] entries) ++ "\x7d" := rfl
      simp [hmap]
  | cycle up =>
      have hcut : (cycle up).text = displayCut none := rfl
      simp [hcut, displayCut]

end KubeAtlas
