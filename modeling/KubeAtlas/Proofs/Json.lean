import Mathlib.Data.List.TakeDrop
import Mathlib.Data.List.TakeWhile
import KubeAtlas.Json.Reader
import KubeAtlas.Json.Writer
import KubeAtlas.Proofs.Except
import KubeAtlas.Proofs.Table
/-!
# What a JSON text can hold

A JSON text is read as scalars, lists and mappings, all the way down. Scalars can be keys and the
other two cannot, so that what is read from a text is a key unless it is a list or a mapping. And it
can be written again (`exists_write_of_isJson`).

A text with an integer that is too long is JSON and is not read. `readWithin none` reads it, and
what it reads is what `read` reads, unless there is such an integer (`read_of_readWithin`).
-/

namespace KubeAtlas

namespace Datum

/-- Scalars with a JSON text, and lists of such data and mappings from text to such data. -/
inductive IsJson : Datum → Prop
  | scalar {s : Scalar} {text : String} (h : Json.writeScalar s = .ok text) : IsJson (.scalar s)
  | list {items : List Datum} (h : ∀ d ∈ items, IsJson d) : IsJson (.list items)
  | map {entries : List (Datum × Datum)} (hnames : ∀ e ∈ entries, ∃ name, e.1 = .str name)
      (h : ∀ e ∈ entries, IsJson e.2) : IsJson (.map entries)

def IsContainer (d : Datum) : Prop := (∃ items, d = .list items) ∨ ∃ entries, d = .map entries

theorem isJson_str (s : String) : IsJson (.str s) := .scalar rfl

theorem IsJson.key?_eq_none_iff {d : Datum} (h : d.IsJson) : d.key? = none ↔ d.IsContainer := by
  cases h with
  | scalar h => simp [key?, IsContainer]
  | list h => simp [key?, IsContainer]
  | map hnames h => simp [key?, IsContainer]

theorem IsJson.get? {d found : Datum} {name : String} (h : d.IsJson)
    (hget : d.get? name = some found) : found.IsJson := by
  cases h with
  | scalar h => cases hget
  | list h => cases hget
  | map hnames h =>
      obtain ⟨e, he, rfl⟩ := Option.map_eq_some_iff.1 hget
      exact h e (List.mem_of_find?_eq_some he)

end Datum

namespace Json

open Datum (IsJson)

/-! ### What can be written -/

def writeMember (sp : Spacing) (e : Datum × Datum) : Except Obstacle String := do
  let name ← writeName e.1
  let text ← write sp e.2
  pure (name ++ sp.colon ++ text)

section Write

variable {sp : Spacing} {items : List Datum} {entries : List (Datum × Datum)}

theorem writeItems_eq_mapM (sp : Spacing) (items : List Datum) :
    writeItems sp items = items.mapM (write sp) := by
  induction items with
  | nil => rfl
  | cons d rest ih => rw [writeItems, List.mapM_cons, ih]

theorem writeMembers_eq_mapM (sp : Spacing) (entries : List (Datum × Datum)) :
    writeMembers sp entries = entries.mapM (writeMember sp) := by
  induction entries with
  | nil => rfl
  | cons e rest ih =>
      rw [writeMembers, List.mapM_cons, ih, writeMember]
      simp only [bind_assoc, pure_bind]

theorem write_list_eq_ok_iff {text : String} : write sp (.list items) = .ok text ↔
    ∃ parts, items.mapM (write sp) = .ok parts ∧
      text = "[" ++ sp.item.intercalate parts ++ "]" := by
  rw [write, writeItems_eq_mapM, bind_eq_ok_iff]
  exact exists_congr fun parts => and_congr_right fun _ => by
    rw [pure_eq_ok, Except.ok.injEq, eq_comm]

theorem write_map_eq_ok_iff {text : String} : write sp (.map entries) = .ok text ↔
    ∃ parts, entries.mapM (writeMember sp) = .ok parts ∧
      text = "\x7b" ++ sp.item.intercalate parts ++ "\x7d" := by
  rw [write, writeMembers_eq_mapM, bind_eq_ok_iff]
  exact exists_congr fun parts => and_congr_right fun _ => by
    rw [pure_eq_ok, Except.ok.injEq, eq_comm]

theorem writeMember_eq_ok_iff {e : Datum × Datum} {part : String} :
    writeMember sp e = .ok part ↔ ∃ name text, writeName e.1 = .ok name ∧
      write sp e.2 = .ok text ∧ part = name ++ sp.colon ++ text := by
  rw [writeMember, bind_eq_ok_iff]
  refine exists_congr fun name => ?_
  rw [bind_eq_ok_iff, ← exists_and_left]
  refine exists_congr fun text => and_congr_right fun _ => and_congr_right fun _ => ?_
  rw [pure_eq_ok, Except.ok.injEq, eq_comm]

theorem exists_write_list_iff : (∃ text, write sp (.list items) = .ok text) ↔
    ∀ d ∈ items, ∃ text, write sp d = .ok text := by
  rw [← exists_mapM_iff]
  simp only [write_list_eq_ok_iff]
  exact ⟨fun ⟨_, parts, h, _⟩ => ⟨parts, h⟩, fun ⟨parts, h⟩ => ⟨_, parts, h, rfl⟩⟩

theorem exists_write_map_iff : (∃ text, write sp (.map entries) = .ok text) ↔
    ∀ e ∈ entries, (∃ name, writeName e.1 = .ok name) ∧ ∃ text, write sp e.2 = .ok text := by
  have hmember (e : Datum × Datum) : (∃ part, writeMember sp e = .ok part) ↔
      (∃ name, writeName e.1 = .ok name) ∧ ∃ text, write sp e.2 = .ok text := by
    simp only [writeMember_eq_ok_iff]
    exact ⟨fun ⟨_, name, text, hname, htext, _⟩ => ⟨⟨name, hname⟩, text, htext⟩,
      fun ⟨⟨name, hname⟩, text, htext⟩ => ⟨_, name, text, hname, htext, rfl⟩⟩
  simp only [← hmember, ← exists_mapM_iff, write_map_eq_ok_iff]
  exact ⟨fun ⟨_, parts, h, _⟩ => ⟨parts, h⟩, fun ⟨parts, h⟩ => ⟨_, parts, h, rfl⟩⟩

end Write

mutual

theorem exists_write_of_write (sp other : Spacing) : ∀ d : Datum,
    (∃ text, write sp d = .ok text) → ∃ text, write other d = .ok text
  | .scalar _, h => h
  | .list items, h => exists_write_list_iff.2
      (exists_write_of_items sp other items (exists_write_list_iff.1 h))
  | .tuple items, h => exists_write_list_iff.2
      (exists_write_of_items sp other items (exists_write_list_iff.1 h))
  | .map entries, h => exists_write_map_iff.2
      (exists_write_of_entries sp other entries (exists_write_map_iff.1 h))
  | .date _, h | .moment _, h | .set _, h | .cycle _, h => nomatch h

theorem exists_write_of_items (sp other : Spacing) : ∀ items : List Datum,
    (∀ d ∈ items, ∃ text, write sp d = .ok text) → ∀ d ∈ items, ∃ text, write other d = .ok text
  | [], _ => List.forall_mem_nil _
  | d :: rest, h => by
      obtain ⟨hd, hrest⟩ := List.forall_mem_cons.1 h
      exact List.forall_mem_cons.2
        ⟨exists_write_of_write sp other d hd, exists_write_of_items sp other rest hrest⟩

theorem exists_write_of_entries (sp other : Spacing) : ∀ entries : List (Datum × Datum),
    (∀ e ∈ entries, (∃ name, writeName e.1 = .ok name) ∧ ∃ text, write sp e.2 = .ok text) →
      ∀ e ∈ entries, (∃ name, writeName e.1 = .ok name) ∧ ∃ text, write other e.2 = .ok text
  | [], _ => List.forall_mem_nil _
  | (k, v) :: rest, h => by
      obtain ⟨⟨hk, hv⟩, hrest⟩ := List.forall_mem_cons.1 h
      exact List.forall_mem_cons.2
        ⟨⟨hk, exists_write_of_write sp other v hv⟩, exists_write_of_entries sp other rest hrest⟩

end

theorem exists_write_of_isJson {d : Datum} (h : d.IsJson) (sp : Spacing) :
    ∃ text, write sp d = .ok text := by
  induction h with
  | scalar h => exact ⟨_, h⟩
  | list _ ih => exact exists_write_list_iff.2 ih
  | map hnames _ ih =>
      refine exists_write_map_iff.2 fun e he => ⟨?_, ih e he⟩
      obtain ⟨name, hname⟩ := hnames e he
      exact ⟨_, congrArg writeName hname⟩

/-! ### Digits -/

theorem foldl_digits_lt {digits : List Nat} (h : ∀ d ∈ digits, d < 10) (n : Nat) :
    digits.foldl (fun n d => n * 10 + d) n < (n + 1) * Text.powerOfTen digits.length := by
  induction digits generalizing n with
  | nil => simp [Text.powerOfTen]
  | cons d rest ih =>
      obtain ⟨hd, hrest⟩ := List.forall_mem_cons.1 h
      have hle : n * 10 + d + 1 ≤ (n + 1) * 10 := by omega
      have hpower : Text.powerOfTen (rest.length + 1) = 10 * Text.powerOfTen rest.length :=
        Nat.mul_comm _ _
      calc rest.foldl (fun n d => n * 10 + d) (n * 10 + d)
          < (n * 10 + d + 1) * Text.powerOfTen rest.length := ih hrest _
        _ ≤ (n + 1) * 10 * Text.powerOfTen rest.length := Nat.mul_le_mul_right _ hle
        _ = (n + 1) * Text.powerOfTen (rest.length + 1) := by rw [Nat.mul_assoc, hpower]

theorem ofDigits_lt_powerOfTen {digits : List Nat} (h : ∀ d ∈ digits, d < 10) {m : Nat}
    (hm : digits.length ≤ m) : Text.ofDigits 10 digits < Text.powerOfTen m := by
  have hlt := foldl_digits_lt h 0
  rw [Nat.zero_add, Nat.one_mul] at hlt
  exact Nat.lt_of_lt_of_le hlt (Nat.pow_le_pow_right (by decide) hm)

theorem isDigit_of_integerPart {s whole rest : List Char} (h : integerPart s = (whole, rest)) :
    ∀ c ∈ whole, c.isDigit = true := by
  unfold integerPart at h
  split at h
  · cases h
    simp
  · rw [List.span_eq_takeWhile_dropWhile, Prod.mk.injEq] at h
    rw [← h.1]
    exact fun c hc => List.mem_takeWhile_imp hc

theorem isWritable_of_digits {whole : List Char} (hdigits : ∀ c ∈ whole, c.isDigit = true)
    (hlength : whole.length ≤ Number.maxDigits) (negative : Bool) :
    let n : Int := Text.ofDigits 10 (whole.map fun c => c.toNat - 48)
    Number.isWritable (if negative then -n else n) = true := by
  intro n
  have hvalues : ∀ d ∈ whole.map fun c => c.toNat - 48, d < 10 := by
    refine List.forall_mem_map.2 fun c hc => ?_
    have hc := hdigits c hc
    simp only [Char.isDigit, Bool.and_eq_true, decide_eq_true_eq] at hc
    have hle : c.toNat ≤ 57 := hc.2
    omega
  have hlt := ofDigits_lt_powerOfTen hvalues ((List.length_map _).trans_le hlength)
  have hsize : (if negative then -n else n).natAbs = n.natAbs := by
    split
    · exact Int.natAbs_neg n
    · rfl
  rw [Number.isWritable, hsize, decide_eq_true_eq]
  exact hlt

/-! ### What is read -/

section Read

variable {limit : Option Nat} (hlimit : ∀ n, isOver limit n = false → n ≤ Number.maxDigits)

include hlimit in
theorem isJson_number {s rest : List Char} {d : Datum} (h : number limit s = .ok (d, rest)) :
    d.IsJson := by
  unfold number at h
  split at h
  split at h
  · cases h
  · next whole left hwhole =>
      simp only at h
      split at h
      · split at h
        · cases h
        · next hshort =>
            cases h
            have hwritable := isWritable_of_digits (isDigit_of_integerPart hwhole)
              (hlimit _ (Bool.not_eq_true _ ▸ hshort))
            exact .scalar (by rw [writeScalar, if_pos (hwritable _)]; rfl)
      · split at h
        · cases h
          exact .scalar rfl
        · cases h

include hlimit in
theorem isJson_plainValue {s rest : List Char} {d : Datum}
    (h : plainValue limit s = .ok (d, rest)) : d.IsJson := by
  rw [plainValue] at h
  split at h
  · next word found hword =>
      cases h
      have hmem := List.mem_of_find?_eq_some hword
      simp only [words, List.mem_cons, Prod.mk.injEq, List.not_mem_nil, or_false] at hmem
      rcases hmem with ⟨-, rfl⟩ | ⟨-, rfl⟩ | ⟨-, rfl⟩ | ⟨-, rfl⟩ | ⟨-, rfl⟩ | ⟨-, rfl⟩ <;>
        exact .scalar rfl
  · exact isJson_number hlimit h

section Step

variable {fuel : Nat}
  (hvalue : ∀ {s rest d}, value limit fuel s = .ok (d, rest) → IsJson d)
  (helements : ∀ {s rest items}, elements limit fuel s = .ok (items, rest) →
    ∀ d ∈ items, IsJson d)
  (hmembers : ∀ {s rest es}, members limit fuel s = .ok (es, rest) → ∀ e ∈ es, IsJson e.2)

include hlimit helements hmembers in
theorem isJson_value_succ {s rest : List Char} {d : Datum}
    (h : value limit (fuel + 1) s = .ok (d, rest)) : d.IsJson := by
  rw [value.eq_def] at h
  simp only at h
  split at h
  · cases h
  · obtain ⟨⟨text, left⟩, -, h⟩ := bind_eq_ok_iff.1 h
    cases h
    exact Datum.isJson_str text
  · split at h
    · cases h
      exact .list (by simp)
    · obtain ⟨⟨items, left⟩, hitems, h⟩ := bind_eq_ok_iff.1 h
      cases h
      exact .list (helements hitems)
  · split at h
    · cases h
      exact .map (by simp) (by simp)
    · obtain ⟨⟨es, left⟩, hes, h⟩ := bind_eq_ok_iff.1 h
      cases h
      refine .map (List.forall_mem_map.2 fun e _ => ⟨e.1, rfl⟩)
        (List.forall_mem_map.2 fun e he => ?_)
      obtain ⟨-, name, hmem⟩ := Table.mem_ofList he
      exact hmembers hes (name, e.2) hmem
  · exact isJson_plainValue hlimit h

include hvalue helements in
theorem isJson_elements_succ {s rest : List Char} {items : List Datum}
    (h : elements limit (fuel + 1) s = .ok (items, rest)) : ∀ d ∈ items, IsJson d := by
  rw [elements] at h
  obtain ⟨⟨item, left⟩, hitem, h⟩ := bind_eq_ok_iff.1 h
  simp only at h
  split at h
  · cases h
    exact List.forall_mem_singleton.2 (hvalue hitem)
  · obtain ⟨⟨items, left⟩, hitems, h⟩ := bind_eq_ok_iff.1 h
    cases h
    exact List.forall_mem_cons.2 ⟨hvalue hitem, helements hitems⟩
  · cases h

include hvalue hmembers in
theorem isJson_members_succ {s rest : List Char} {es : List (String × Datum)}
    (h : members limit (fuel + 1) s = .ok (es, rest)) : ∀ e ∈ es, IsJson e.2 := by
  rw [members.eq_def] at h
  simp only at h
  split at h
  · obtain ⟨⟨name, left⟩, -, h⟩ := bind_eq_ok_iff.1 h
    simp only at h
    split at h
    · obtain ⟨⟨item, left⟩, hitem, h⟩ := bind_eq_ok_iff.1 h
      simp only at h
      split at h
      · cases h
        exact List.forall_mem_singleton.2 (hvalue hitem)
      · obtain ⟨⟨es, left⟩, hes, h⟩ := bind_eq_ok_iff.1 h
        cases h
        exact List.forall_mem_cons.2 ⟨hvalue hitem, hmembers hes⟩
      · cases h
    · cases h
  · cases h

end Step

include hlimit in
/-- The three readers, by induction on the bound that they share. -/
theorem isJson_parts (fuel : Nat) :
    (∀ {s rest d}, value limit fuel s = .ok (d, rest) → IsJson d) ∧
    (∀ {s rest items}, elements limit fuel s = .ok (items, rest) → ∀ d ∈ items, IsJson d) ∧
    ∀ {s rest es}, members limit fuel s = .ok (es, rest) → ∀ e ∈ es, IsJson e.2 := by
  induction fuel with
  | zero =>
      refine ⟨fun h => ?_, fun h => ?_, fun h => ?_⟩
      · cases h
      · cases h
      · cases h
  | succ fuel ih =>
      obtain ⟨hvalue, helements, hmembers⟩ := ih
      exact ⟨isJson_value_succ hlimit helements hmembers, isJson_elements_succ hvalue helements,
        isJson_members_succ hvalue hmembers⟩

end Read

theorem readWithin_eq_ok_iff {limit : Option Nat} {text : String} {d : Datum} :
    readWithin limit text = .ok d ↔ document limit text.toList = .ok d := by
  rw [readWithin]
  cases document limit text.toList <;> simp

theorem isJson_read {text : String} {d : Datum} (h : read text = .ok d) : d.IsJson := by
  have hlimit (n : Nat) (h : isOver (some Number.maxDigits) n = false) : n ≤ Number.maxDigits := by
    rw [isOver, Option.any_some, decide_eq_false_iff_not] at h
    exact Nat.le_of_not_lt h
  rw [read, readWithin_eq_ok_iff, document] at h
  split at h
  · cases h
  · obtain ⟨⟨item, rest⟩, hitem, h⟩ := bind_eq_ok_iff.1 h
    simp only at h
    split at h
    · cases h
      exact (isJson_parts hlimit _).1 hitem
    · cases h

/-! ### Integers that are too long -/

/-- What a reader with a limit makes of a text, beside what one without a limit does: the same, or
an integer was too long. -/
inductive Limited {α : Type} : Except Failure α → Except Failure α → Prop
  | same (r : Except Failure α) : Limited r r
  | tooLong (digits left : Nat) (r : Except Failure α) :
      Limited (.error (.longInteger digits, left)) r

theorem Limited.bind {α β : Type} {r s : Except Failure α} {f g : α → Except Failure β}
    (h : Limited r s) (hnext : ∀ a, Limited (f a) (g a)) : Limited (r >>= f) (s >>= g) := by
  cases h with
  | same =>
      cases r with
      | error e => exact .same _
      | ok a => exact hnext a
  | tooLong digits left => exact .tooLong digits left _

variable {limit : Option Nat}

theorem limited_number (s : List Char) : Limited (number limit s) (number none s) := by
  unfold number
  split
  split
  · exact .same _
  · simp only
    split
    · have hnone : ∀ n, isOver none n = false := fun _ => rfl
      rw [hnone]
      split
      · exact .tooLong _ _ _
      · exact .same _
    · exact .same _

theorem limited_plainValue (s : List Char) :
    Limited (plainValue limit s) (plainValue none s) := by
  rw [plainValue, plainValue]
  split
  · exact .same _
  · exact limited_number s

section Step

variable {fuel : Nat} (hvalue : ∀ s, Limited (value limit fuel s) (value none fuel s))
  (helements : ∀ s, Limited (elements limit fuel s) (elements none fuel s))
  (hmembers : ∀ s, Limited (members limit fuel s) (members none fuel s))

include helements hmembers in
theorem limited_value_succ (s : List Char) :
    Limited (value limit (fuel + 1) s) (value none (fuel + 1) s) := by
  rw [value.eq_def, value.eq_def none]
  simp only
  split
  · exact .same _
  · exact .same _
  · split
    · exact .same _
    · exact (helements _).bind fun _ => .same _
  · split
    · exact .same _
    · exact (hmembers _).bind fun _ => .same _
  · exact limited_plainValue s

include hvalue helements in
theorem limited_elements_succ (s : List Char) :
    Limited (elements limit (fuel + 1) s) (elements none (fuel + 1) s) := by
  rw [elements, elements]
  refine (hvalue s).bind fun (item, rest) => ?_
  simp only
  split
  · exact .same _
  · exact (helements _).bind fun _ => .same _
  · exact .same _

include hvalue hmembers in
theorem limited_members_succ (s : List Char) :
    Limited (members limit (fuel + 1) s) (members none (fuel + 1) s) := by
  rw [members.eq_def, members.eq_def none]
  simp only
  split
  · refine (Limited.same _).bind fun (name, rest) => ?_
    simp only
    split
    · refine (hvalue _).bind fun (item, rest) => ?_
      simp only
      split
      · exact .same _
      · exact (hmembers _).bind fun _ => .same _
      · exact .same _
    · exact .same _
  · exact .same _

end Step

theorem limited_parts (fuel : Nat) :
    (∀ s, Limited (value limit fuel s) (value none fuel s)) ∧
    (∀ s, Limited (elements limit fuel s) (elements none fuel s)) ∧
    ∀ s, Limited (members limit fuel s) (members none fuel s) := by
  induction fuel with
  | zero => exact ⟨fun _ => .same _, fun _ => .same _, fun _ => .same _⟩
  | succ fuel ih =>
      obtain ⟨hvalue, helements, hmembers⟩ := ih
      exact ⟨limited_value_succ helements hmembers, limited_elements_succ hvalue helements,
        limited_members_succ hvalue hmembers⟩

theorem limited_document (limit : Option Nat) (s : List Char) :
    Limited (document limit s) (document none s) := by
  rw [document, document]
  split
  · exact .same _
  · exact ((limited_parts _).1 _).bind fun _ => .same _

/-- A text that is JSON is read, unless an integer in it is too long. -/
theorem read_of_readWithin {text : String} {d : Datum} (h : readWithin none text = .ok d) :
    read text = .ok d ∨ ∃ e, read text = .error e ∧ e.isMalformed = false := by
  have hlimited := limited_document (some Number.maxDigits) text.toList
  rw [readWithin] at h
  rw [read, readWithin]
  generalize document (some Number.maxDigits) text.toList = r at hlimited
  cases hlimited with
  | same => exact .inl h
  | tooLong digits left => exact .inr ⟨_, rfl, rfl⟩

end Json
end KubeAtlas
