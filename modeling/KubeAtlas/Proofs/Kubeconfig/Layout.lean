import KubeAtlas.Kubeconfig.Mapping
import KubeAtlas.Proofs.Except
import KubeAtlas.Proofs.Table
/-!
# The order of the top level

The mapping that is written takes its entries from two tables, that of the managed keys and that of
the carried ones, and no key is in both. So what is found under a key does not depend on the order
in which the keys are taken; and the order is that of the keys that were found, each at its first
place, followed by what is left of the carried and then of the managed keys.
-/

namespace KubeAtlas.Kubeconfig.Document

variable {written extra : Entries} {keys seen : List Label} {k : Key} {l : Label}

def topValue? (written extra : Entries) (k : Key) : Option Value :=
  (Table.find? k written).or (Table.find? k extra)

/-- The entries of the keys that were found, as far as there is a value for them. -/
def taken (written extra : Entries) (keys : List Label) : Entries :=
  Table.ofList (keys.filterMap fun l => (topValue? written extra l.key).map fun v => (l, v))

/-- The managed entries whose keys are not among those that were found. -/
def remaining (written : Entries) (keys : List Label) : Entries :=
  written.filter fun e => (Labelled.key e.1 : Key) ∉ keys.map Label.key

theorem taken_concat (keys : List Label) (l : Label) :
    taken written extra (keys ++ [l]) = match topValue? written extra l.key with
      | some v => Table.put l v (taken written extra keys)
      | none => taken written extra keys := by
  rw [taken, List.filterMap_append, List.filterMap_cons]
  cases topValue? written extra l.key with
  | none => simp [taken]
  | some v => exact Table.ofList_concat _ _

theorem find?_taken (k : Key) (keys : List Label) :
    Table.find? k (taken written extra keys) =
      if k ∈ keys.map Label.key then topValue? written extra k else none := by
  induction keys using List.reverseRecOn with
  | nil => rfl
  | append_singleton keys l ih =>
      simp only [taken_concat, List.map_append, List.map_singleton, List.mem_append,
        List.mem_singleton]
      by_cases hk : l.key = k
      · subst hk
        rw [if_pos (.inr rfl)]
        cases hvalue : topValue? written extra l.key with
        | none => simp [ih, hvalue]
        | some v => exact (Table.find?_put _ l v _).trans (if_pos rfl)
      · have hsame : k ∈ keys.map Label.key ∨ k = l.key ↔ k ∈ keys.map Label.key :=
          or_iff_left (Ne.symm hk)
        simp only [hsame, ← ih]
        cases topValue? written extra l.key with
        | none => rfl
        | some v => exact (Table.find?_put k l v _).trans (if_neg hk)

theorem find?_remaining (k : Key) (keys : List Label) :
    Table.find? k (remaining written keys) =
      if k ∈ keys.map Label.key then none else Table.find? k written := by
  have hfilter := Table.find?_filter k (fun k => decide (k ∉ keys.map Label.key)) written
  rw [remaining, hfilter]
  simp only [decide_eq_true_eq, ite_not]

theorem remaining_concat (hwritten : (Table.keys written : List Key).Nodup) (keys : List Label)
    (l : Label) : remaining written (keys ++ [l]) = Table.erase l.key (remaining written keys) := by
  have hnodup : (Table.keys (remaining written keys) : List Key).Nodup :=
    hwritten.sublist (List.filter_sublist.map _)
  rw [Table.erase_eq_filter _ _ hnodup, remaining, remaining, List.filter_filter]
  refine List.filter_congr fun e _ => ?_
  simp [and_comm]

/-- The keys that were found are taken in order. A managed key that comes again finds its value gone
from what is left, but in place among what was taken. -/
theorem arrange_eq (hwritten : (Table.keys written : List Key).Nodup)
    (hapart : ∀ k ∈ (Table.keys written : List Key), k ∉ (Table.keys extra : List Key))
    (seen keys : List Label) :
    arrange extra (taken written extra seen) (remaining written seen) (keys.map Value.leaf) =
      .ok (taken written extra (seen ++ keys), remaining written (seen ++ keys)) := by
  induction keys generalizing seen with
  | nil => simp [arrange, pure_eq_ok]
  | cons l rest ih =>
      have hstep := ih (seen ++ [l])
      rw [List.append_assoc, List.singleton_append] at hstep
      rw [← hstep, List.map_cons, arrange, remaining_concat hwritten, taken_concat]
      cases hleft : Table.find? l.key (remaining written seen) with
      | some w =>
          have hvalue : topValue? written extra l.key = some w := by
            rw [find?_remaining] at hleft
            split at hleft
            · cases hleft
            · rw [topValue?, hleft, Option.some_or]
          simp only [hvalue]
      | none =>
          rw [Table.erase_of_find?_eq_none hleft]
          cases hextra : Table.find? l.key extra with
          | some w =>
              have hvalue : topValue? written extra l.key = some w := by
                have hmem := (Table.mem_keys_iff l.key extra).2 (by rw [hextra]; rfl)
                rw [topValue?, hextra,
                  Table.find?_eq_none_of_notMem fun hk => hapart l.key hk hmem, Option.none_or]
              simp only [hvalue]
          | none =>
              -- a key that has a value all the same was taken before, and stays in its place
              have hstay : ∀ w, topValue? written extra l.key = some w →
                  Table.put l w (taken written extra seen) = taken written extra seen := by
                intro w hw
                refine Table.put_of_find? ?_
                rw [find?_remaining] at hleft
                rw [topValue?, hextra, Option.or_none] at hw
                split at hleft
                · next hseen =>
                    have hfound : Table.find? l.key (taken written extra seen) =
                        if l.key ∈ seen.map Label.key then topValue? written extra l.key
                        else none := find?_taken l.key seen
                    rw [if_pos hseen, topValue?, hextra, Option.or_none, hw] at hfound
                    exact hfound
                · rw [hleft] at hw
                  cases hw
              cases hvalue : topValue? written extra l.key with
              | none => simp only
              | some w => simp only [hstay w hvalue]

/-! ### The whole mapping -/

theorem addMissing_eq {entries : Entries} (hentries : (Table.keys entries : List Key).Nodup)
    (out : Entries) : addMissing entries out =
      out ++ entries.filter fun e => (Labelled.key e.1 : Key) ∉ (Table.keys out : List Key) := by
  induction entries generalizing out with
  | nil => simp [addMissing]
  | cons e rest ih =>
      rw [Table.keys_cons, List.nodup_cons] at hentries
      have hstep : addMissing (e :: rest) out =
          addMissing rest (if Table.contains (Labelled.key e.1 : Key) out then out
            else Table.put e.1 e.2 out) := rfl
      have hcontains : Table.contains (Labelled.key e.1 : Key) out = true ↔
          (Labelled.key e.1 : Key) ∈ (Table.keys out : List Key) := (Table.mem_keys_iff _ out).symm
      rw [hstep]
      by_cases hmem : (Labelled.key e.1 : Key) ∈ (Table.keys out : List Key)
      · rw [if_pos (hcontains.2 hmem), ih hentries.2, List.filter_cons_of_neg (by simpa using hmem)]
      · rw [if_neg (mt hcontains.1 hmem), Table.put_of_notMem hmem, ih hentries.2,
          List.filter_cons_of_pos (by simpa using hmem), List.append_assoc, List.singleton_append]
        congr 2
        refine List.filter_congr fun f hf => ?_
        have hne : (Labelled.key f.1 : Key) ∉ (Table.keys [(e.1, e.2)] : List Key) := by
          intro hk
          have hsame : (Labelled.key f.1 : Key) = Labelled.key e.1 := List.mem_singleton.1 hk
          exact hentries.1 (hsame ▸ List.mem_map.2 ⟨f, hf, rfl⟩)
        rw [decide_eq_decide, Table.keys_append, List.mem_append, or_iff_left hne]

/-- The entries that are written, in order. -/
def arranged (written extra : Entries) (keys : List Label) : Entries :=
  taken written extra keys ++ remaining extra keys ++ remaining written keys

theorem mem_keys_remaining {t : Entries} :
    k ∈ (Table.keys (remaining t keys) : List Key) ↔
      k ∈ (Table.keys t : List Key) ∧ k ∉ keys.map Label.key := by
  rw [Table.mem_keys_iff, Table.mem_keys_iff, find?_remaining]
  by_cases hk : k ∈ keys.map Label.key
  · simp [hk]
  · rw [if_neg hk]
    exact ⟨fun h => ⟨h, hk⟩, And.left⟩

theorem mem_keys_taken :
    k ∈ (Table.keys (taken written extra keys) : List Key) ↔
      k ∈ keys.map Label.key ∧ (topValue? written extra k).isSome := by
  rw [Table.mem_keys_iff, find?_taken]
  by_cases hk : k ∈ keys.map Label.key
  · rw [if_pos hk]
    exact ⟨fun h => ⟨hk, h⟩, And.right⟩
  · simp [hk]

theorem nodup_keys_arranged (hwritten : (Table.keys written : List Key).Nodup)
    (hextra : (Table.keys extra : List Key).Nodup)
    (hapart : ∀ k ∈ (Table.keys written : List Key), k ∉ (Table.keys extra : List Key))
    (keys : List Label) : (Table.keys (arranged written extra keys) : List Key).Nodup := by
  have hremaining : ∀ t : Entries, (Table.keys t : List Key).Nodup →
      (Table.keys (remaining t keys) : List Key).Nodup :=
    fun t ht => ht.sublist (List.filter_sublist.map _)
  have hall : (Table.keys (arranged written extra keys) : List Key) =
      Table.keys (taken written extra keys) ++ Table.keys (remaining extra keys) ++
        Table.keys (remaining written keys) := by
    rw [arranged, Table.keys, List.map_append, List.map_append]
    rfl
  rw [hall, List.nodup_append, List.nodup_append]
  refine ⟨⟨Table.nodup_keys_ofList _, hremaining extra hextra, ?_⟩,
    hremaining written hwritten, ?_⟩
  · rintro k hk _ hk' rfl
    exact (mem_keys_remaining.1 hk').2 (mem_keys_taken.1 hk).1
  · rintro k hk _ hk' rfl
    rcases List.mem_append.1 hk with htaken | hcarried
    · exact (mem_keys_remaining.1 hk').2 (mem_keys_taken.1 htaken).1
    · exact hapart k (mem_keys_remaining.1 hk').1 (mem_keys_remaining.1 hcarried).1

theorem find?_arranged
    (hapart : ∀ k ∈ (Table.keys written : List Key), k ∉ (Table.keys extra : List Key))
    (k : Key) (keys : List Label) :
    Table.find? k (arranged written extra keys) = topValue? written extra k := by
  rw [arranged, Table.find?_append, Table.find?_append, find?_taken, find?_remaining,
    find?_remaining]
  by_cases hk : k ∈ keys.map Label.key
  · rw [if_pos hk, if_pos hk, if_pos hk, Option.or_none, Option.or_none]
  · rw [if_neg hk, if_neg hk, if_neg hk, Option.none_or, topValue?]
    cases hwritten : Table.find? k written with
    | none => rw [Option.or_none, Option.none_or]
    | some w =>
        have hmem := (Table.mem_keys_iff k written).2 (by rw [hwritten]; rfl)
        rw [Table.find?_eq_none_of_notMem (hapart k hmem), Option.none_or, Option.some_or]

theorem keys_taken (written extra : Entries) (keys : List Label) :
    (Table.keys (taken written extra keys) : List Key) =
      ((keys.map Label.key).filter fun k => (topValue? written extra k).isSome).eraseDups := by
  rw [taken, Table.keys_ofList]
  congr 1
  induction keys with
  | nil => rfl
  | cons l rest ih =>
      rw [List.map_cons, List.filterMap_cons, List.filter_cons, ← ih]
      cases topValue? written extra l.key <;> rfl

theorem keys_remaining (t : Entries) (keys : List Label) :
    (Table.keys (remaining t keys) : List Key) =
      (Table.keys t : List Key).filter (· ∉ keys.map Label.key) := by
  rw [Table.keys, Table.keys, remaining, List.filter_map]
  rfl

/-- The order of the keys: those that were found, as far as they have a value, each at its first
place; then the carried ones and the managed ones that were not found. -/
theorem keys_arranged (written extra : Entries) (keys : List Label) :
    (Table.keys (arranged written extra keys) : List Key) =
      ((keys.map Label.key).filter fun k => (topValue? written extra k).isSome).eraseDups ++
        (Table.keys extra : List Key).filter (· ∉ keys.map Label.key) ++
          (Table.keys written : List Key).filter (· ∉ keys.map Label.key) := by
  rw [arranged, Table.keys_append, Table.keys_append, keys_taken, keys_remaining, keys_remaining]

/-! ### Documents -/

variable {d : Document}

/-- The carried entries of a document stand under keys of their own. -/
structure CarriesOthers (d : Document) : Prop where
  distinct : (Table.keys d.extra : List Key).Nodup
  unmanaged : ∀ k ∈ (Table.keys d.extra : List Key), isManaged k = false

def managedKeys : List Key := Part.all.map (fun p => Key.str p.key) ++ [Key.str currentContextKey]

theorem keys_managed (d : Document) : (Table.keys d.managed.1 : List Key) = managedKeys := rfl

theorem isManaged_iff : isManaged k = true ↔ k ∈ managedKeys := by
  simp [isManaged, Part.isKey, managedKeys, Part.all, or_assoc]

theorem keys_written_sublist (d : Document) :
    (Table.keys d.written.1 : List Key).Sublist managedKeys :=
  keys_managed d ▸ List.filter_sublist.map _

theorem nodup_keys_written (d : Document) : (Table.keys d.written.1 : List Key).Nodup :=
  List.Nodup.sublist (keys_written_sublist d) (by decide)

theorem CarriesOthers.apart (hd : d.CarriesOthers) :
    ∀ k ∈ (Table.keys d.written.1 : List Key), k ∉ (Table.keys d.extra : List Key) := by
  intro k hk hextra
  have hmanaged := isManaged_iff.2 ((keys_written_sublist d).subset hk)
  rw [hd.unmanaged k hextra] at hmanaged
  cases hmanaged

/-- The mapping of a document holds its managed and its carried entries in order. -/
theorem toMapping_eq (hd : d.CarriesOthers) {keys : List Label}
    (horder : d.keyOrder = keys.map Value.leaf) :
    d.toMapping = .ok (arranged d.written.1 d.extra keys, d.written.2) := by
  have harrange := arrange_eq (nodup_keys_written d) hd.apart [] keys
  have hstart : remaining d.written.1 [] = d.written.1 := by simp [remaining]
  rw [hstart] at harrange
  have hothers : (d.extra.filter fun e =>
      (Labelled.key e.1 : Key) ∉ (Table.keys (taken d.written.1 d.extra keys) : List Key)) =
        remaining d.extra keys := by
    refine List.filter_congr fun e he => ?_
    have hmem : (Labelled.key e.1 : Key) ∈ (Table.keys d.extra : List Key) :=
      List.mem_map.2 ⟨e, he, rfl⟩
    have hvalue : (topValue? d.written.1 d.extra (Labelled.key e.1)).isSome := by
      rw [topValue?, Option.isSome_or, (Table.mem_keys_iff _ d.extra).1 hmem, Bool.or_true]
    rw [decide_eq_decide, mem_keys_taken, and_iff_left hvalue]
  have htop : Table.putAll (remaining d.written.1 keys)
      (addMissing d.extra (taken d.written.1 d.extra keys)) =
        arranged d.written.1 d.extra keys := by
    rw [addMissing_eq hd.distinct, hothers]
    exact Table.putAll_of_nodup
      (nodup_keys_arranged (nodup_keys_written d) hd.distinct hd.apart keys)
  rw [toMapping, horder]
  exact bind_eq_ok_iff.2
    ⟨_, harrange, congrArg (fun top => Except.ok (top, d.written.2)) htop⟩

end KubeAtlas.Kubeconfig.Document
