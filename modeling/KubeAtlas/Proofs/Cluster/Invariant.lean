import KubeAtlas.Cluster.Index
import KubeAtlas.Proofs.Table
/-!
# What every index satisfies

The two maps of an index belong together: whatever identifier stands at a place, the cluster with
that identifier was last reported at that very place. This is the invariant `Sound`, and adding a
report keeps it whatever the report holds, values that cannot be keys included. `add_cases` lists
what adding can do; nothing after it looks into `add` again.

The invariant is what makes leaving a place exact. An identifier stands at no place but that of its
cluster, so once the cluster has left, the identifier stands nowhere (`find?_place_of_vacate`).
-/

namespace KubeAtlas.Cluster

theorem keyOf_eq_ok_iff {d : Datum} {k : Key} : keyOf d = .ok k ↔ d.key? = some k := by
  rw [keyOf]
  cases d.key? with
  | none => simp [throw, throwThe, MonadExceptOf.throw]
  | some other => simp [pure, Except.pure]

theorem pairKey_eq_ok_iff {zone name : Datum} {place : Key} :
    pairKey zone name = .ok place ↔
      ∃ z n, zone.key? = some z ∧ name.key? = some n ∧ place = .tuple [z, n] := by
  simp only [← keyOf_eq_ok_iff, pairKey]
  cases keyOf zone with
  | error e => simp [bind, Except.bind]
  | ok z =>
      cases keyOf name with
      | error e => simp [bind, Except.bind]
      | ok n => simp [bind, Except.bind, pure, Except.pure, eq_comm]

namespace Index

/-- The two maps have distinct keys, and what stands at a place was last reported there. -/
structure Sound (ix : Index) : Prop where
  ids : (Table.keys ix.byId : List Key).Nodup
  places : (Table.keys ix.byPlace : List Key).Nodup
  own : ∀ place id, Table.find? place ix.byPlace = some id →
    ∃ c, ix.find? id = some c ∧ c.place = .ok place

/-- The index in which an identifier has left the place of its cluster. -/
def vacate (ix : Index) (id : Key) : Except Failure Index :=
  match ix.find? id with
  | some previous => ix.leave id previous
  | none => .ok ix

theorem sound_empty : empty.Sound := ⟨List.nodup_nil, List.nodup_nil, by simp [empty]⟩

theorem add_eq (ix : Index) (c : Cluster) :
    ix.add c = match keyOf c.id with
      | .error e => (ix, some e)
      | .ok id => match ix.vacate id with
        | .error e => (ix, some e)
        | .ok left => match c.place with
          | .error e => (left.enter id c, some e)
          | .ok place =>
            ({ left.enter id c with byPlace := Table.put place id left.byPlace }, none) := rfl

/-- What adding can do: nothing; enter the cluster, which has no place; or enter it at its place. -/
theorem add_cases (ix : Index) (c : Cluster) :
    (∃ e, ix.add c = (ix, some e) ∧ ∀ id left, keyOf c.id = .ok id → ix.vacate id ≠ .ok left) ∨
    (∃ id left e, keyOf c.id = .ok id ∧ ix.vacate id = .ok left ∧ c.place = .error e ∧
      ix.add c = (left.enter id c, some e)) ∨
    (∃ id left place, keyOf c.id = .ok id ∧ ix.vacate id = .ok left ∧ c.place = .ok place ∧
      ix.add c = ({ left.enter id c with byPlace := Table.put place id left.byPlace }, none)) := by
  rw [add_eq]
  rcases hid : keyOf c.id with e | id
  · exact .inl ⟨e, rfl, by simp⟩
  rcases hleft : ix.vacate id with e | left
  · refine .inl ⟨e, by simp only [hleft], fun other left hother => ?_⟩
    obtain rfl := Except.ok.inj hother
    simp [hleft]
  rcases hplace : c.place with e | place
  · exact .inr (.inl ⟨id, left, e, rfl, hleft, rfl, by simp only [hleft]⟩)
  · exact .inr (.inr ⟨id, left, place, rfl, hleft, rfl, by simp only [hleft]⟩)

/-! ### Leaving a place -/

theorem leave_cases {ix left : Index} {id : Key} {c : Cluster} (h : ix.leave id c = .ok left) :
    ∃ place, c.place = .ok place ∧
      (Table.find? place ix.byPlace = some id ∧
          left = { ix with byPlace := Table.erase place ix.byPlace } ∨
        Table.find? place ix.byPlace ≠ some id ∧ left = ix) := by
  rw [leave] at h
  rcases hplace : c.place with e | place
  · rw [hplace] at h
    simp [bind, Except.bind] at h
  · rw [hplace] at h
    refine ⟨place, rfl, ?_⟩
    by_cases hown : Table.find? place ix.byPlace = some id
    · simp only [bind, Except.bind, hown, if_true, pure, Except.pure, Except.ok.injEq] at h
      exact .inl ⟨hown, h.symm⟩
    · simp only [bind, Except.bind, hown, if_false, pure, Except.pure, Except.ok.injEq] at h
      exact .inr ⟨hown, h.symm⟩

theorem exists_vacate (ix : Index) (id : Key)
    (hleave : ∀ c, ix.find? id = some c → ∃ place, c.place = .ok place) :
    ∃ left, ix.vacate id = .ok left := by
  rw [vacate]
  cases hfind : ix.find? id with
  | none => exact ⟨ix, rfl⟩
  | some c =>
      obtain ⟨place, hplace⟩ := hleave c hfind
      simp only [leave, hplace, bind, Except.bind, pure, Except.pure]
      split <;> exact ⟨_, rfl⟩

theorem byId_of_vacate {ix left : Index} {id : Key} (h : ix.vacate id = .ok left) :
    left.byId = ix.byId := by
  rw [vacate] at h
  split at h
  · obtain ⟨place, -, ⟨-, rfl⟩ | ⟨-, rfl⟩⟩ := leave_cases h <;> rfl
  · exact Except.ok.inj h ▸ rfl

theorem nodup_places_of_vacate {ix left : Index} {id : Key} (hix : ix.Sound)
    (h : ix.vacate id = .ok left) : (Table.keys left.byPlace : List Key).Nodup := by
  rw [vacate] at h
  split at h
  · obtain ⟨place, -, ⟨-, rfl⟩ | ⟨-, rfl⟩⟩ := leave_cases h
    · exact Table.nodup_keys_erase place ix.byPlace hix.places
    · exact hix.places
  · exact Except.ok.inj h ▸ hix.places

/-- An identifier that has left stands at no place, and the others stand where they stood. -/
theorem find?_place_of_vacate {ix left : Index} {id : Key} (hix : ix.Sound)
    (h : ix.vacate id = .ok left) (place : Key) :
    Table.find? place left.byPlace = (Table.find? place ix.byPlace).filter (· != id) := by
  have helsewhere : ∀ left : Index, left.byPlace = ix.byPlace →
      (Table.find? place ix.byPlace ≠ some id) →
      Table.find? place left.byPlace = (Table.find? place ix.byPlace).filter (· != id) := by
    intro left hsame hne
    rw [hsame]
    cases hfind : Table.find? place ix.byPlace with
    | none => rfl
    | some other =>
        rw [hfind, ne_eq, Option.some.injEq] at hne
        simp [Option.filter, hne]
  rw [vacate] at h
  split at h
  · next previous hprevious =>
      obtain ⟨there, hthere, hcase⟩ := leave_cases h
      -- the identifier stands at most at the place of its cluster
      have honly : Table.find? place ix.byPlace = some id → place = there := by
        intro hfind
        obtain ⟨c, hc, hplace⟩ := hix.own place id hfind
        rw [hprevious, Option.some.injEq] at hc
        rw [← hc, hthere] at hplace
        exact (Except.ok.inj hplace).symm
      rcases hcase with ⟨hstood, rfl⟩ | ⟨hstood, rfl⟩
      · rw [Table.find?_erase there place ix.byPlace hix.places]
        by_cases hplace : place = there
        · simp [hplace, hstood, Option.filter]
        · rw [if_neg hplace]
          exact helsewhere ix rfl fun hfind => hplace (honly hfind)
      · exact helsewhere left rfl fun hfind => hstood (honly hfind ▸ hfind)
  · next hnone =>
      obtain rfl := Except.ok.inj h
      refine helsewhere ix rfl fun hfind => ?_
      obtain ⟨c, hc, -⟩ := hix.own place id hfind
      rw [hnone] at hc
      simp at hc

/-! ### Every report keeps the invariant -/

theorem find?_enter (ix : Index) (id other : Key) (c : Cluster) :
    (ix.enter id c).find? other = if id = other then some c else ix.find? other :=
  Table.find?_put other id c ix.byId

theorem find?_eq_of_vacate {ix left : Index} {id : Key} (h : ix.vacate id = .ok left)
    (other : Key) : left.find? other = ix.find? other := by
  rw [find?, find?, byId_of_vacate h]

theorem Sound.enter {ix left : Index} {id : Key} {c : Cluster} (hix : ix.Sound)
    (h : ix.vacate id = .ok left) : (left.enter id c).Sound := by
  have hplaces : (Table.keys left.byPlace : List Key).Nodup := nodup_places_of_vacate hix h
  refine ⟨?_, hplaces, ?_⟩
  · rw [Index.enter, byId_of_vacate h]
    exact Table.nodup_keys_put id c ix.byId hix.ids
  · intro place other hfind
    change Table.find? place left.byPlace = some other at hfind
    rw [find?_place_of_vacate hix h, Option.filter_eq_some_iff] at hfind
    obtain ⟨d, hd, hplace⟩ := hix.own place other hfind.1
    refine ⟨d, ?_, hplace⟩
    have hne : id ≠ other := fun he => by simp [he] at hfind
    rw [find?_enter, if_neg hne, find?_eq_of_vacate h, hd]

theorem Sound.put {ix : Index} {id place : Key} {c : Cluster} (hix : ix.Sound)
    (hid : ix.find? id = some c) (hplace : c.place = .ok place) :
    ({ ix with byPlace := Table.put place id ix.byPlace } : Index).Sound := by
  refine ⟨hix.ids, Table.nodup_keys_put place id ix.byPlace hix.places, ?_⟩
  intro there other hfind
  change Table.find? there (Table.put place id ix.byPlace) = some other at hfind
  rw [Table.find?_put] at hfind
  split at hfind
  · next hthere =>
      obtain rfl : place = there := hthere
      obtain rfl := Option.some.inj hfind
      exact ⟨c, hid, hplace⟩
  · exact hix.own there other hfind

theorem Sound.add {ix : Index} (hix : ix.Sound) (c : Cluster) : (ix.add c).1.Sound := by
  obtain ⟨e, h, -⟩ | ⟨id, left, e, -, hleft, -, h⟩ | ⟨id, left, place, -, hleft, hplace, h⟩ :=
    add_cases ix c
  · rw [h]
    exact hix
  · rw [h]
    exact hix.enter hleft
  · rw [h]
    exact (hix.enter hleft).put (by rw [find?_enter, if_pos rfl]) hplace

end Index
end KubeAtlas.Cluster
