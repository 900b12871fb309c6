import KubeAtlas.Proofs.Cluster.History
import KubeAtlas.Proofs.Except
/-!
# Entering the same reports again

A pass enters its reports one after the other and stops at the first that is refused. `enterAll` is
what it makes of an index. Entering a report may delete a place that an earlier report has just
written, so it is not plain that entering the same reports a second time changes nothing.

It does not, for two reasons. Under the identifiers the second round writes what is there already.
At a place the reports together do one of two things (`Settles`): they put an identifier there
whatever stood before, or they take away some identifiers; and doing either twice is doing it once.
A report is only ever refused for an entry that was there before the first round and has no place,
and such a report is refused again with the same words.
-/

namespace KubeAtlas.Cluster

/-- Whether the identifier, the zone and the name of a cluster can be keys. -/
def IsKeyed (c : Cluster) : Prop := (∃ id, keyOf c.id = .ok id) ∧ ∃ place, c.place = .ok place

theorem Report.isKeyed (r : Report) : r.cluster.IsKeyed :=
  ⟨⟨_, r.keyOf_id⟩, ⟨_, r.place_cluster⟩⟩

namespace Index

/-! ### Entering reports up to the first that is refused -/

/-- What entering reports comes to: those that were taken, what the next one was refused for, and
the index. -/
structure Entered where
  taken : List Cluster
  refused : Option Failure
  index : Index

/-- Enters reports up to the first that is refused. -/
def enterAll (ix : Index) : List Cluster → Entered
  | [] => ⟨[], none, ix⟩
  | c :: cs => match ix.add c with
    | (jx, some e) => ⟨[], some e, jx⟩
    | (jx, none) => { jx.enterAll cs with taken := c :: (jx.enterAll cs).taken }

theorem enterAll_cons_taken {ix jx : Index} {c : Cluster} (cs : List Cluster)
    (h : ix.add c = (jx, none)) :
    ix.enterAll (c :: cs) = { jx.enterAll cs with taken := c :: (jx.enterAll cs).taken } := by
  rw [enterAll, h]

theorem enterAll_cons_refused {ix jx : Index} {c : Cluster} {e : Failure} (cs : List Cluster)
    (h : ix.add c = (jx, some e)) : ix.enterAll (c :: cs) = ⟨[], some e, jx⟩ := by
  rw [enterAll, h]

theorem add_eq_of_none {ix : Index} {c : Cluster} (h : (ix.add c).2 = none) :
    ix.add c = ((ix.add c).1, none) := by
  rw [← h]

/-- Reports that are all taken, and then some more. -/
theorem enterAll_append {ix : Index} {before : List Cluster} (after : List Cluster)
    (h : ix.Takes before) :
    ix.enterAll (before ++ after) =
      { (ix.addAll before).enterAll after with
        taken := before ++ ((ix.addAll before).enterAll after).taken } := by
  induction before generalizing ix with
  | nil => rfl
  | cons c before ih =>
      rw [List.cons_append, enterAll_cons_taken _ (add_eq_of_none h.1), ih h.2]
      rfl

theorem enterAll_of_takes {ix : Index} {cs : List Cluster} (h : ix.Takes cs) :
    ix.enterAll cs = ⟨cs, none, ix.addAll cs⟩ := by
  have happend := enterAll_append [] h
  rw [List.append_nil] at happend
  rw [happend]
  simp [enterAll]

/-- Reports are all taken, or there is a first one that is refused. -/
theorem takes_or_refused (ix : Index) (cs : List Cluster) :
    ix.Takes cs ∨ ∃ before c after e, cs = before ++ c :: after ∧ ix.Takes before ∧
      ((ix.addAll before).add c).2 = some e := by
  induction cs generalizing ix with
  | nil => exact .inl trivial
  | cons c cs ih =>
      cases hadd : (ix.add c).2 with
      | some e => exact .inr ⟨[], c, cs, e, rfl, trivial, hadd⟩
      | none =>
          rcases ih (ix.add c).1 with htakes | ⟨before, d, after, e, rfl, htakes, hrefused⟩
          · exact .inl ⟨hadd, htakes⟩
          · exact .inr ⟨c :: before, d, after, e, rfl, ⟨hadd, htakes⟩, hrefused⟩

theorem enterAll_of_refused {ix : Index} {before : List Cluster} {c : Cluster} {e : Failure}
    (after : List Cluster) (h : ix.Takes before) (hc : ((ix.addAll before).add c).2 = some e) :
    ix.enterAll (before ++ c :: after) = ⟨before, some e, ((ix.addAll before).add c).1⟩ := by
  have hadd : (ix.addAll before).add c = (((ix.addAll before).add c).1, some e) := by rw [← hc]
  rw [enterAll_append _ h, enterAll_cons_refused after hadd]
  simp

theorem takes_iff_refused {ix : Index} {cs : List Cluster} :
    ix.Takes cs ↔ (ix.enterAll cs).refused = none := by
  constructor
  · intro h
    rw [enterAll_of_takes h]
  · intro h
    rcases takes_or_refused ix cs with htakes | ⟨before, c, after, e, rfl, htakes, hrefused⟩
    · exact htakes
    · rw [enterAll_of_refused after htakes hrefused] at h
      cases h

/-! ### Which reports are taken -/

/-- A report that can be one is refused only for the entry under its identifier. -/
theorem refused_add (ix : Index) {c : Cluster} {id : Key} (hc : c.IsKeyed)
    (hid : keyOf c.id = .ok id) :
    (ix.add c).2 = (ix.find? id).bind fun d => failure? d.place := by
  obtain ⟨-, place, hplace⟩ := hc
  rw [add_eq, hid]
  simp only [vacate, leave]
  cases ix.find? id with
  | none => simp only [hplace, Option.bind_none]
  | some d =>
      cases hprevious : d.place with
      | error e => simp only [bind, Except.bind, hprevious, Option.bind_some, failure?]
      | ok there =>
          simp only [bind, Except.bind, hprevious, Option.bind_some, failure?]
          split
          · next hleft => split at hleft <;> cases hleft
          · next hleft => simp only [hplace]

/-- A report that can be one changes nothing if it is refused. -/
theorem add_eq_of_refused {ix : Index} {c : Cluster} {e : Failure} (hc : c.IsKeyed)
    (h : (ix.add c).2 = some e) : (ix.add c).1 = ix := by
  obtain ⟨d, hadd, -⟩ | ⟨id, left, d, -, -, hplace, -⟩ | ⟨id, left, place, -, -, -, hadd⟩ :=
    add_cases ix c
  · rw [hadd]
  · obtain ⟨-, place, hkeyed⟩ := hc
    rw [hplace] at hkeyed
    cases hkeyed
  · rw [hadd] at h
    cases h

theorem isKeyed_of_taken {ix : Index} {c : Cluster} (h : (ix.add c).2 = none) : c.IsKeyed := by
  obtain ⟨d, hadd, -⟩ | ⟨id, left, d, -, -, -, hadd⟩ | ⟨id, left, place, hid, -, hplace, -⟩ :=
    add_cases ix c
  · rw [hadd] at h
    cases h
  · rw [hadd] at h
    cases h
  · exact ⟨⟨id, hid⟩, place, hplace⟩

theorem isKeyed_of_takes {ix : Index} {cs : List Cluster} (h : ix.Takes cs) :
    ∀ c ∈ cs, c.IsKeyed := by
  induction cs generalizing ix with
  | nil => simp
  | cons c cs ih => exact List.forall_mem_cons.2 ⟨isKeyed_of_taken h.1, ih h.2⟩

def keyed? (c : Cluster) : Option (Key × Cluster) := c.id.key?.map fun id => (id, c)

/-- The last of some reports that has an identifier. -/
def lastOf (cs : List Cluster) (id : Key) : Option Cluster :=
  Table.find? id (cs.filterMap keyed?).reverse

theorem mem_entries_iff {cs : List Cluster} {id : Key} {c : Cluster} :
    (id, c) ∈ (cs.filterMap keyed?).reverse ↔ c ∈ cs ∧ c.id.key? = some id := by
  simp only [List.mem_reverse, List.mem_filterMap, keyed?, Option.map_eq_some_iff, Prod.mk.injEq]
  constructor
  · rintro ⟨d, hd, key, hkey, rfl, rfl⟩
    exact ⟨hd, hkey⟩
  · rintro ⟨hc, hkey⟩
    exact ⟨c, hc, id, hkey, rfl, rfl⟩

theorem lastOf_eq_some {cs : List Cluster} {id : Key} {c : Cluster} (h : lastOf cs id = some c) :
    c ∈ cs ∧ c.id.key? = some id := by
  obtain ⟨key, rfl, hmem⟩ := Table.exists_of_find? h
  exact mem_entries_iff.1 hmem

theorem lastOf_eq_none_iff {cs : List Cluster} {id : Key} :
    lastOf cs id = none ↔ ∀ c ∈ cs, c.id.key? ≠ some id := by
  rw [← Option.not_isSome_iff_eq_none, lastOf, ← Table.mem_keys_iff]
  constructor
  · intro h c hc hkey
    exact h (List.mem_map.2 ⟨(id, c), mem_entries_iff.2 ⟨hc, hkey⟩, rfl⟩)
  · intro h hmem
    obtain ⟨⟨key, c⟩, hentry, rfl⟩ := List.mem_map.1 hmem
    obtain ⟨hc, hkey⟩ := mem_entries_iff.1 hentry
    exact h c hc hkey

theorem byId_addAll {ix : Index} {cs : List Cluster} (hix : ix.Sound) (h : ix.Takes cs) :
    (ix.addAll cs).byId = Table.putAll (cs.filterMap keyed?) ix.byId := by
  induction cs generalizing ix with
  | nil => rfl
  | cons c cs ih =>
      obtain ⟨id, place, hid, -, hbyId, -⟩ := find?_add hix h.1
      have hentry : keyed? c = some (id, c) := by
        rw [keyed?, keyOf_eq_ok_iff.1 hid, Option.map_some]
      rw [addAll_cons, ih (hix.add c) h.2, hbyId, List.filterMap_cons_some hentry]
      rfl

/-- What is found under an identifier after some reports is the last of them, or was there. -/
theorem find?_addAll {ix : Index} {cs : List Cluster} (hix : ix.Sound) (h : ix.Takes cs)
    (id : Key) : (ix.addAll cs).find? id = (lastOf cs id).or (ix.find? id) := by
  rw [find?, byId_addAll hix h, Table.find?_putAll]
  rfl

/-- Whether what is found under the identifier of a report, if anything, has a place. -/
def Admits (ix : Index) (c : Cluster) : Prop :=
  ∀ id d, keyOf c.id = .ok id → ix.find? id = some d → ∃ place, d.place = .ok place

theorem taken_iff {ix : Index} {c : Cluster} : (ix.add c).2 = none ↔ c.IsKeyed ∧ ix.Admits c := by
  constructor
  · intro h
    have hc := isKeyed_of_taken h
    refine ⟨hc, fun id d hid hd => ?_⟩
    rw [refused_add ix hc hid, hd, Option.bind_some] at h
    cases hplace : d.place with
    | error e => rw [hplace] at h; cases h
    | ok place => exact ⟨place, rfl⟩
  · rintro ⟨⟨⟨id, hid⟩, place, hplace⟩, hadmits⟩
    exact add_ok hid hplace fun d hd => hadmits id d hid hd

/-- Reports are taken if all of them can be reports and none meets an entry without a place. -/
theorem takes_iff {ix : Index} {cs : List Cluster} (hix : ix.Sound) :
    ix.Takes cs ↔ ∀ c ∈ cs, c.IsKeyed ∧ ix.Admits c := by
  induction cs using List.reverseRecOn with
  | nil => simp [Takes]
  | append_singleton cs c ih =>
      rw [takes_append, ih]
      simp only [Takes, and_true, List.mem_append, List.mem_singleton, taken_iff]
      constructor
      · rintro ⟨hcs, hc, hadmits⟩ d (hd | rfl)
        · exact hcs d hd
        · refine ⟨hc, fun id e hid he => ?_⟩
          -- the entry is still there, or another report of the identifier has met it
          by_cases hnew : ∀ b ∈ cs, b.id.key? ≠ some id
          · refine hadmits id e hid ?_
            rw [find?_addAll hix (ih.2 hcs), lastOf_eq_none_iff.2 hnew, Option.none_or, he]
          · push Not at hnew
            obtain ⟨b, hb, hkey⟩ := hnew
            exact (hcs b hb).2 id e (keyOf_eq_ok_iff.2 hkey) he
      · intro hall
        have hcs : ∀ d ∈ cs, d.IsKeyed ∧ ix.Admits d := fun d hd => hall d (.inl hd)
        refine ⟨hcs, (hall c (.inr rfl)).1, fun id d hid hd => ?_⟩
        rw [find?_addAll hix (ih.2 hcs), Option.or_eq_some_iff] at hd
        rcases hd with hlast | ⟨-, hold⟩
        · exact (hcs d (lastOf_eq_some hlast).1).1.2
        · exact (hall c (.inr rfl)).2 id d hid hold

/-! ### What stands at a place -/

/-- What stands at a place after a report, by what stood there before. -/
def standing (there : Key) (c : Cluster) (stood : Option Key) : Option Key :=
  match c.place with
  | .ok place => if place = there then c.id.key? else stood.filter fun id => c.id.key? ≠ some id
  | .error _ => stood

theorem find?_place_addAll {ix : Index} {cs : List Cluster} (hix : ix.Sound) (h : ix.Takes cs)
    (there : Key) : Table.find? there (ix.addAll cs).byPlace =
      cs.foldl (fun stood c => standing there c stood) (Table.find? there ix.byPlace) := by
  induction cs generalizing ix with
  | nil => rfl
  | cons c cs ih =>
      obtain ⟨id, place, hid, hplace, -, hfind⟩ := find?_add hix h.1
      have hstep : Table.find? there (ix.add c).1.byPlace =
          standing there c (Table.find? there ix.byPlace) := by
        have hothers : (fun other => other != id) = fun other => decide (some id ≠ some other) := by
          funext other
          rw [Bool.eq_iff_iff, bne_iff_ne, decide_eq_true_iff, ne_comm, ne_eq, ne_eq,
            Option.some.injEq]
        rw [hfind, standing, hplace, keyOf_eq_ok_iff.1 hid, hothers]
      rw [addAll_cons, ih (hix.add c) h.2, hstep, List.foldl_cons]

/-- What writes an identifier whatever stood there before, or takes some identifiers away. -/
def Settles (change : Option Key → Option Key) : Prop :=
  (∃ found, ∀ stood, change stood = found) ∨
    ∃ keep : Key → Bool, ∀ stood, change stood = stood.filter keep

theorem Settles.twice {change : Option Key → Option Key} (h : Settles change)
    (stood : Option Key) : change (change stood) = change stood := by
  rcases h with ⟨found, hfound⟩ | ⟨keep, hkeep⟩
  · rw [hfound, hfound]
  · rw [hkeep, hkeep, Option.filter_filter]
    simp only [Bool.and_self]

theorem Settles.comp {first second : Option Key → Option Key} (hfirst : Settles first)
    (hsecond : Settles second) : Settles fun stood => second (first stood) := by
  rcases hsecond with ⟨found, hfound⟩ | ⟨keep, hkeep⟩
  · exact .inl ⟨found, fun stood => hfound _⟩
  · rcases hfirst with ⟨found, hfound⟩ | ⟨also, halso⟩
    · exact .inl ⟨found.filter keep, fun stood => by simp only [hkeep, hfound]⟩
    · refine .inr ⟨fun id => also id && keep id, fun stood => ?_⟩
      simp only [hkeep, halso, Option.filter_filter]

theorem settles_standing (there : Key) (c : Cluster) : Settles (standing there c) := by
  unfold standing
  cases c.place with
  | error e => exact .inr ⟨fun _ => true, fun stood => by cases stood <;> rfl⟩
  | ok place =>
      by_cases hplace : place = there
      · exact .inl ⟨c.id.key?, fun stood => by simp only [hplace, if_true]⟩
      · exact .inr ⟨fun id => c.id.key? ≠ some id, fun stood => by simp only [hplace, if_false]⟩

theorem settles_foldl (there : Key) (cs : List Cluster) :
    Settles fun stood => cs.foldl (fun stood c => standing there c stood) stood := by
  induction cs with
  | nil => exact .inr ⟨fun _ => true, fun stood => by cases stood <;> rfl⟩
  | cons c cs ih => exact (settles_standing there c).comp ih

/-! ### Entering the same reports again -/

structure Alike (ix jx : Index) : Prop where
  find? : ∀ id, ix.find? id = jx.find? id
  lookup : ∀ zone name, ix.lookup zone name = jx.lookup zone name
  clusters : ix.clusters = jx.clusters
  size : ix.size = jx.size

theorem Alike.of_maps {ix jx : Index} (hids : ix.byId = jx.byId)
    (hplaces : ∀ place, Table.find? place ix.byPlace = Table.find? place jx.byPlace) :
    ix.Alike jx where
  find? id := by rw [Index.find?, hids, Index.find?]
  lookup zone name := by
    rw [Index.lookup, at?, hplaces, Index.lookup, at?]
    simp only [Index.find?, hids]
  clusters := by rw [Index.clusters, hids, Index.clusters]
  size := by rw [Index.size, hids, Index.size]

section Again

variable {ix : Index} {cs : List Cluster} (hix : ix.Sound) (h : ix.Takes cs)
include hix h

theorem takes_again : (ix.addAll cs).Takes cs := by
  have hcs := (takes_iff hix).1 h
  refine (takes_iff (hix.addAll cs)).2 fun c hc => ⟨(hcs c hc).1, fun id d hid hd => ?_⟩
  rw [find?_addAll hix h, Option.or_eq_some_iff] at hd
  rcases hd with hlast | ⟨-, hold⟩
  · exact (hcs d (lastOf_eq_some hlast).1).1.2
  · exact (hcs c hc).2 id d hid hold

theorem byId_addAll_again : ((ix.addAll cs).addAll cs).byId = (ix.addAll cs).byId := by
  rw [byId_addAll (hix.addAll cs) (takes_again hix h), byId_addAll hix h,
    Table.putAll_putAll _ hix.ids]

theorem alike_addAll_again : ((ix.addAll cs).addAll cs).Alike (ix.addAll cs) := by
  refine .of_maps (byId_addAll_again hix h) fun place => ?_
  rw [find?_place_addAll (hix.addAll cs) (takes_again hix h), find?_place_addAll hix h]
  exact (settles_foldl place cs).twice _

end Again

/-- Entering the same reports again takes the same, is refused for the same, and changes nothing
that the index answers. -/
theorem enterAll_again {ix : Index} {cs : List Cluster} (hix : ix.Sound)
    (hcs : ∀ c ∈ cs, c.IsKeyed) :
    ((ix.enterAll cs).index.enterAll cs).taken = (ix.enterAll cs).taken ∧
      ((ix.enterAll cs).index.enterAll cs).refused = (ix.enterAll cs).refused ∧
      ((ix.enterAll cs).index.enterAll cs).index.Alike (ix.enterAll cs).index := by
  rcases takes_or_refused ix cs with htakes | ⟨before, c, after, e, rfl, htakes, hrefused⟩
  · rw [enterAll_of_takes htakes, enterAll_of_takes (takes_again hix htakes)]
    exact ⟨rfl, rfl, alike_addAll_again hix htakes⟩
  · have hc : c.IsKeyed := hcs c (by simp)
    obtain ⟨id, hid⟩ := hc.1
    -- the entry that the report was refused for is untouched, and is met again
    have hagain : (((ix.addAll before).addAll before).add c).2 = some e := by
      rw [refused_add _ hc hid] at hrefused ⊢
      rw [← hrefused, find?, byId_addAll_again hix htakes]
      rfl
    rw [enterAll_of_refused after htakes hrefused, add_eq_of_refused hc hrefused,
      enterAll_of_refused after (takes_again hix htakes) hagain, add_eq_of_refused hc hagain]
    exact ⟨rfl, rfl, alike_addAll_again hix htakes⟩

end Index
end KubeAtlas.Cluster
