import KubeAtlas.Proofs.Cluster.Invariant
import Mathlib.Data.Finset.Card
import Mathlib.Data.List.Induction
/-!
# The index as its history

What an index answers is a function of the reports it was given, in their order. A report stands as
long as nothing after it displaces it: under its identifier, it is displaced by a later report of
the identifier; at its place, by a later report of the identifier or of the place.

`find?_add` says what one report changes, in terms of what is found before and after. The rest is
that step along the list, the last report first.
-/

namespace KubeAtlas.Cluster

/-- An item of a list that no later item displaces. -/
def Stands {α : Type} (displaces : α → α → Prop) (xs : List α) (x : α) : Prop :=
  ∃ before after, xs = before ++ x :: after ∧ ∀ y ∈ after, ¬ displaces y x

theorem not_stands_nil {α : Type} {displaces : α → α → Prop} {x : α} : ¬ Stands displaces [] x := by
  rintro ⟨before, after, h, -⟩
  simp at h

/-- The last item stands; the others stand that stood before and that it does not displace. -/
theorem stands_concat_iff {α : Type} {displaces : α → α → Prop} {xs : List α} {x y : α} :
    Stands displaces (xs ++ [y]) x ↔ x = y ∨ ¬ displaces y x ∧ Stands displaces xs x := by
  constructor
  · rintro ⟨before, after, h, hafter⟩
    rcases List.eq_nil_or_concat' after with rfl | ⟨after, z, rfl⟩
    · exact .inl (List.head_eq_of_cons_eq (List.append_inj_right' h rfl)).symm
    · rw [← List.cons_append, ← List.append_assoc] at h
      obtain ⟨hxs, hz⟩ := List.append_inj' h rfl
      obtain rfl := List.head_eq_of_cons_eq hz
      exact .inr ⟨hafter y (by simp), before, after, hxs, fun w hw => hafter w (by simp [hw])⟩
  · rintro (rfl | ⟨hy, before, after, rfl, hafter⟩)
    · exact ⟨xs, [], rfl, by simp⟩
    · refine ⟨before, after ++ [y], by simp, ?_⟩
      intro w hw
      rcases List.mem_append.1 hw with hw | hw
      · exact hafter w hw
      · rwa [List.mem_singleton.1 hw]

theorem exists_stands {α : Type} {P : α → Prop} {xs : List α} {x : α} (hx : x ∈ xs) (hP : P x) :
    ∃ y, P y ∧ Stands (fun later _ => P later) xs y := by
  induction xs using List.reverseRecOn with
  | nil => simp at hx
  | append_singleton xs z ih =>
      by_cases hz : P z
      · exact ⟨z, hz, stands_concat_iff.2 (.inl rfl)⟩
      · have hmem : x ∈ xs := by
          rcases List.mem_append.1 hx with hx | hx
          · exact hx
          · exact absurd (List.mem_singleton.1 hx ▸ hP) hz
        obtain ⟨y, hy, hstands⟩ := ih hmem
        exact ⟨y, hy, stands_concat_iff.2 (.inr ⟨hz, hstands⟩)⟩

theorem Stands.mono {α : Type} {displaces other : α → α → Prop} {xs : List α} {x : α}
    (h : Stands displaces xs x) (himp : ∀ y, other y x → displaces y x) : Stands other xs x := by
  obtain ⟨before, after, hxs, hafter⟩ := h
  exact ⟨before, after, hxs, fun y hy hother => hafter y hy (himp y hother)⟩

def Renews (later earlier : Cluster) : Prop := later.id.key? = earlier.id.key?

namespace Index

def addAll (ix : Index) (cs : List Cluster) : Index := cs.foldl (fun ix c => (ix.add c).1) ix

@[simp] theorem addAll_nil (ix : Index) : ix.addAll [] = ix := rfl

@[simp] theorem addAll_cons (ix : Index) (c : Cluster) (cs : List Cluster) :
    ix.addAll (c :: cs) = (ix.add c).1.addAll cs := rfl

theorem addAll_append (ix : Index) (cs ds : List Cluster) :
    ix.addAll (cs ++ ds) = (ix.addAll cs).addAll ds := List.foldl_append

theorem addAll_concat (ix : Index) (cs : List Cluster) (c : Cluster) :
    ix.addAll (cs ++ [c]) = ((ix.addAll cs).add c).1 := by
  rw [addAll_append]
  rfl

theorem Sound.addAll {ix : Index} (hix : ix.Sound) (cs : List Cluster) : (ix.addAll cs).Sound := by
  induction cs generalizing ix with
  | nil => exact hix
  | cons c cs ih => exact ih (hix.add c)

/-- What a report changes that is taken: its own identifier, its own place, and the place that the
identifier had before. -/
theorem find?_add {ix : Index} {c : Cluster} (hix : ix.Sound) (hok : (ix.add c).2 = none) :
    ∃ id place, keyOf c.id = .ok id ∧ c.place = .ok place ∧
      (ix.add c).1.byId = Table.put id c ix.byId ∧
      ∀ there, Table.find? there (ix.add c).1.byPlace =
        if place = there then some id else (Table.find? there ix.byPlace).filter (· != id) := by
  obtain ⟨e, h, -⟩ | ⟨id, left, e, -, -, -, h⟩ | ⟨id, left, place, hid, hleft, hplace, h⟩ :=
    add_cases ix c
  · simp [h] at hok
  · simp [h] at hok
  · refine ⟨id, place, hid, hplace, ?_, fun there => ?_⟩
    · rw [h, ← byId_of_vacate hleft]
      rfl
    · rw [h, ← find?_place_of_vacate hix hleft]
      exact Table.find?_put there place id left.byPlace

theorem add_ok {ix : Index} {c : Cluster} {id place : Key} (hid : keyOf c.id = .ok id)
    (hplace : c.place = .ok place)
    (hleave : ∀ d, ix.find? id = some d → ∃ there, d.place = .ok there) :
    (ix.add c).2 = none := by
  obtain ⟨left, hleft⟩ := exists_vacate _ _ hleave
  rw [add_eq]
  simp only [hid, hleft, hplace]

/-! ### Reports that are taken -/

def Takes (ix : Index) : List Cluster → Prop
  | [] => True
  | c :: cs => (ix.add c).2 = none ∧ (ix.add c).1.Takes cs

theorem takes_append {ix : Index} {cs ds : List Cluster} :
    ix.Takes (cs ++ ds) ↔ ix.Takes cs ∧ (ix.addAll cs).Takes ds := by
  induction cs generalizing ix with
  | nil => simp [Takes]
  | cons c cs ih => simp only [List.cons_append, Takes, ih, addAll_cons, and_assoc]

/-- A cluster that stands at its place and under its identifier. -/
def Holds (ix : Index) (place id : Key) (c : Cluster) : Prop :=
  Table.find? place ix.byPlace = some id ∧ ix.find? id = some c

theorem holds_add {ix : Index} {c : Cluster} {id place : Key} (hix : ix.Sound)
    (hok : (ix.add c).2 = none) (hid : keyOf c.id = .ok id) (hplace : c.place = .ok place) :
    (ix.add c).1.Holds place id c := by
  obtain ⟨id', place', hid', hplace', hbyId, hbyPlace⟩ := find?_add hix hok
  obtain rfl : id = id' := Except.ok.inj (hid.symm.trans hid')
  obtain rfl : place = place' := Except.ok.inj (hplace.symm.trans hplace')
  refine ⟨by rw [hbyPlace, if_pos rfl], ?_⟩
  rw [find?, hbyId]
  exact (Table.find?_put id id c ix.byId).trans (if_pos rfl)

theorem Holds.add {ix : Index} {c d : Cluster} {id place : Key} (h : ix.Holds place id c)
    (hix : ix.Sound) (hok : (ix.add d).2 = none) (hid : keyOf d.id ≠ .ok id)
    (hplace : d.place ≠ .ok place) : (ix.add d).1.Holds place id c := by
  obtain ⟨id', place', hid', hplace', hbyId, hbyPlace⟩ := find?_add hix hok
  have hid : id' ≠ id := fun he => hid (he ▸ hid')
  have hplace : place' ≠ place := fun he => hplace (he ▸ hplace')
  constructor
  · rw [hbyPlace, if_neg hplace, h.1, Option.filter_some, if_pos (by simpa using hid.symm)]
  · rw [find?, hbyId]
    exact (Table.find?_put id id' d ix.byId).trans ((if_neg hid).trans h.2)

theorem Holds.addAll {ix : Index} {c : Cluster} {cs : List Cluster} {id place : Key}
    (h : ix.Holds place id c) (hix : ix.Sound) (htakes : ix.Takes cs)
    (hcs : ∀ d ∈ cs, keyOf d.id ≠ .ok id ∧ d.place ≠ .ok place) :
    (ix.addAll cs).Holds place id c := by
  induction cs generalizing ix with
  | nil => exact h
  | cons d cs ih =>
      obtain ⟨hid, hplace⟩ := hcs d (by simp)
      exact ih (h.add hix htakes.1 hid hplace) (hix.add d) htakes.2
        fun e he => hcs e (List.mem_cons_of_mem d he)

/-! ### Reports of any kind -/

/-- What is found under an identifier and has a place is the last report of the identifier. This
holds of reports of any kind: a report that is not taken comes after one without a place. -/
theorem stands_of_find? {past : List Cluster} {id place : Key} {c : Cluster}
    (hfind : (empty.addAll past).find? id = some c) (hplace : c.place = .ok place) :
    Stands Renews past c ∧ c.id.key? = some id := by
  induction past using List.reverseRecOn generalizing id place c with
  | nil => simp [empty, find?] at hfind
  | append_singleton past d ih =>
      -- a report that enters under an identifier is found there, and nothing else has changed
      have henter : ∀ {other left}, keyOf d.id = .ok other →
          (empty.addAll past).vacate other = .ok left → (left.enter other d).find? id = some c →
          Stands Renews (past ++ [d]) c ∧ c.id.key? = some id := by
        intro other left hother hleft hfind
        rw [find?_enter] at hfind
        by_cases hid : other = id
        · rw [if_pos hid, Option.some.injEq] at hfind
          subst hfind
          exact ⟨stands_concat_iff.2 (.inl rfl), hid ▸ keyOf_eq_ok_iff.1 hother⟩
        · rw [if_neg hid, find?_eq_of_vacate hleft] at hfind
          obtain ⟨hstands, hkey⟩ := ih hfind hplace
          refine ⟨stands_concat_iff.2 (.inr ⟨fun hrenews => hid ?_, hstands⟩), hkey⟩
          rw [Renews, hkey, keyOf_eq_ok_iff.1 hother] at hrenews
          exact Option.some.inj hrenews
      rw [addAll_concat] at hfind
      obtain ⟨e, h, hrefused⟩ | ⟨other, left, e, hother, hleft, -, h⟩ |
        ⟨other, left, there, hother, hleft, -, h⟩ := add_cases (empty.addAll past) d
      · rw [h] at hfind
        obtain ⟨hstands, hkey⟩ := ih hfind hplace
        refine ⟨stands_concat_iff.2 (.inr ⟨fun hrenews => ?_, hstands⟩), hkey⟩
        obtain ⟨left, hleft⟩ := exists_vacate (empty.addAll past) id fun c' hc' =>
          ⟨place, by rw [← hplace, Option.some.inj (hc'.symm.trans hfind)]⟩
        exact hrefused id left (keyOf_eq_ok_iff.2 (hrenews.trans hkey)) hleft
      · rw [h] at hfind
        exact henter hother hleft hfind
      · rw [h] at hfind
        exact henter hother hleft hfind

end Index

/-! ### Reports in text -/

/-- A report as sound answers of a provider have it: all of it is text. -/
structure Report where
  id : String
  name : String
  zone : String
  endpoint : String
deriving DecidableEq, Repr

namespace Report

def cluster (r : Report) : Cluster := ⟨.str r.id, .str r.name, .str r.zone, .str r.endpoint⟩

def placeKey (r : Report) : Key := .tuple [.str r.zone, .str r.name]

theorem keyOf_id (r : Report) : keyOf r.cluster.id = .ok (.str r.id) := rfl

theorem place_cluster (r : Report) : r.cluster.place = .ok r.placeKey := rfl

theorem placeKey_eq_iff {r : Report} {zone name : String} :
    r.placeKey = .tuple [.str zone, .str name] ↔ r.zone = zone ∧ r.name = name := by
  simp [placeKey]

def Renews (later earlier : Report) : Prop := later.id = earlier.id

/-- A later report of the same identifier, or in the same zone under the same name. -/
def Displaces (later earlier : Report) : Prop :=
  later.id = earlier.id ∨ later.zone = earlier.zone ∧ later.name = earlier.name

theorem displaces_iff {later earlier : Report} :
    later.Displaces earlier ↔ later.id = earlier.id ∨ later.placeKey = earlier.placeKey :=
  or_congr_right placeKey_eq_iff.symm

end Report

namespace Index

def ofReports (rs : List Report) : Index := empty.addAll (rs.map Report.cluster)

theorem ofReports_concat (rs : List Report) (r : Report) :
    ofReports (rs ++ [r]) = ((ofReports rs).add r.cluster).1 := by
  rw [ofReports, List.map_append, List.map_singleton, addAll_concat]
  rfl

theorem sound_ofReports (rs : List Report) : (ofReports rs).Sound := sound_empty.addAll _

theorem add_report_ok {ix : Index}
    (hix : ∀ id c, ix.find? id = some c → ∃ r : Report, c = r.cluster)
    (r : Report) : (ix.add r.cluster).2 = none := by
  refine add_ok r.keyOf_id r.place_cluster fun d hd => ?_
  obtain ⟨previous, rfl⟩ := hix _ d hd
  exact ⟨_, previous.place_cluster⟩

theorem find?_add_report {ix : Index} (hix : ix.Sound) {r : Report}
    (hok : (ix.add r.cluster).2 = none) :
    (ix.add r.cluster).1.byId = Table.put (Key.str r.id) r.cluster ix.byId ∧
      ∀ there, Table.find? there (ix.add r.cluster).1.byPlace =
        if r.placeKey = there then some (.str r.id)
        else (Table.find? there ix.byPlace).filter (· != .str r.id) := by
  obtain ⟨id, place, hid, hplace, hbyId, hbyPlace⟩ := find?_add hix hok
  obtain rfl : Key.str r.id = id := Except.ok.inj hid
  obtain rfl : r.placeKey = place := Except.ok.inj hplace
  exact ⟨hbyId, hbyPlace⟩

theorem find?_ofReports {rs : List Report} {id : Key} {c : Cluster} :
    (ofReports rs).find? id = some c ↔
      ∃ r, Stands Report.Renews rs r ∧ Key.str r.id = id ∧ c = r.cluster := by
  induction rs using List.reverseRecOn generalizing id c with
  | nil => simp [not_stands_nil, ofReports, empty, find?]
  | append_singleton rs r ih =>
      have hok : ((ofReports rs).add r.cluster).2 = none := by
        refine add_report_ok (fun id c hc => ?_) r
        obtain ⟨previous, -, -, rfl⟩ := ih.1 hc
        exact ⟨previous, rfl⟩
      rw [ofReports_concat, find?, (find?_add_report (sound_ofReports rs) hok).1, Table.find?_put]
      change (if Key.str r.id = id then some r.cluster else (ofReports rs).find? id) = some c ↔ _
      simp only [stands_concat_iff]
      by_cases hid : Key.str r.id = id
      · rw [if_pos hid, Option.some.injEq]
        constructor
        · rintro rfl
          exact ⟨r, .inl rfl, hid, rfl⟩
        · rintro ⟨s, rfl | ⟨hnew, -⟩, hs, rfl⟩
          · rfl
          · exact absurd (Key.atom.inj (hid.trans hs.symm) |> Key.Atom.str.inj) hnew
      · rw [if_neg hid, ih]
        constructor
        · rintro ⟨s, hs, hsid, rfl⟩
          refine ⟨s, .inr ⟨fun hnew => hid ?_, hs⟩, hsid, rfl⟩
          rw [← hsid, hnew]
        · rintro ⟨s, rfl | ⟨-, hs⟩, hsid, rfl⟩
          · exact absurd hsid hid
          · exact ⟨s, hs, hsid, rfl⟩

theorem add_ofReports (rs : List Report) (r : Report) :
    ((ofReports rs).add r.cluster).2 = none := by
  refine add_report_ok (fun id c hc => ?_) r
  obtain ⟨previous, -, -, rfl⟩ := find?_ofReports.1 hc
  exact ⟨previous, rfl⟩

/-- At a place stands the identifier of the last report there, unless it was reported again. -/
theorem find?_place_ofReports {rs : List Report} {place id : Key} :
    Table.find? place (ofReports rs).byPlace = some id ↔
      ∃ r, Stands Report.Displaces rs r ∧ r.placeKey = place ∧ Key.str r.id = id := by
  induction rs using List.reverseRecOn generalizing place id with
  | nil => simp [not_stands_nil, ofReports, empty]
  | append_singleton rs r ih =>
      have hadd := (find?_add_report (sound_ofReports rs) (add_ofReports rs r)).2 place
      rw [ofReports_concat, hadd]
      simp only [stands_concat_iff, Report.displaces_iff]
      by_cases hplace : r.placeKey = place
      · rw [if_pos hplace, Option.some.injEq]
        constructor
        · rintro rfl
          exact ⟨r, .inl rfl, hplace, rfl⟩
        · rintro ⟨s, rfl | ⟨hnew, -⟩, hs, rfl⟩
          · rfl
          · exact absurd (.inr (hplace.trans hs.symm)) hnew
      · rw [if_neg hplace, Option.filter_eq_some_iff, ih]
        constructor
        · rintro ⟨⟨s, hs, rfl, rfl⟩, hne⟩
          refine ⟨s, .inr ⟨?_, hs⟩, rfl, rfl⟩
          rintro (hid | hsame)
          · simp [hid] at hne
          · exact hplace hsame
        · rintro ⟨s, rfl | ⟨hnew, hs⟩, hsplace, rfl⟩
          · exact absurd hsplace hplace
          · refine ⟨⟨s, hs, hsplace, rfl⟩, ?_⟩
            have hne : s.id ≠ r.id := fun he => hnew (.inl he.symm)
            simpa using hne

theorem keys_ofReports (rs : List Report) :
    (Table.keys (ofReports rs).byId : List Key) = (rs.map Report.id).eraseDups.map Key.str := by
  induction rs using List.reverseRecOn with
  | nil => rfl
  | append_singleton rs r ih =>
      have hkeys := Table.keys_put (Key.str r.id) r.cluster (ofReports rs).byId
      have hmem : (Labelled.key (Key.str r.id) : Key) ∈ (rs.map Report.id).eraseDups.map Key.str ↔
          r.id ∈ rs.map Report.id := by
        simp [Labelled.key, List.mem_eraseDups]
      rw [ofReports_concat, (find?_add_report (sound_ofReports rs) (add_ofReports rs r)).1, hkeys,
        ih, List.map_append, List.map_singleton, eraseDups_concat]
      by_cases hold : r.id ∈ rs.map Report.id
      · rw [if_pos (hmem.2 hold), if_pos hold]
      · rw [if_neg (mt hmem.1 hold), if_neg hold, List.map_append]
        rfl

theorem lookup_eq_some_iff {ix : Index} {zone name : String} {c : Cluster} :
    ix.lookup zone name = some c ↔
      ∃ id, Table.find? (.tuple [.str zone, .str name]) ix.byPlace = some id ∧
        id ≠ .atom .null ∧ ix.find? id = some c := by
  rw [lookup, at?]
  cases hplace : Table.find? (Key.tuple [.str zone, .str name]) ix.byPlace with
  | none => simp
  | some id =>
      by_cases hnull : id = .atom .null
      · simp [hnull]
      · split
        · next h => exact absurd (Option.some.inj h) hnull
        · next h => simp at h
        · next found _ h =>
            obtain rfl := Option.some.inj h
            simp [hnull]

theorem lookup_ofReports {rs : List Report} {zone name : String} {c : Cluster} :
    (ofReports rs).lookup zone name = some c ↔
      ∃ r, Stands Report.Displaces rs r ∧ (r.zone = zone ∧ r.name = name) ∧ c = r.cluster := by
  rw [lookup_eq_some_iff]
  constructor
  · rintro ⟨id, hplace, -, hc⟩
    obtain ⟨r, hr, hplace, hkey⟩ := find?_place_ofReports.1 hplace
    have hlatest : (ofReports rs).find? id = some r.cluster :=
      find?_ofReports.2 ⟨r, hr.mono fun s hs => .inl hs, hkey, rfl⟩
    rw [hc] at hlatest
    exact ⟨r, hr, Report.placeKey_eq_iff.1 hplace, Option.some.inj hlatest⟩
  · rintro ⟨r, hr, hplace, rfl⟩
    exact ⟨.str r.id, find?_place_ofReports.2 ⟨r, hr, Report.placeKey_eq_iff.2 hplace, rfl⟩,
      by simp, find?_ofReports.2 ⟨r, hr.mono fun s hs => .inl hs, rfl, rfl⟩⟩

/-- **An index answers by its reports.** Every report is taken. What is found at a place is the
cluster last reported there, as long as no later report has its identifier; what is found under an
identifier is its last report; the clusters are listed by the first report of their identifiers. -/
theorem answers_of_reports (rs : List Report) :
    (∀ r : Report, ((ofReports rs).add r.cluster).2 = none) ∧
    (∀ zone name c, (ofReports rs).lookup zone name = some c ↔
      ∃ r, Stands Report.Displaces rs r ∧ (r.zone = zone ∧ r.name = name) ∧ c = r.cluster) ∧
    (∀ id c, (ofReports rs).find? (.str id) = some c ↔
      ∃ r, Stands Report.Renews rs r ∧ r.id = id ∧ c = r.cluster) ∧
    List.Forall₂ (fun id c => (ofReports rs).find? (.str id) = some c)
      (rs.map Report.id).eraseDups (ofReports rs).clusters ∧
    (ofReports rs).size = (rs.map Report.id).toFinset.card := by
  refine ⟨add_ofReports rs, fun zone name c => ?_, fun id c => ?_, ?_, ?_⟩
  · exact lookup_ofReports
  · simp [find?_ofReports]
  · have hall := Table.forall₂_keys (ofReports rs).byId (sound_ofReports rs).ids
    rw [keys_ofReports, List.forall₂_map_left_iff] at hall
    exact hall
  · have hnodup : (rs.map Report.id).eraseDups.Nodup := by
      refine List.Nodup.of_map Key.str ?_
      rw [← keys_ofReports]
      exact (sound_ofReports rs).ids
    have hset : (rs.map Report.id).toFinset = (rs.map Report.id).eraseDups.toFinset := by
      ext id
      simp [List.mem_eraseDups]
    rw [hset, List.toFinset_card_of_nodup hnodup, size, ← Table.length_keys (κ := Key),
      keys_ofReports, List.length_map]

end Index
end KubeAtlas.Cluster
