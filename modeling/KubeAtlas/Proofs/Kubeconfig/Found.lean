import KubeAtlas.Proofs.Datum
import KubeAtlas.Proofs.Kubeconfig.Repoint
import KubeAtlas.Proofs.Kubeconfig.RoundTrip
import KubeAtlas.Proofs.Yaml.Loaded
/-!
# Documents as they are found

A document that was read knows the keys of its top level, each once, and has nothing that does not
stand under one of them. Nothing in it is without a name, since what counts as present is never
shown as the empty text. Renaming keeps all of that. So the mapping that such a document is written
as has the keys that were found, in their order, and carries the same as before.
-/

namespace KubeAtlas

theorem Graph.text_ne_empty {g : Graph} {v : Value} (hv : g.isTruthy v = true) :
    (g.unfold v).text ≠ "" := by
  refine Datum.text_ne_empty fun hempty => ?_
  rw [unfold] at hempty
  cases v with
  | leaf l =>
      rw [unfoldBelow] at hempty
      cases l with
      | scalar s =>
          rw [Label.datum, Datum.scalar.injEq] at hempty
          rw [hempty] at hv
          cases hv
      | _ => cases hempty
  | ref a =>
      rw [unfoldBelow_of_notMem g _ List.not_mem_nil] at hempty
      cases hcell : g.cell a <;> rw [hcell] at hempty <;> cases hempty

namespace Kubeconfig

variable {g h : Graph} {d d' : Document} {top es : Entries} {keys : List Label} {new : String}

/-! ### Names -/

namespace Part

variable {p : Part} {entry : Value} {items : List Value}

theorem label_of_readEntry {e : Label × Value} (hread : p.readEntry g entry = .ok (e, h)) :
    e.1 ≠ .str "" := by
  rw [readEntry] at hread
  split at hread
  · cases hread
  · next es name hname =>
      obtain ⟨d, hshown, hread⟩ := bind_eq_ok_iff.1 hread
      obtain ⟨body, -, hread⟩ := bind_eq_ok_iff.1 hread
      cases hread
      obtain ⟨_, -, hpresent⟩ := Option.bind_eq_some_iff.1 hname
      obtain ⟨_, hvalue, hsame⟩ := Option.map_eq_some_iff.1 hpresent
      obtain ⟨rfl, rfl⟩ := Prod.mk.inj hsame
      have htruthy := (Option.filter_eq_some_iff.1 hvalue).2
      rw [shown_eq_ok hshown]
      simpa using Graph.text_ne_empty htruthy

theorem labels_of_readEntries (hread : p.readEntries g items = .ok (es, h)) :
    ∀ e ∈ es, e.1 ≠ .str "" := by
  induction items generalizing g es with
  | nil =>
      cases hread
      simp
  | cons v rest ih =>
      rw [readEntries] at hread
      obtain ⟨⟨e, h'⟩, hentry, hread⟩ := bind_eq_ok_iff.1 hread
      obtain ⟨⟨fs, h''⟩, hrest, hread⟩ := bind_eq_ok_iff.1 hread
      cases hread
      exact List.forall_mem_cons.2 ⟨label_of_readEntry hentry, ih hrest⟩

theorem labels_of_read (hread : p.read g top = .ok (es, h)) :
    (∀ e ∈ es, e.1 ≠ .str "") ∧ (es ≠ [] → Key.str p.key ∈ (Table.keys top : List Key)) := by
  rw [read] at hread
  split at hread
  · cases hread
    exact ⟨by simp, fun hne => absurd rfl hne⟩
  · next list hlist =>
      refine ⟨?_, fun _ => ?_⟩
      · split at hread
        · cases hread
        · obtain ⟨⟨fs, k⟩, hentries, hread⟩ := bind_eq_ok_iff.1 hread
          cases hread
          intro e he
          obtain ⟨⟨w, hw⟩, -⟩ := Table.mem_ofList he
          exact labels_of_readEntries hentries (e.1, w) hw
      · rw [Table.mem_keys_iff, ← field?, (Option.filter_eq_some_iff.1 hlist).1]
        rfl

end Part

/-! ### Documents -/

namespace Document

/-- Everything in a document stands under one of the keys that were found, each of which was found
once. -/
structure LaidOut (d : Document) (keys : List Label) : Prop where
  order : d.keyOrder = keys.map Value.leaf
  distinct : (keys.map Label.key).Nodup
  carried : d.extra.map (·.1) = keys.filter fun l => !isManaged l.key
  found : ∀ p, d.entries p ≠ [] → Key.str p.key ∈ keys.map Label.key
  current : d.currentContext ≠ .null → Key.str currentContextKey ∈ keys.map Label.key

/-- Nothing in a document has the empty name. -/
structure IsNamed (d : Document) : Prop where
  entries : ∀ p, ∀ e ∈ d.entries p, e.1 ≠ .str ""
  current : d.currentContext ≠ .str ""

theorem ofMapping_laidOut (hread : ofMapping g top = .ok d)
    (hdistinct : (Table.keys top : List Key).Nodup) :
    d.LaidOut (top.map (·.1)) ∧ d.IsNamed := by
  obtain ⟨g₁, g₂, hclusters, hcontexts, husers, hcurrent, hextra, horder⟩ := ofMapping_parts hread
  have hkeys : (top.map (·.1)).map Label.key = (Table.keys top : List Key) := List.map_map
  have hclusters := Part.labels_of_read hclusters
  have hcontexts := Part.labels_of_read hcontexts
  have husers := Part.labels_of_read husers
  constructor
  · constructor
    case order => rw [horder, List.map_map]; rfl
    case distinct => rwa [hkeys]
    case carried => rw [hextra, List.filter_map]; rfl
    case found =>
      rw [hkeys]
      rintro (_ | _ | _)
      exacts [hclusters.2, hcontexts.2, husers.2]
    case current =>
      rw [hkeys]
      intro hne
      obtain ⟨v, hv, -⟩ := hcurrent.resolve_left fun habsent => hne habsent.2
      rw [Table.mem_keys_iff, ← field?, (Option.filter_eq_some_iff.1 hv).1]
      rfl
  · constructor
    case entries =>
      rintro (_ | _ | _)
      exacts [hclusters.1, hcontexts.1, husers.1]
    case current =>
      rcases hcurrent with ⟨-, hnull⟩ | ⟨v, hv, hname⟩
      · rw [hnull]; simp
      · rw [hname]
        simpa using Graph.text_ne_empty (Option.filter_eq_some_iff.1 hv).2

end Document

namespace Document

/-! ### Renamed documents -/

theorem ne_empty_of_rename (hrename : rename d new = .ok d') : new ≠ "" := by
  rintro rfl
  cases hrename

theorem LaidOut.rename (hd : d.LaidOut keys) (hwf : d.WellFormed)
    (hrename : rename d new = .ok d') : d'.LaidOut keys := by
  obtain rfl | ⟨o, body, h, hcluster, hrep, rfl⟩ := rename_ok_cases hwf hrename
  · exact hd
  · constructor
    case order => exact hd.order
    case distinct => exact hd.distinct
    case carried => exact hd.carried
    case found =>
      rintro (_ | _ | _) hne
      · exact hd.found .clusters (by simp [entries, hcluster])
      · refine hd.found .contexts fun hnil => hne ?_
        have hcontexts : d.contexts = [] := hnil
        rw [entries, withName, hcontexts]
        rfl
      · exact hd.found .users hne
    case current =>
      intro hne
      refine hd.current fun hnull => hne ?_
      rw [withName, hnull]
      rfl

theorem IsNamed.rename (hd : d.IsNamed) (hwf : d.WellFormed)
    (hrename : rename d new = .ok d') : d'.IsNamed := by
  have hnew : new ≠ "" := ne_empty_of_rename hrename
  obtain rfl | ⟨o, body, h, hcluster, hrep, rfl⟩ := rename_ok_cases hwf hrename
  · exact hd
  · constructor
    case entries =>
      rintro (_ | _ | _) e he
      · obtain rfl := List.mem_singleton.1 he
        simpa using hnew
      · obtain ⟨⟨w, hw⟩, -⟩ := Table.mem_ofList he
        obtain ⟨f, hf, hsame⟩ := List.mem_map.1 hw
        split at hsame
        · rw [← (Prod.mk.inj hsame).1]
          simpa using hnew
        · obtain rfl := hsame
          exact hd.entries .contexts (e.1, w) hf
      · exact hd.entries .users e he
    case current =>
      rw [withName]
      split
      · simpa using hnew
      · exact hd.current

/-! ### The written mapping -/

theorem LaidOut.foundKeys (hd : d.LaidOut keys) : d.foundKeys = keys.map Label.key := by
  rw [Document.foundKeys, hd.order, List.filterMap_map]
  exact congrFun List.filterMap_eq_map keys

theorem LaidOut.carriesOthers (hd : d.LaidOut keys) : d.CarriesOthers := by
  have hkeys : (Table.keys d.extra : List Key) =
      (keys.filter fun l => !isManaged l.key).map Label.key := by
    rw [← hd.carried, List.map_map]
    rfl
  constructor
  · rw [hkeys]
    exact hd.distinct.sublist (List.filter_sublist.map _)
  · rw [hkeys]
    intro k hk
    obtain ⟨l, hl, rfl⟩ := List.mem_map.1 hk
    simpa using (List.mem_filter.1 hl).2

theorem LaidOut.isSome_topValue? (hd : d.LaidOut keys) {l : Label} (hl : l ∈ keys) :
    (topValue? d.written.1 d.extra l.key).isSome := by
  have hfound : l.key ∈ d.foundKeys := hd.foundKeys ▸ List.mem_map.2 ⟨l, hl, rfl⟩
  rw [Document.isSome_topValue? hfound, Bool.or_eq_true, decide_eq_true_eq]
  by_cases hmanaged : isManaged l.key = true
  · exact .inl hmanaged
  · have hcarried : l ∈ d.extra.map (·.1) := by
      rw [hd.carried]
      exact List.mem_filter.2 ⟨hl, by simpa using hmanaged⟩
    obtain ⟨e, he, rfl⟩ := List.mem_map.1 hcarried
    exact .inr (List.mem_map.2 ⟨e, he, rfl⟩)

theorem LaidOut.remaining_eq (hd : d.LaidOut keys) (hwf : d.WellFormed) :
    remaining d.extra keys = [] ∧ remaining d.written.1 keys = [] := by
  have hnone : ∀ t : Entries, (∀ k ∈ (Table.keys t : List Key), k ∈ keys.map Label.key) →
      remaining t keys = [] := by
    intro t ht
    refine List.filter_eq_nil_iff.2 fun e he => ?_
    simpa using ht _ (List.mem_map.2 ⟨e, he, rfl⟩)
  have hsections : ∀ k ∈ d.sections, k ∈ keys.map Label.key := by
    intro k hk
    rcases List.mem_append.1 hk with hpart | hcurrent
    · obtain ⟨p, hp, rfl⟩ := List.mem_map.1 hpart
      exact hd.found p (by simpa using (List.mem_filter.1 hp).2)
    · split at hcurrent
      · next htruthy =>
          obtain rfl := List.mem_singleton.1 hcurrent
          refine hd.current fun hnull => ?_
          rw [hnull] at htruthy
          cases htruthy
      · cases hcurrent
  refine ⟨hnone _ fun k hk => ?_, hnone _ fun k hk => ?_⟩
  · obtain ⟨e, he, rfl⟩ := List.mem_map.1 hk
    have hcarried : e.1 ∈ d.extra.map (·.1) := List.mem_map.2 ⟨e, he, rfl⟩
    rw [hd.carried] at hcarried
    exact List.mem_map.2 ⟨e.1, (List.mem_filter.1 hcarried).1, rfl⟩
  · -- a section that was not found is written only if it has something, and then it was found
    by_contra hnot
    have hwritten : k ∈ (Table.keys d.written.1 : List Key).filter (· ∉ d.foundKeys) :=
      List.mem_filter.2 ⟨hk, by simpa [hd.foundKeys] using hnot⟩
    rw [keys_written_filter hwf] at hwritten
    exact hnot (hsections k (List.mem_filter.1 hwritten).1)

theorem LaidOut.arranged_eq (hd : d.LaidOut keys) (hwf : d.WellFormed) :
    arranged d.written.1 d.extra keys =
      keys.filterMap fun l => (topValue? d.written.1 d.extra l.key).map (Prod.mk l) := by
  obtain ⟨hextra, hwritten⟩ := hd.remaining_eq hwf
  rw [arranged, hextra, hwritten, List.append_nil, List.append_nil, taken]
  refine Table.ofList_of_nodup ?_
  have hkeys := Table.map_fst_filterMap keys fun l => topValue? d.written.1 d.extra l.key
  have hsub : (keys.filter fun l => (topValue? d.written.1 d.extra l.key).isSome).Sublist keys :=
    List.filter_sublist
  have hnodup := hd.distinct.sublist (hsub.map Label.key)
  rw [← hkeys, List.map_map] at hnodup
  exact hnodup

theorem LaidOut.labels_arranged (hd : d.LaidOut keys) (hwf : d.WellFormed) :
    (arranged d.written.1 d.extra keys).map (·.1) = keys := by
  rw [hd.arranged_eq hwf, Table.map_fst_filterMap]
  exact List.filter_eq_self.2 fun l hl => hd.isSome_topValue? hl

theorem LaidOut.carried_arranged (hd : d.LaidOut keys) (hwf : d.WellFormed) :
    (arranged d.written.1 d.extra keys).filter (fun e => !isManaged (Labelled.key e.1)) =
      d.extra := by
  have hothers := hd.carriesOthers
  have hcarried := Table.filterMap_find? hothers.distinct
  rw [hd.carried, List.filterMap_filter] at hcarried
  rw [hd.arranged_eq hwf, List.filter_filterMap]
  refine Eq.trans (List.filterMap_congr fun l _ => ?_) hcarried
  -- a managed key is filtered out on both sides, and the value of any other is the carried one
  cases hmanaged : isManaged l.key with
  | true =>
      cases topValue? d.written.1 d.extra l.key with
      | none => rfl
      | some v => simp [Labelled.key, hmanaged]
  | false =>
      have hnot : l.key ∉ (Table.keys d.written.1 : List Key) := fun hk => by
        rw [isManaged_iff.2 ((keys_written_sublist d).subset hk)] at hmanaged
        cases hmanaged
      rw [topValue?, Table.find?_eq_none_of_notMem hnot, Option.none_or]
      cases hfind : Table.find? l.key d.extra with
      | none => simp [Labelled.key]
      | some v => simp [Labelled.key, hmanaged]

end Document
end Kubeconfig
end KubeAtlas
