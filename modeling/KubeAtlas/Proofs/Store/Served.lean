import KubeAtlas.Proofs.Datum
import KubeAtlas.Proofs.Store.Reach
import KubeAtlas.Store.Credential
/-!
# What a path is served with

A kubeconfig is asked for once, for the cluster that the index has at the path, or not at all. Two
things follow. After a pass every path that it has shown leads to the cluster that was last reported
under it, unless the identifier of that cluster was reported again; and in every state that a store
can reach, whatever is asked for is what the last report of its identifier said.
-/

namespace KubeAtlas

namespace Cluster.Report

def path (r : Report) : String := r.zone ++ "/" ++ r.name

def IsAddressable (r : Report) : Prop := IsSegment r.zone ∧ IsSegment r.name

theorem IsAddressable.splitPath {r : Report} (h : r.IsAddressable) :
    splitPath r.path = .ok (r.zone, r.name) :=
  splitPath_eq_ok_iff.2 ⟨rfl, h.1, h.2⟩

theorem path_eq_of_place {r s : Report} (h : s.cluster.place = .ok r.placeKey) :
    s.path = r.path := by
  rw [place_cluster, Except.ok.injEq, placeKey.eq_def r, placeKey_eq_iff] at h
  rw [path, path, h.1, h.2]

end Cluster.Report

namespace Store

open Cluster (Index Report)

variable {σ : Type}

theorem locate_eq_ok_iff {ix : Index} {path name : String} {c : Cluster} :
    locate ix path = .ok (c, name) ↔
      ∃ zone, Cluster.splitPath path = .ok (zone, name) ∧ ix.lookup zone name = some c := by
  rw [locate]
  constructor
  · intro h
    rcases hsplit : Cluster.splitPath path with e | ⟨zone, found⟩
    · simp [hsplit, bind, Except.bind] at h
    · rw [hsplit] at h
      cases hlookup : ix.lookup zone found with
      | none => simp [bind, Except.bind, hlookup, throw, throwThe, MonadExceptOf.throw] at h
      | some d =>
          simp only [bind, Except.bind, hlookup, pure, Except.pure, Except.ok.injEq,
            Prod.mk.injEq] at h
          obtain ⟨rfl, rfl⟩ := h
          exact ⟨zone, rfl, hlookup⟩
  · rintro ⟨zone, hsplit, hlookup⟩
    simp [hsplit, hlookup, bind, Except.bind, pure, Except.pure]

/-- How a path is served: the cluster is located, the provider asked, its answer made a document. -/
theorem perform_kubeconfig (p : Provider σ) (write : Writer) (ix : Index) (path : String)
    (w : World σ) :
    (kubeconfig p write ix path).perform w = match locate ix path with
      | .error e => (.error e, w)
      | .ok (c, name) => match (p.kubeconfig c.endpoint c.id fullGrant).perform w with
        | (.error e, v) => (.error (.atPath .generation path e), v)
        | (.ok answer, v) => (materialize write path name answer, v) := by
  rw [kubeconfig, Action.perform_bind, Action.perform_liftM]
  rcases locate ix path with e | ⟨c, name⟩
  · rfl
  · simp only [Action.perform_bind, request, Action.perform_tryCatch]
    rcases (p.kubeconfig c.endpoint c.id fullGrant).perform w with ⟨e | answer, v⟩
    · rfl
    · exact Action.perform_liftM _ v

theorem calls_kubeconfig (p : Provider σ) (write : Writer) (ix : Index) (path : String)
    (w : World σ) :
    (kubeconfig p.watched write ix path).calls w = match locate ix path with
      | .ok (c, _) => [.kubeconfig c.endpoint c.id fullGrant]
      | .error _ => [] := by
  rw [Action.calls, perform_kubeconfig]
  rcases locate ix path with e | ⟨c, name⟩
  · rfl
  · simp only [Provider.watched, Action.perform_watched]
    rcases (p.kubeconfig c.endpoint c.id fullGrant).perform
      ⟨w.watched.outside.1, w.watched.journal⟩ with ⟨e | answer, v⟩
    · rfl
    · rfl

theorem mem_calls_kubeconfig_iff {p : Provider σ} {write : Writer} {ix : Index} {path : String}
    {w : World σ} {call : Call} :
    call ∈ (kubeconfig p.watched write ix path).calls w ↔
      ∃ c name, locate ix path = .ok (c, name) ∧ call = .kubeconfig c.endpoint c.id fullGrant := by
  rw [calls_kubeconfig]
  rcases locate ix path with e | ⟨c, name⟩ <;> simp

/-! ### After a pass -/

theorem locate_of_last {ix : Index} (hix : ix.Sound) {before after : List Report} {r : Report}
    (htakes : ix.Takes ((before ++ r :: after).map Report.cluster)) (hr : r.IsAddressable)
    (hpath : ∀ s ∈ after, s.path ≠ r.path) (hid : ∀ s ∈ after, s.id ≠ r.id) :
    locate (ix.addAll ((before ++ r :: after).map Report.cluster)) r.path =
      .ok (r.cluster, r.name) := by
  rw [List.map_append, List.map_cons] at htakes ⊢
  obtain ⟨-, hok, hafter⟩ := Cluster.Index.takes_append.1 htakes
  have hsound := hix.addAll (before.map Report.cluster)
  have hholds := Cluster.Index.holds_add hsound hok r.keyOf_id r.place_cluster
  have hlater := hholds.addAll (hsound.add r.cluster) hafter (by
    simp only [List.mem_map, forall_exists_index, and_imp, forall_apply_eq_imp_iff₂]
    exact fun s hs => ⟨fun h => hid s hs (by simpa [Report.keyOf_id] using h),
      fun h => hpath s hs (Report.path_eq_of_place h)⟩)
  rw [Cluster.Index.addAll_append, Cluster.Index.addAll_cons]
  exact locate_eq_ok_iff.2 ⟨r.zone, hr.splitPath,
    Cluster.Index.lookup_eq_some_iff.2 ⟨_, hlater.1, by simp, hlater.2⟩⟩

/-! ### In every state -/

/-- What a path leads to is the last report of its identifier, and was made under that path. -/
theorem last_of_locate {past : List Cluster} {searches : List Search} {ix : Index}
    (h : Reached past searches ix) {path name : String} {c : Cluster}
    (hlocate : locate ix path = .ok (c, name)) :
    ∃ zone, c.zone = .str zone ∧ c.name = .str name ∧ path = zone ++ "/" ++ name ∧
      Cluster.Stands Cluster.Renews past c := by
  obtain ⟨zone, hsplit, hlookup⟩ := locate_eq_ok_iff.1 hlocate
  obtain ⟨id, hplace, -, hfind⟩ := Cluster.Index.lookup_eq_some_iff.1 hlookup
  obtain ⟨d, hd, hown⟩ := h.sound.own _ id hplace
  obtain rfl : c = d := Option.some.inj (hfind.symm.trans hd)
  obtain ⟨z, n, hz, hn, hkeys⟩ := Cluster.pairKey_eq_ok_iff.1 hown
  simp only [Key.tuple.injEq, List.cons.injEq, and_true] at hkeys
  obtain ⟨rfl, rfl⟩ := hkeys
  refine ⟨zone, Datum.eq_str_of_key? hz, Datum.eq_str_of_key? hn,
    (Cluster.splitPath_eq_ok_iff.1 hsplit).1, ?_⟩
  rw [h.index_eq] at hfind
  exact (Cluster.Index.stands_of_find? hfind hown).1

/-- **A path leads to what was reported under it.** After a complete pass over answers in text,
every path shown leads to the cluster last reported under it, unless that identifier was reported
again: one request is made, for its identifier, at the address of its zone. And in every state, a
request that is made for a path is the last report of its identifier, whose zone and name are the
path. -/
theorem paths_lead_to_reports {past : List Cluster} {searches : List Search} {ix : Index}
    (h : Reached past searches ix) :
    (∀ {σ : Type} (p : Provider σ) (w : World σ) (rs : List Report),
      Search.reports p w = rs.map Report.cluster → (∀ r ∈ rs, r.IsAddressable) →
      (discover p ix w).failure = none →
      ∀ path, .path path ∈ (discover p ix w).results →
        ∃ before r after, rs = before ++ r :: after ∧ r.path = path ∧
          (∀ s ∈ after, s.path ≠ path) ∧
          ((∀ s ∈ after, s.id ≠ r.id) →
            ∀ {τ : Type} (q : Provider τ) (write : Writer) (v : World τ),
              (kubeconfig q.watched write (discover p ix w).index path).calls v =
                [.kubeconfig (.str r.endpoint) (.str r.id) fullGrant])) ∧
    ∀ {τ : Type} (q : Provider τ) (write : Writer) (v : World τ) (path : String)
      (endpoint id : Datum) (grant : Grant),
      .kubeconfig endpoint id grant ∈ (kubeconfig q.watched write ix path).calls v →
        ∃ zone name, path = zone ++ "/" ++ name ∧
          Cluster.Stands Cluster.Renews past ⟨id, .str name, .str zone, endpoint⟩ := by
  constructor
  · intro σ p w rs hreports hrs hcomplete path hshown
    obtain ⟨htakes, -, hindex, hpaths⟩ := discover_complete hcomplete
    rw [hreports] at htakes hindex hpaths
    obtain ⟨c, hc, hpath⟩ := (hpaths path).1 hshown
    obtain ⟨shown, hmem, rfl⟩ := List.mem_map.1 hc
    obtain ⟨r, hr, before, after, rfl, hlast⟩ :=
      Cluster.exists_stands (P := fun s : Report => s.path = path) hmem hpath
    refine ⟨before, r, after, rfl, hr, hlast, fun hid τ q write v => ?_⟩
    subst hr
    rw [calls_kubeconfig, hindex, locate_of_last h.sound htakes (hrs r (by simp)) hlast hid]
    rfl
  · intro τ q write v path endpoint id grant hcall
    obtain ⟨c, name, hlocate, hsame⟩ := mem_calls_kubeconfig_iff.1 hcall
    obtain ⟨zone, hzone, hname, hpath, hstands⟩ := last_of_locate h hlocate
    obtain ⟨rfl, rfl, -⟩ := Call.kubeconfig.inj hsame
    refine ⟨zone, name, hpath, ?_⟩
    rw [← hzone, ← hname]
    exact hstands

def oneZone (found : List Listing) : Provider Unit :=
  ⟨pure [⟨.str "z", .str "https://z"⟩], fun _ => pure found, fun _ _ _ => pure (.str "")⟩

/-- Between two passes a cluster is renamed and another one takes its former path. The path led to
the first of them before the second pass, and leads to the other one after it. -/
theorem paths_lead_to_reports_taken_over :
    ∃ (past : List Cluster) (searches : List Search) (ix : Index), Reached past searches ix ∧
      past = [⟨.str "1", .str "a", .str "z", .str "https://z"⟩] ∧
      (∀ {τ : Type} (q : Provider τ) (write : Writer) (v : World τ),
        (kubeconfig q.watched write (discover (oneZone [⟨.str "1", .str "b"⟩, ⟨.str "2", .str "a"⟩])
          ix ⟨(), .quiet⟩).index "z/a").calls v =
            [.kubeconfig (.str "https://z") (.str "2") fullGrant]) ∧
      ∃ zone name, "z/a" = zone ++ "/" ++ name ∧ Cluster.Stands Cluster.Renews past
        ⟨.str "1", .str name, .str zone, .str "https://z"⟩ := by
  have hreached := Reached.first (oneZone [⟨.str "1", .str "a"⟩]) ⟨(), .quiet⟩
  refine ⟨_, _, _, hreached, rfl, fun q write v => ?_, ?_⟩
  · rcases discover_cases (oneZone [⟨.str "1", .str "b"⟩, ⟨.str "2", .str "a"⟩]) _ ⟨(), .quiet⟩ with
      (⟨-, hresults, hfailure, -, -⟩ | ⟨hrefused, -⟩) | ⟨hnone, -⟩
    · obtain ⟨before, r, after, hrs, hpath, -, hcalls⟩ := (paths_lead_to_reports hreached).1
        (oneZone [⟨.str "1", .str "b"⟩, ⟨.str "2", .str "a"⟩]) ⟨(), .quiet⟩
        [⟨"1", "b", "z", "https://z"⟩, ⟨"2", "a", "z", "https://z"⟩] rfl
        (by simp [Report.IsAddressable, Cluster.isSegment_iff]) hfailure "z/a"
        (hresults ▸ List.mem_map.2 ⟨_, List.mem_cons_of_mem _ List.mem_cons_self, rfl⟩)
      rcases before with _ | ⟨s, _ | ⟨t, before⟩⟩
      · obtain ⟨rfl, -⟩ := List.cons.inj hrs
        exact absurd hpath (by decide)
      · obtain ⟨rfl, rfl⟩ := List.cons.inj (List.cons.inj hrs).2
        exact hcalls (by simp) q write v
      · simp at hrs
    · exact absurd ⟨rfl, rfl, trivial⟩ hrefused
    · exact absurd hnone (List.cons_ne_nil _ _)
  · refine (paths_lead_to_reports hreached).2 (oneZone []) (fun _ => .ok "") ⟨(), .quiet⟩ "z/a" _ _
      fullGrant ?_
    rw [calls_kubeconfig]
    exact List.mem_singleton.2 rfl

end Store
end KubeAtlas
