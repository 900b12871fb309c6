import KubeAtlas.Proofs.Api.Client
import KubeAtlas.Proofs.Store.Answers
/-!
# Searching over the client

Whatever is wrong with an answer as a whole is a failure of its request, which a pass survives: it
says that the zones cannot be listed, or passes over one zone. The members of a single entry are
another matter. The client hands them on as they are, and the index needs them as keys, so that a
list or a mapping in the place of an identifier or a name stops the pass at that entry, with all
that is left of it. Nothing else does (`client_pass_complete_iff`), and one such entry is enough
(`client_pass_cut_short`).
-/

namespace KubeAtlas

namespace Cluster

theorem isKeyed_iff {c : Cluster} :
    c.IsKeyed ↔ c.id.key? ≠ none ∧ c.name.key? ≠ none ∧ c.zone.key? ≠ none := by
  simp only [IsKeyed, keyOf_eq_ok_iff, place, pairKey_eq_ok_iff, Option.ne_none_iff_exists']
  constructor
  · rintro ⟨hid, place, z, n, hz, hn, -⟩
    exact ⟨hid, ⟨n, hn⟩, ⟨z, hz⟩⟩
  · rintro ⟨hid, ⟨n, hn⟩, ⟨z, hz⟩⟩
    exact ⟨hid, _, z, n, hz, hn, rfl⟩

theorem keyOf_eq_error {d : Datum} {e : Failure} (h : keyOf d = .error e) :
    ∃ k, e = .wrongKind (.unhashable k) := by
  rw [keyOf] at h
  split at h
  · cases h
  · cases h
    exact ⟨d.kind, rfl⟩

theorem place_eq_error {c : Cluster} {e : Failure} (h : c.place = .error e) :
    ∃ k, e = .wrongKind (.unhashable k) := by
  rcases bind_eq_error_iff.1 h with hzone | ⟨z, -, h⟩
  · exact keyOf_eq_error hzone
  · rcases bind_eq_error_iff.1 h with hname | ⟨n, -, h⟩
    · exact keyOf_eq_error hname
    · cases h

/-- A report is only ever refused for something that cannot be a key. -/
theorem Index.add_eq_some {ix : Index} {c : Cluster} {e : Failure} (h : (ix.add c).2 = some e) :
    ∃ k, e = .wrongKind (.unhashable k) := by
  rw [add_eq] at h
  split at h
  · next d hid =>
      cases h
      exact keyOf_eq_error hid
  · next id hid =>
      split at h
      · next d hleft =>
          cases h
          rw [vacate] at hleft
          split at hleft
          · next previous hprevious =>
              rcases bind_eq_error_iff.1 hleft with hplace | ⟨place, -, hleft⟩
              · exact place_eq_error hplace
              · split at hleft <;> cases hleft
          · cases hleft
      · split at h
        · next d hplace =>
            cases h
            exact place_eq_error hplace
        · cases h

end Cluster

namespace Store

open Cluster (Index)
open Search (answers)

variable {past : List Cluster} {searches : List Search} {ix : Index} {σ : Type}

theorem isJson_reports {c : Api.Client} {t : Api.Transport σ} {w : World σ} {script : List Outcome}
    (h : answers (c.provider t) w = .ok script) {b : Cluster}
    (hb : b ∈ script.flatMap Outcome.reports) : b.id.IsJson ∧ b.name.IsJson ∧ b.zone.IsJson := by
  rw [answers] at h
  rcases hzones : (c.provider t).zones.perform (w.record (note .debug "Exoscale: start search"))
    with ⟨e | zones, v⟩ <;> rw [hzones] at h
  · cases h
  · obtain rfl := Except.ok.inj h
    obtain ⟨⟨z, answer⟩, ho, hb⟩ := List.mem_flatMap.1 hb
    obtain ⟨hzone, u, hanswer⟩ := Search.asked_of_mem_outcomes ho
    cases answer with
    | error e => cases hb
    | ok found =>
        obtain ⟨l, hl, rfl⟩ := List.mem_map.1 hb
        have hlisted := c.clusters_yields t z.endpoint u found hanswer l hl
        have hnamed := c.zones_yields t _ zones (congrArg Prod.fst hzones) z hzone
        exact ⟨hlisted.1, hlisted.2, hnamed.1⟩

theorem failure_unhashable {p : Provider σ} {w : World σ} {f : Failure}
    (h : (discover p ix w).failure = some f) : ∃ k, f = .wrongKind (.unhashable k) := by
  cases hanswers : answers p w with
  | error e =>
      rw [discover_of_unanswered ix hanswers] at h
      cases h
  | ok script =>
      rw [(discover_of_answers ix hanswers).failure] at h
      rcases Index.takes_or_refused ix (script.flatMap Outcome.reports) with
        htakes | ⟨before, c, after, e, hsplit, htakes, hrefused⟩
      · rw [Index.enterAll_of_takes htakes] at h
        cases h
      · rw [hsplit, Index.enterAll_of_refused after htakes hrefused] at h
        cases h
        exact Index.add_eq_some hrefused

/-- **A pass over the client survives every answer but for its members.** If the zones cannot be
listed, the one result says so. Otherwise a pass shows only paths, and it is complete exactly if
neither a list nor a mapping stands for an identifier or a name, and no report meets an entry that
an earlier search has left without a place; in a store that has only seen proper reports there is no
such entry. A complete pass shows and enters every report of every zone that answered, and over a
transport that records no warnings it has recorded one for each zone that failed, in order. A pass
that is stopped ends with a word about a value that cannot be a key. -/
theorem client_pass_complete_iff (h : Reached past searches ix) (c : Api.Client)
    (t : Api.Transport σ) (w : World σ) :
    let pass := discover (c.provider t) ix w
    (∀ e, answers (c.provider t) w = .error e →
      pass.results = [.failed (.unavailable e)] ∧ pass.failure = none) ∧
    (∀ f, pass.failure = some f → ∃ k, f = .wrongKind (.unhashable k)) ∧
    ∀ script, answers (c.provider t) w = .ok script →
      (∀ r ∈ pass.results, ∃ path, r = .path path) ∧
      (pass.failure = none ↔ ∀ o ∈ script, ∀ b ∈ o.reports,
        ¬ b.id.IsContainer ∧ ¬ b.name.IsContainer ∧ ¬ b.zone.IsContainer ∧ ix.Admits b) ∧
      ((∀ b ∈ past, b.IsKeyed) → ∀ o ∈ script, ∀ b ∈ o.reports, ix.Admits b) ∧
      (pass.failure = none →
        pass.results = (script.flatMap Outcome.reports).map (fun b => .path b.path) ∧
        ∀ o ∈ script, ∀ b ∈ o.reports, ∃ id d, b.id.key? = some id ∧
          pass.index.find? id = some d ∧ d.id.key? = some id ∧
          d ∈ script.flatMap Outcome.reports) ∧
      (pass.failure = none → t.IsDiscreet →
        pass.world.journal.graves =
          w.journal.graves ++ script.filterMap Outcome.warning?) := by
  intro pass
  refine ⟨fun e he => ?_, fun f hf => ?_, fun script hscript => ?_⟩
  · have hpass : pass = _ := discover_of_unanswered ix he
    rw [hpass]
    exact ⟨rfl, rfl⟩
  · exact failure_unhashable hf
  have hpass : Search.Follows ix _ _ pass := discover_of_answers ix hscript
  have hcomplete : pass.failure = none ↔ ix.Takes (script.flatMap Outcome.reports) := by
    rw [hpass.failure, Index.takes_iff_refused]
  refine ⟨fun r hr => ?_, ?_, fun hpast o _ b _ => h.admits hpast b, fun hnone => ?_,
    fun hnone ht => ?_⟩
  · rw [hpass.results] at hr
    obtain ⟨b, -, rfl⟩ := List.mem_map.1 hr
    exact ⟨b.path, rfl⟩
  · rw [hcomplete, Index.takes_iff h.sound, List.forall_mem_flatMap]
    refine forall₂_congr fun o ho => forall₂_congr fun b hb => ?_
    obtain ⟨hid, hname, hzone⟩ := isJson_reports hscript (List.mem_flatMap.2 ⟨o, ho, hb⟩)
    rw [Cluster.isKeyed_iff, ne_eq, ne_eq, ne_eq, hid.key?_eq_none_iff, hname.key?_eq_none_iff,
      hzone.key?_eq_none_iff, and_assoc, and_assoc]
  · have htakes := hcomplete.1 hnone
    rw [hpass.results, hpass.index, Index.enterAll_of_takes htakes]
    refine ⟨rfl, fun o ho b hb => ?_⟩
    have hmem : b ∈ script.flatMap Outcome.reports := List.mem_flatMap.2 ⟨o, ho, hb⟩
    obtain ⟨⟨id, hid⟩, -⟩ := Index.isKeyed_of_takes htakes b hmem
    have hkey := Cluster.keyOf_eq_ok_iff.1 hid
    cases hlast : Index.lastOf (script.flatMap Outcome.reports) id with
    | none => exact absurd hkey (Index.lastOf_eq_none_iff.1 hlast b hmem)
    | some d =>
        obtain ⟨hd, hsame⟩ := Index.lastOf_eq_some hlast
        exact ⟨id, d, hkey, by rw [Index.find?_addAll h.sound htakes, hlast, Option.some_or],
          hsame, hd⟩
  · rw [hpass.world hnone, Search.graves_concluded (c.isDiscreet_provider ht) hscript]

/-! ### An account with two zones -/

def account : Api.Client := ⟨.str "key", .str "secret", "https://z", .int 30, true, 0⟩

def twoZones (first second : String) : Api.Transport Unit where
  send r := pure ⟨200, (Table.find? r.url
    [("https://z/zone",
      "\x7b\"zones\": [\x7b\"name\": \"a\", \"api-endpoint\": \"https://a\"\x7d, " ++
        "\x7b\"name\": \"b\", \"api-endpoint\": \"https://b\"\x7d]\x7d"),
    ("https://a/sks-cluster", first), ("https://b/sks-cluster", second)]).getD ""⟩
  connect _ := pure ()

def oneCluster : String :=
  "\x7b\"sks-clusters\": [\x7b\"id\": \"2\", \"name\": \"y\"\x7d]\x7d"

def nested : String := "\x7b\"sks-clusters\": [\x7b\"id\": [1], \"name\": \"x\"\x7d]\x7d"

theorem not_isContainer_of_str? {d : Datum} (h : d.str?.isSome) : ¬ d.IsContainer := by
  rintro (⟨items, rfl⟩ | ⟨entries, rfl⟩) <;> cases h

/-- A zone that does not answer with JSON is passed over, and the other one is reported. -/
theorem client_pass_complete_garbled :
    (discover (account.provider (twoZones "<html>" oneCluster)) .empty ⟨(), .quiet⟩).failure =
        none ∧
      (discover (account.provider (twoZones "<html>" oneCluster)) .empty ⟨(), .quiet⟩).results =
        [.path "b/y"] := by
  have hpaths : (Search.reports (account.provider (twoZones "<html>" oneCluster)) ⟨(), .quiet⟩).map
      Cluster.path = ["b/y"] := by decide +kernel
  have htexts : ((Search.reports (account.provider (twoZones "<html>" oneCluster))
      ⟨(), .quiet⟩).all fun b => b.id.str?.isSome && b.name.str?.isSome && b.zone.str?.isSome) =
        true := by decide +kernel
  cases hanswers : answers (account.provider (twoZones "<html>" oneCluster)) ⟨(), .quiet⟩ with
  | error e =>
      rw [Search.reports_eq, hanswers] at hpaths
      cases hpaths
  | ok script =>
      rw [Search.reports_of_answers hanswers] at hpaths htexts
      obtain ⟨-, -, hall⟩ := client_pass_complete_iff .initial account
        (twoZones "<html>" oneCluster) ⟨(), .quiet⟩
      obtain ⟨-, hcomplete, hadmits, hshown, -⟩ := hall script hanswers
      have hnone := hcomplete.2 fun o ho b hb => by
        have hb' := List.all_eq_true.1 htexts b (List.mem_flatMap.2 ⟨o, ho, hb⟩)
        simp only [Bool.and_eq_true] at hb'
        exact ⟨not_isContainer_of_str? hb'.1.1, not_isContainer_of_str? hb'.1.2,
          not_isContainer_of_str? hb'.2, hadmits (by simp) o ho b hb⟩
      refine ⟨hnone, (hshown hnone).1.trans ?_⟩
      have hmap : ∀ cs : List Cluster,
          (cs.map fun b => SearchResult.path b.path) = (cs.map Cluster.path).map .path := by simp
      rw [hmap, hpaths, List.map_singleton]

/-- An entry with a list for its identifier stops the pass, and the other zone is not reported. -/
theorem client_pass_cut_short :
    (∃ script, answers (account.provider (twoZones nested oneCluster)) ⟨(), .quiet⟩ =
        .ok script ∧ (script.flatMap Outcome.reports).map Cluster.path = ["a/x", "b/y"]) ∧
      (discover (account.provider (twoZones nested oneCluster)) .empty ⟨(), .quiet⟩).failure ≠
        none ∧
      (discover (account.provider (twoZones nested oneCluster)) .empty ⟨(), .quiet⟩).results = [] ∧
      (discover (account.provider (twoZones nested oneCluster)) .empty
        ⟨(), .quiet⟩).index.size = 0 := by
  have hpaths : (Search.reports (account.provider (twoZones nested oneCluster)) ⟨(), .quiet⟩).map
      Cluster.path = ["a/x", "b/y"] := by decide +kernel
  have hentered : (Index.empty.enterAll (Search.reports
      (account.provider (twoZones nested oneCluster)) ⟨(), .quiet⟩)).refused.isSome = true ∧
      (Index.empty.enterAll (Search.reports
      (account.provider (twoZones nested oneCluster)) ⟨(), .quiet⟩)).taken.length = 0 ∧
      (Index.empty.enterAll (Search.reports
      (account.provider (twoZones nested oneCluster)) ⟨(), .quiet⟩)).index.size = 0 := by
    decide +kernel
  cases hanswers : answers (account.provider (twoZones nested oneCluster)) ⟨(), .quiet⟩ with
  | error e =>
      rw [Search.reports_eq, hanswers] at hpaths
      cases hpaths
  | ok script =>
      rw [Search.reports_of_answers hanswers] at hpaths hentered
      obtain ⟨hrefused, htaken, hsize⟩ := hentered
      have hpass := discover_of_answers .empty hanswers
      rw [hpass.failure, hpass.results, hpass.index, List.eq_nil_of_length_eq_zero htaken]
      exact ⟨⟨script, rfl, hpaths⟩, Option.isSome_iff_ne_none.1 hrefused, rfl, hsize⟩

end Store
end KubeAtlas
