import KubeAtlas.Proofs.Cluster.Path
import KubeAtlas.Proofs.Store.Pass
/-!
# The states a store can reach

Only searches write to the index of a store. Searches are opened at any time, any number of them,
and moved on one result at a time in any order; what the provider answers may have changed at every
step. `Reached` holds of the reports made so far, the searches that are open and the index. The
index is then what the reports make of it (`Reached.index_eq`), however the searches were
interleaved, so that what is known of the history of an index is known of every state of a store.
-/

namespace KubeAtlas

namespace Store

open Cluster (Index)

namespace Search

variable {σ : Type}

def first? (p : Provider σ) : List Zone → World σ → Option Cluster
  | [], _ => none
  | z :: rest, w =>
    match (p.clusters z.endpoint).perform w with
    | (.error e, w) =>
      first? p rest (w.record (note .warning (Failure.zone z.name e.message).message))
    | (.ok [], w) =>
      first? p rest (w.record (note .debug s!"No SKS clusters found in zone {z.name.text}"))
    | (.ok (c :: _), _) => some (Listing.inZone z c)

/-- The cluster that the next step of a search reports, if there is one. -/
def upcoming? (p : Provider σ) (s : Search) (w : World σ) : Option Cluster :=
  match s with
  | .unstarted =>
    match p.zones.perform (w.record (note .debug "Exoscale: start search")) with
    | (.error _, _) => none
    | (.ok zones, w) => first? p zones w
  | .reporting zone (c :: _) _ => some (Listing.inZone zone c)
  | .reporting _ [] rest => first? p rest w
  | .ended => none

theorem index_report (zone : Zone) (c : Listing) (found : List Listing) (rest : List Zone)
    (ix : Index) (w : World σ) :
    (report zone c found rest ix w).index = (ix.add (Listing.inZone zone c)).1 := by
  rw [report, ← Listing.inZone]
  rcases ix.add (Listing.inZone zone c) with ⟨jx, _ | e⟩ <;> rfl

theorem index_fromZones (p : Provider σ) (zones : List Zone) (ix : Index) (w : World σ) :
    (fromZones p ix zones w).index = ix.addAll (first? p zones w).toList := by
  induction zones generalizing w with
  | nil => rfl
  | cons z rest ih =>
      rw [fromZones, first?]
      rcases (p.clusters z.endpoint).perform w with ⟨e | _ | ⟨c, found⟩, v⟩
      · exact ih _
      · exact ih _
      · exact index_report z c found rest ix v

/-- A step adds to the index what it reports, and nothing else. -/
theorem index_next (p : Provider σ) (s : Search) (ix : Index) (w : World σ) :
    (next p s ix w).index = ix.addAll (upcoming? p s w).toList := by
  cases s with
  | unstarted =>
      rw [next, start, upcoming?]
      rcases p.zones.perform (w.record (note .debug "Exoscale: start search"))
        with ⟨e | _ | ⟨z, rest⟩, v⟩
      · rfl
      · rfl
      · exact index_fromZones p (z :: rest) ix v
  | reporting zone found rest =>
      cases found with
      | nil => exact index_fromZones p rest ix w
      | cons c found => exact index_report zone c found rest ix w
  | ended => rfl

end Search

/-- The states of a store: the reports that were made, the searches that are open, and the index. -/
inductive Reached : List Cluster → List Search → Index → Prop
  | initial : Reached [] [] .empty
  | opened {past : List Cluster} {searches : List Search} {ix : Index}
      (h : Reached past searches ix) : Reached past (.unstarted :: searches) ix
  /-- A search is moved on, whatever the provider answers by now. -/
  | moved {past : List Cluster} {before after : List Search} {s : Search} {ix : Index} {σ : Type}
      (p : Provider σ) (w : World σ) (h : Reached past (before ++ s :: after) ix) :
      Reached (past ++ (Search.upcoming? p s w).toList)
        (before ++ (Search.next p s ix w).search :: after) (Search.next p s ix w).index
  | dropped {past : List Cluster} {before after : List Search} {s : Search} {ix : Index}
      (h : Reached past (before ++ s :: after) ix) : Reached past (before ++ after) ix

variable {past : List Cluster} {searches : List Search} {ix : Index}

theorem Reached.index_eq (h : Reached past searches ix) : ix = Index.empty.addAll past := by
  induction h with
  | initial => rfl
  | opened h ih => exact ih
  | moved p w h ih => rw [Search.index_next, Index.addAll_append, ← ih]
  | dropped h ih => exact ih

theorem Reached.first {σ : Type} (p : Provider σ) (w : World σ) :
    Reached (Search.upcoming? p .unstarted w).toList [(Search.next p .unstarted .empty w).search]
      (Search.next p .unstarted .empty w).index :=
  @Reached.moved [] [] [] .unstarted .empty σ p w (.opened .initial)

theorem Reached.sound (h : Reached past searches ix) : ix.Sound :=
  h.index_eq ▸ Cluster.Index.sound_empty.addAll past

/-- If all reports so far could be reports, whatever the index has entered has a place. -/
theorem Reached.admits (h : Reached past searches ix) (hpast : ∀ c ∈ past, c.IsKeyed)
    (c : Cluster) : ix.Admits c := by
  have hempty : Index.empty.Takes past := (Index.takes_iff Cluster.Index.sound_empty).2
    fun c hc => ⟨hpast c hc, fun id d _ hd => by cases hd⟩
  intro id d _ hd
  rw [h.index_eq, Index.find?_addAll Cluster.Index.sound_empty hempty, Option.or_eq_some_iff] at hd
  rcases hd with hlast | ⟨-, hd⟩
  · exact (hpast d (Index.lastOf_eq_some hlast).1).2
  · cases hd

theorem Reached.takes (h : Reached past searches ix) (hpast : ∀ c ∈ past, c.IsKeyed)
    {cs : List Cluster} (hcs : ∀ c ∈ cs, c.IsKeyed) : ix.Takes cs :=
  (Index.takes_iff h.sound).2 fun c hc => ⟨hcs c hc, h.admits hpast c⟩

end Store
end KubeAtlas
