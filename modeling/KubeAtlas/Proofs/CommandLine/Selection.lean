import KubeAtlas.CommandLine.Run
import KubeAtlas.Proofs.Except
/-!
# The stores a command is about

A command is about the entries of the right kind, with the identifier that was asked for if one was.
All of them are built before anything else is done: either there is a store for each of them, in
order, or the command has failed. The registry has one factory, so an entry of the right kind is
built as a store is.
-/

namespace KubeAtlas.CommandLine

variable {env : Environment} {now : Int} {files : String → FileState} {o : Options}
variable {entries : List StoreEntry} {stores : List Store}

theorem Ending.code_ofFailure (f : Failure) : (Ending.ofFailure f).code = 1 := by
  rw [Ending.ofFailure]
  split <;> rfl

theorem create_eq {e : StoreEntry} (h : e.isOfKind Store.kind = true) :
    (registry env now).create e = Store.ofEntry env now e := by
  have hkind : StoreKind.ofDatum? e.kind = some .exoscale := by
    have hname : e.kind.str? = some Store.kind := by simpa [StoreEntry.isOfKind] using h
    show StoreKind.all.find? _ = _
    rw [hname]
    rfl
  rw [Registry.create, hkind]
  rfl

theorem isOfKind_of_entriesFor (h : entriesFor env files o = .ok entries) :
    ∀ e ∈ entries, e.isOfKind Store.kind = true := by
  obtain ⟨path, -, h⟩ := bind_eq_ok_iff.1 h
  obtain ⟨config, -, h⟩ := bind_eq_ok_iff.1 h
  have hkind : ∀ e ∈ config.storesOfKind Store.kind, e.isOfKind Store.kind = true := by
    intro e he
    exact (List.mem_filter.1 he).2
  intro e he
  cases hid : o.storeId with
  | none =>
      simp only [hid] at h
      cases h
      exact hkind e he
  | some id =>
      simp only [hid] at h
      cases h
      exact hkind e (List.mem_filter.1 he).1

theorem mapM_create (h : entriesFor env files o = .ok entries) :
    entries.mapM (registry env now).create = entries.mapM (Store.ofEntry env now) := by
  have hkind := isOfKind_of_entriesFor h
  clear h
  induction entries with
  | nil => rfl
  | cons e rest ih =>
      obtain ⟨he, hrest⟩ := List.forall_mem_cons.1 hkind
      rw [List.mapM_cons, List.mapM_cons, create_eq he, ih hrest]

theorem storesFor_of_built (h : entriesFor env files o = .ok entries) (hne : entries ≠ [])
    (hbuilt : List.Forall₂ (fun e s => Store.ofEntry env now e = .ok s) entries stores) :
    storesFor env now files o = .ok stores := by
  have hmapM := (mapM_create h).trans (mapM_eq_ok_iff.2 hbuilt)
  cases entries with
  | nil => exact absurd rfl hne
  | cons e rest =>
      simp only [storesFor, h, hmapM]
      rfl

theorem storesFor_of_unbuilt (h : entriesFor env files o = .ok entries) {e : StoreEntry}
    (he : e ∈ entries) {f : Failure} (hunbuilt : Store.ofEntry env now e = .error f) :
    ∃ g, storesFor env now files o = .error (.ofFailure g) := by
  have hfails : ∃ g, entries.mapM (Store.ofEntry env now) = .error g := by
    cases hmapM : entries.mapM (Store.ofEntry env now) with
    | error g => exact ⟨g, rfl⟩
    | ok stores =>
        have hbuilt : List.Forall₂ (fun e s => (∃ s, Store.ofEntry env now e = .ok s) ∧
            Store.ofEntry env now e = .ok s) entries stores :=
          (mapM_eq_ok_iff.1 hmapM).imp fun e s hs => ⟨⟨s, hs⟩, hs⟩
        obtain ⟨s, hs⟩ := ((List.forall₂_and_left _ _).1 hbuilt).1 e he
        cases hunbuilt.symm.trans hs
  obtain ⟨g, hg⟩ := hfails
  rw [← mapM_create h] at hg
  refine ⟨g, ?_⟩
  cases entries with
  | nil => cases he
  | cons first rest =>
      simp only [storesFor, h, hg]
      rfl

end KubeAtlas.CommandLine
