import Mathlib
import KubeAtlas.Config.Switch
import KubeAtlas.Proofs.Config.Entry
import KubeAtlas.Proofs.Yaml.Loaded
/-!
# What comes of a configuration file

A file that is read lists its stores in order, one for each item under the name of the list. One
that cannot be used is reported, unless it fails before there is a value, or at a value that is used
without a look at what it is: a directory, a file that is not text, a scalar that does not fit its
tag, a list that has no items, an entry that escapes. `find_contained_iff` says that these are the
only ways past a report, and that each of them is one.
-/

namespace KubeAtlas.SwitchConfig

open Kubeconfig (field?)

def listKey : String := "kubeconfigStores"

def find (env : Environment) (files : String → FileState) (asked : Option String) :
    Except Failure SwitchConfig := do
  let path ← pathOf env asked
  load path (files path)

/-- What a file has at its top level. A value that counts as absent has nothing. -/
inductive Holds (bytes : List UInt8) (g : Graph) : List (Label × Value) → Prop
  | absent {text : List Char} {v : Value} (htext : Text.Utf8.decode? bytes = some text)
      (hload : Yaml.loadText (unifyLines text) = .ok (v, g)) (hnot : g.isTruthy v = false) :
      Holds bytes g []
  | mapping {text : List Char} {v : Value} {fields : List (Label × Value)}
      (htext : Text.Utf8.decode? bytes = some text)
      (hload : Yaml.loadText (unifyLines text) = .ok (v, g)) (hpresent : g.isTruthy v = true)
      (hfields : g.entries? v = some fields) : Holds bytes g fields

/-- What a configuration fails for without a report about it. -/
inductive Escapes (env : Environment) (files : String → FileState) (asked : Option String) :
    Failure → Prop
  /-- No path is given, and there is no home directory to look in. -/
  | home {f : Failure} (h : pathOf env asked = .error f) : Escapes env files asked f
  | directory {path : String} (hpath : pathOf env asked = .ok path)
      (hfile : files path = .directory) : Escapes env files asked .directory
  | undecodable {path : String} {bytes : List UInt8} (hpath : pathOf env asked = .ok path)
      (hfile : files path = .file bytes) (h : Text.Utf8.decode? bytes = none) :
      Escapes env files asked .undecodable
  | fault {path : String} {bytes : List UInt8} {text : List Char} {fault : Yaml.Fault}
      (hpath : pathOf env asked = .ok path) (hfile : files path = .file bytes)
      (htext : Text.Utf8.decode? bytes = some text)
      (h : Yaml.loadText (unifyLines text) = .error (.fault fault)) :
      Escapes env files asked (.document (.fault fault))
  | list {path : String} {bytes : List UInt8} {g : Graph} {fields : List (Label × Value)}
      {list : Value} (hpath : pathOf env asked = .ok path) (hfile : files path = .file bytes)
      (hholds : Holds bytes g fields) (hlist : field? fields listKey = some list)
      (hpresent : g.isTruthy list = true) (hbare : g.IsBare list) :
      Escapes env files asked (.wrongKind (.notIterable (g.kind list)))
  /-- An entry escapes, and all before it can be read. -/
  | entry {path : String} {bytes : List UInt8} {g : Graph} {fields : List (Label × Value)}
      {before after : List Value} {item : Value} {f : Failure}
      (hpath : pathOf env asked = .ok path) (hfile : files path = .file bytes)
      (hholds : Holds bytes g fields)
      (hitems : g.eachOf? (field? fields listKey) = .ok (before ++ item :: after))
      (hbefore : ∀ v ∈ before, ∃ e, StoreEntry.ofValue g v = .ok e)
      (h : StoreEntry.Escapes g item f) : Escapes env files asked f

variable {env : Environment} {files : String → FileState} {asked : Option String} {path : String}
variable {bytes : List UInt8} {g : Graph} {fields : List (Label × Value)} {f : Failure}
variable {c : SwitchConfig}

theorem load_of_holds (h : Holds bytes g fields) : load path (.file bytes) = ofFields g fields := by
  cases h with
  | absent htext hload hnot =>
      simp only [load, htext, ofText, hload, hnot]
      rfl
  | mapping htext hload hpresent hfields =>
      simp only [load, htext, ofText, hload, hpresent, hfields]
      rfl

theorem load_cases (path : String) (bytes : List UInt8) :
    (∃ g fields, Holds bytes g fields) ∨
      (∃ e, load path (.file bytes) = .error (.configuration e)) ∨
      (Text.Utf8.decode? bytes = none ∧ load path (.file bytes) = .error .undecodable) ∨
      ∃ text fault, Text.Utf8.decode? bytes = some text ∧
        Yaml.loadText (unifyLines text) = .error (.fault fault) ∧
        load path (.file bytes) = .error (.document (.fault fault)) := by
  rcases htext : Text.Utf8.decode? bytes with _ | text
  · refine .inr (.inr (.inl ⟨rfl, ?_⟩))
    simp only [load, htext]
    rfl
  rcases hload : Yaml.loadText (unifyLines text) with (e | fault) | ⟨v, g⟩
  · refine .inr (.inl ⟨.unparsable path e, ?_⟩)
    simp only [load, htext, ofText, hload]
    rfl
  · refine .inr (.inr (.inr ⟨text, fault, rfl, hload, ?_⟩))
    simp only [load, htext, ofText, hload]
    rfl
  cases hpresent : g.isTruthy v with
  | false => exact .inl ⟨g, [], .absent htext hload hpresent⟩
  | true =>
      cases hfields : g.entries? v with
      | some fields => exact .inl ⟨g, fields, .mapping htext hload hpresent hfields⟩
      | none =>
          refine .inr (.inl ⟨.fileNotMapping path, ?_⟩)
          simp only [load, htext, ofText, hload, hpresent, hfields]
          rfl

theorem ofFields_eq_ok (h : ofFields g fields = .ok c) :
    ∃ items, g.eachOf? (field? fields listKey) = .ok items ∧
      List.Forall₂ (fun item e => StoreEntry.ofValue g item = .ok e) items c.stores := by
  obtain ⟨items, hitems, h⟩ := bind_eq_ok_iff.1 h
  obtain ⟨stores, hstores, h⟩ := bind_eq_ok_iff.1 h
  cases h
  exact ⟨items, hitems, mapM_eq_ok_iff.1 hstores⟩

theorem ofFields_eq_error_iff :
    ofFields g fields = .error f ↔ g.eachOf? (field? fields listKey) = .error f ∨
      ∃ before item after, g.eachOf? (field? fields listKey) = .ok (before ++ item :: after) ∧
        (∀ v ∈ before, ∃ e, StoreEntry.ofValue g v = .ok e) ∧
        StoreEntry.ofValue g item = .error f := by
  rw [ofFields, bind_eq_error_iff]
  refine or_congr_right ⟨?_, ?_⟩
  · rintro ⟨items, hitems, h⟩
    rcases bind_eq_error_iff.1 h with hstores | ⟨stores, -, h⟩
    · obtain ⟨before, item, after, rfl, hbefore, hitem⟩ := mapM_eq_error_iff.1 hstores
      exact ⟨before, item, after, hitems, hbefore, hitem⟩
    · cases h
  · rintro ⟨before, item, after, hitems, hbefore, hitem⟩
    exact ⟨_, hitems, bind_eq_error_iff.2 (.inl
      (mapM_eq_error_iff.2 ⟨before, item, after, rfl, hbefore, hitem⟩))⟩

theorem escapes_of_error (h : find env files asked = .error f) (hnot : ¬ f.IsConfiguration) :
    Escapes env files asked f := by
  rcases bind_eq_error_iff.1 h with hpath | ⟨path, hpath, h⟩
  · exact .home hpath
  rcases hfile : files path with _ | _ | bytes
  · rw [hfile] at h
    cases h
    exact absurd (Failure.isConfiguration_configuration _) hnot
  · rw [hfile] at h
    cases h
    exact .directory hpath hfile
  rw [hfile] at h
  rcases load_cases path bytes with ⟨g, fields, hholds⟩ | ⟨e, he⟩ | ⟨htext, he⟩ |
    ⟨text, fault, htext, hload, he⟩
  · rw [load_of_holds hholds] at h
    rcases ofFields_eq_error_iff.1 h with hlist | ⟨before, item, after, hitems, hbefore, hitem⟩
    · obtain ⟨list, hfound, hpresent, hbare, rfl⟩ := Graph.eachOf?_eq_error_iff.1 hlist
      exact .list hpath hfile hholds hfound hpresent hbare
    · exact .entry hpath hfile hholds hitems hbefore
        (StoreEntry.ofValue_eq_error_iff.1 ⟨hitem, hnot⟩)
  · cases he.symm.trans h
    exact absurd (Failure.isConfiguration_configuration _) hnot
  · cases he.symm.trans h
    exact .undecodable hpath hfile htext
  · cases he.symm.trans h
    exact .fault hpath hfile htext hload

theorem pathOf_eq_error (h : pathOf env asked = .error f) : ¬ f.IsConfiguration := by
  rintro ⟨e, rfl⟩
  rw [pathOf] at h
  split at h
  · cases h
  · rw [defaultPath] at h
    split at h
    · cases h
    · rcases bind_eq_error_iff.1 h with hhome | ⟨directory, -, h⟩
      · rw [home] at hhome
        split at hhome <;> cases hhome
      · cases h

theorem error_of_escapes (h : Escapes env files asked f) :
    find env files asked = .error f ∧ ¬ f.IsConfiguration := by
  cases h with
  | home h => exact ⟨bind_eq_error_iff.2 (.inl h), pathOf_eq_error h⟩
  | @directory path hpath hfile =>
      refine ⟨bind_eq_error_iff.2 (.inr ⟨path, hpath, ?_⟩), by rintro ⟨e, he⟩; cases he⟩
      rw [hfile]
      rfl
  | @undecodable path bytes hpath hfile htext =>
      refine ⟨bind_eq_error_iff.2 (.inr ⟨path, hpath, ?_⟩), by rintro ⟨e, he⟩; cases he⟩
      simp only [hfile, load, htext]
      rfl
  | @fault path bytes text fault hpath hfile htext hload =>
      refine ⟨bind_eq_error_iff.2 (.inr ⟨path, hpath, ?_⟩), by rintro ⟨e, he⟩; cases he⟩
      simp only [hfile, load, htext, ofText, hload]
      rfl
  | @list path bytes g fields list hpath hfile hholds hlist hpresent hbare =>
      refine ⟨bind_eq_error_iff.2 (.inr ⟨path, hpath, ?_⟩), by rintro ⟨e, he⟩; cases he⟩
      rw [hfile, load_of_holds hholds]
      exact ofFields_eq_error_iff.2 (.inl
        (Graph.eachOf?_eq_error_iff.2 ⟨list, hlist, hpresent, hbare, rfl⟩))
  | @entry path bytes g fields before after item f hpath hfile hholds hitems hbefore hitem =>
      obtain ⟨hitem, hnot⟩ := StoreEntry.ofValue_eq_error_iff.2 hitem
      refine ⟨bind_eq_error_iff.2 (.inr ⟨path, hpath, ?_⟩), hnot⟩
      rw [hfile, load_of_holds hholds]
      exact ofFields_eq_error_iff.2 (.inr ⟨before, item, after, hitems, hbefore, hitem⟩)

/-- **A configuration is read or reported on**, unless it escapes. If it is read, it has one store
for each item of the list, in order. A failure that is no report about the configuration comes out
exactly when the configuration escapes with it. -/
theorem find_contained_iff (env : Environment) (files : String → FileState)
    (asked : Option String) :
    (∀ c, find env files asked = .ok c → ∃ path bytes g fields items,
      pathOf env asked = .ok path ∧ files path = .file bytes ∧ Holds bytes g fields ∧
      g.eachOf? (field? fields listKey) = .ok items ∧
      List.Forall₂ (fun item e => StoreEntry.ofValue g item = .ok e) items c.stores) ∧
    ∀ f, find env files asked = .error f ∧ ¬ f.IsConfiguration ↔ Escapes env files asked f := by
  refine ⟨fun c h => ?_, fun f => ⟨fun h => escapes_of_error h.1 h.2, error_of_escapes⟩⟩
  obtain ⟨path, hpath, h⟩ := bind_eq_ok_iff.1 h
  rcases hfile : files path with _ | _ | bytes
  · rw [hfile] at h
    cases h
  · rw [hfile] at h
    cases h
  rw [hfile] at h
  rcases load_cases path bytes with ⟨g, fields, hholds⟩ | ⟨e, he⟩ | ⟨-, he⟩ | ⟨_, _, -, -, he⟩
  · rw [load_of_holds hholds] at h
    obtain ⟨items, hitems, hstores⟩ := ofFields_eq_ok h
    exact ⟨path, bytes, g, fields, items, hpath, hfile, hholds, hitems, hstores⟩
  · cases he.symm.trans h
  · cases he.symm.trans h
  · cases he.symm.trans h

/-! ### A file with two entries -/

/-- A file with two entries, the second of which has something in the place of its paths. -/
def twoEntries (paths : String) : String :=
  "kubeconfigStores:\n- kind: a\n- kind: b\n  paths: " ++ paths ++ "\n"

def twoEntriesNodes (paths : Yaml.Node) : Yaml.Document where
  nodes := #[⟨.map, .mapping [(1, 2)]⟩, ⟨.str, .scalar "kubeconfigStores"⟩,
    ⟨.seq, .sequence [3, 6]⟩, ⟨.map, .mapping [(4, 5)]⟩, ⟨.str, .scalar "kind"⟩,
    ⟨.str, .scalar "a"⟩, ⟨.map, .mapping [(7, 8), (9, 10)]⟩, ⟨.str, .scalar "kind"⟩,
    ⟨.str, .scalar "b"⟩, ⟨.str, .scalar "paths"⟩, paths]
  root := 0

def twoEntriesGraph (paths : Value) : Graph := ⟨#[
  .map [(.str "kubeconfigStores", .ref 1)],
  .list [.ref 2, .ref 3],
  .map [(.str "kind", .str "a")],
  .map [(.str "kind", .str "b"), (.str "paths", paths)]]⟩

def twoEntriesFile (paths : String) : FileState :=
  .file (Text.Utf8.encode (twoEntries paths).toList)

theorem holds_twoEntries {paths : String} (node : Yaml.Node) {v : Value}
    (htext : Text.Utf8.decode? (Text.Utf8.encode (twoEntries paths).toList) =
      some (twoEntries paths).toList)
    (hnodes : Yaml.checkedText (unifyLines (twoEntries paths).toList) =
        .ok (twoEntries paths).toList ∧
      Yaml.Document.read (Yaml.Event.read (Yaml.Token.read (twoEntries paths).toList)) =
        .ok (some (twoEntriesNodes node)))
    (hvalue : (twoEntriesNodes node).value = .ok (.ref 0, twoEntriesGraph v)) :
    Holds (Text.Utf8.encode (twoEntries paths).toList) (twoEntriesGraph v)
      [(.str "kubeconfigStores", .ref 1)] :=
  .mapping htext ((Yaml.loadText_of_nodes hnodes.1 hnodes.2).trans hvalue) rfl rfl

theorem holds_emptyPaths : Holds (Text.Utf8.encode (twoEntries "''").toList)
    (twoEntriesGraph (.str "")) [(.str "kubeconfigStores", .ref 1)] :=
  holds_twoEntries ⟨.str, .scalar ""⟩ (by decide +kernel) (by decide +kernel) (by cbv)

theorem holds_numberedPaths : Holds (Text.Utf8.encode (twoEntries "5").toList)
    (twoEntriesGraph (.leaf (.scalar (.int 5)))) [(.str "kubeconfigStores", .ref 1)] :=
  holds_twoEntries ⟨.int, .scalar "5"⟩ (by decide +kernel) (by decide +kernel) (by cbv)

/-- Empty paths count as absent, so both entries are read. A number in their place escapes. -/
theorem find_contained_two_entries :
    (∃ c bytes g fields items,
      find (fun _ => none) (fun _ => twoEntriesFile "''") (some "switch-config.yaml") = .ok c ∧
      twoEntriesFile "''" = .file bytes ∧ Holds bytes g fields ∧
      g.eachOf? (field? fields listKey) = .ok items ∧ c.stores.length = 2 ∧
      List.Forall₂ (fun item e => StoreEntry.ofValue g item = .ok e) items c.stores) ∧
    find (fun _ => none) (fun _ => twoEntriesFile "5") (some "switch-config.yaml") =
      .error (.wrongKind (.notIterable .int)) := by
  constructor
  · have hload : ∃ c, load "switch-config.yaml" (twoEntriesFile "''") = .ok c ∧
        c.stores.length = 2 := by
      rw [twoEntriesFile, load_of_holds holds_emptyPaths]
      exact ⟨⟨.str "SwitchConfig", .str "v1alpha1",
        [⟨.str "a", .null, .null, .list [], .null⟩, ⟨.str "b", .null, .null, .list [], .null⟩]⟩,
        by cbv, rfl⟩
    obtain ⟨c, hload, hlength⟩ := hload
    obtain ⟨path, bytes, g, fields, items, -, hfile, hholds, hitems, hstores⟩ :=
      (find_contained_iff (fun _ => none) (fun _ => twoEntriesFile "''")
        (some "switch-config.yaml")).1 c hload
    exact ⟨c, bytes, g, fields, items, hload, hfile, hholds, hitems, hlength, hstores⟩
  · let g := twoEntriesGraph (.leaf (.scalar (.int 5)))
    have hfirst : ∃ e, StoreEntry.ofValue g (.ref 2) = .ok e :=
      ⟨⟨.str "a", .null, .null, .list [], .null⟩, by cbv⟩
    have hfields : g.entries? (.ref 3) =
        some [(.str "kind", .str "b"), (.str "paths", .leaf (.scalar (.int 5)))] := rfl
    have hconfig : StoreEntry.configOf g (g.unfold (.str "b"))
        (field? [(.str "kind", .str "b"), (.str "paths", .leaf (.scalar (.int 5)))] "config") =
          .ok .null := by cbv
    have hsecond : StoreEntry.Escapes g (.ref 3) (.wrongKind (.notIterable .int)) :=
      .paths hfields rfl (by cbv) hconfig rfl rfl (.scalar (by simp) (by simp))
    have hitems : g.eachOf? (field? [(.str "kubeconfigStores", .ref 1)] listKey) =
        .ok ([.ref 2] ++ .ref 3 :: []) := rfl
    exact (((find_contained_iff (fun _ => none) (fun _ => twoEntriesFile "5")
      (some "switch-config.yaml")).2 _).2 (.entry rfl rfl holds_numberedPaths hitems
        (by simpa using hfirst) hsecond)).1

theorem find_not_contained :
    ¬ ∀ (env : Environment) (files : String → FileState) (asked : Option String) (f : Failure),
      find env files asked = .error f → f.IsConfiguration := by
  intro hall
  have hload : load "switch-config.yaml" (twoEntriesFile "5") =
      .error (.wrongKind (.notIterable .int)) := by
    rw [twoEntriesFile, load_of_holds holds_numberedPaths]
    cbv
  obtain ⟨e, he⟩ := hall (fun _ => none) (fun _ => twoEntriesFile "5") (some "switch-config.yaml")
    _ hload
  cases he

end KubeAtlas.SwitchConfig
