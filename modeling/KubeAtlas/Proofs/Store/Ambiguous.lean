import Mathlib
import KubeAtlas.Proofs.Kubeconfig.Entries
import KubeAtlas.Proofs.Store.Contained
import KubeAtlas.Proofs.Yaml.Loaded
/-!
# Answers with several clusters

A kubeconfig for several clusters does not say which of them is meant, and is refused. What is
counted is not the entries of the list, though, but the names: the list is made a table first, and
entries of one name are one entry of the table, with the body of the last. So the refusal fails for
a list whose entries all have the same name, which counts as a list of one. `ambiguous_rejected_iff`
says that this is the only way in.
-/

namespace KubeAtlas

namespace Kubeconfig

variable {g : Graph} {top : Entries} {list : Value} {items : List Value} {d : Document}

/-- Entries that are all read under one name. -/
def HaveOneName (g : Graph) (items : List Value) : Prop :=
  ∃ name, ∀ v ∈ items, entryName? g v = some name

/-- A document that was read has one cluster if its entries have one name. -/
theorem length_clusters_le_one_iff (hg : g.Closed) (hlist : field? top "clusters" = some list)
    (hitems : g.items? list = some items) (hne : items ≠ [])
    (hread : Document.ofMapping g top = .ok d) :
    d.clusters.length ≤ 1 ↔ HaveOneName g items := by
  obtain ⟨h, -, hclusters, -⟩ := Document.ofMapping_parts hread
  rw [Part.read_of_items (p := .clusters) hlist hitems hne] at hclusters
  obtain ⟨⟨es, k⟩, hentries, hclusters⟩ := bind_eq_ok_iff.1 hclusters
  have htable : d.clusters = Table.ofList es := (congrArg Prod.fst (Except.ok.inj hclusters)).symm
  obtain ⟨names, hnames, hlabels⟩ :=
    Part.names_of_readEntries hg (Graph.Extends.refl g) (fun v hv => hg.items hitems hv) hentries
  have hes : es ≠ [] := by
    rintro rfl
    rw [List.map_nil, eq_comm, List.map_eq_nil_iff] at hlabels
    rw [hlabels, List.map_nil, List.map_eq_nil_iff] at hnames
    exact hne hnames
  have hone : HaveOneName g items ↔ ∃ name, ∀ m ∈ names, m = name := by
    refine exists_congr fun name => ?_
    have hall : (∀ v ∈ items, entryName? g v = some name) ↔
        ∀ x ∈ items.map (entryName? g), x = some name := by rw [List.forall_mem_map]
    rw [hall, hnames, List.forall_mem_map]
    simp
  rw [htable, Table.length_ofList_le_one_iff hes, hone, exists_key_iff hlabels]

/-- What is read and renamed although its list of clusters has several entries. -/
theorem read_and_renamed_iff {name : String} (hg : g.Closed)
    (hlist : field? top "clusters" = some list) (hitems : g.items? list = some items)
    (hne : items ≠ []) :
    (∃ d', (Document.ofMapping g top >>= fun d => rename d name) = .ok d') ↔
      name ≠ "" ∧ HaveOneName g items ∧ ∃ d, Document.ofMapping g top = .ok d := by
  simp only [bind_eq_ok_iff]
  constructor
  · rintro ⟨d', d, hread, hrename⟩
    obtain ⟨hname, hone⟩ := (rename_eq_ok_iff (Document.ofMapping_eq_ok hread).1).1 ⟨d', hrename⟩
    exact ⟨hname, (length_clusters_le_one_iff hg hlist hitems hne hread).1 hone, d, hread⟩
  · rintro ⟨hname, hone, d, hread⟩
    obtain ⟨d', hrename⟩ := (rename_eq_ok_iff (Document.ofMapping_eq_ok hread).1).2
      ⟨hname, (length_clusters_le_one_iff hg hlist hitems hne hread).2 hone⟩
    exact ⟨d', d, hread, hrename⟩

end Kubeconfig

namespace Store

open Kubeconfig (parse parse_of_entries rename serialize HaveOneName field?)
open Kubeconfig.Document (ofMapping)

variable {write : Writer} {path name : String} {answer : Datum} {bytes : List UInt8}
variable {v list : Value} {g : Graph} {top : Kubeconfig.Entries} {items : List Value}

/-- The fault of the parsing stage is a fault of the form, found in reading or in renaming. -/
theorem materialize_parsing_iff (hdecode : decode answer = .ok bytes) :
    (∃ e, materialize write path name answer =
      .error (.atPath .parsing path (.document (.format e)))) ↔
      ∃ e, (parse bytes >>= fun d => rename d name) = .error (.format e) := by
  rw [materialize_eq, hdecode]
  simp only
  rcases hsteps : (parse bytes >>= fun d => rename d name) with f | renamed
  · cases f with
    | format e => exact iff_of_true ⟨e, rfl⟩ ⟨e, rfl⟩
    | _ => exact iff_of_false (by rintro ⟨_, h⟩; cases h) (by rintro ⟨_, h⟩; cases h)
  · refine iff_of_false ?_ (by rintro ⟨_, h⟩; cases h)
    rintro ⟨e, h⟩
    rcases hwrite : write renamed with f | text
    · simp only [hwrite] at h
      cases f <;> cases h
    · simp only [hwrite] at h
      cases h

/-- **Several clusters are refused** unless all of them have one name, in which case the document is
read as one for a single cluster. A name that cannot be shown is not refused but fails as it is. -/
theorem ambiguous_rejected_iff (hdecode : decode answer = .ok bytes)
    (hload : Yaml.loadBytes bytes = .ok (v, g)) (htop : g.entries? v = some top)
    (hlist : field? top "clusters" = some list) (hitems : g.items? list = some items)
    (hmany : 2 ≤ items.length) :
    (∃ e, materialize write path name answer =
        .error (.atPath .parsing path (.document (.format e)))) ↔
      ¬ (name ≠ "" ∧ HaveOneName g items ∧ ∃ d, ofMapping g top = .ok d) ∧
        ofMapping g top ≠ .error (.fault .number) := by
  have hg := (Yaml.loadBytes_eq_ok hload).1.closed
  have hne : items ≠ [] := List.ne_nil_of_length_pos (Nat.lt_of_lt_of_le Nat.two_pos hmany)
  rw [materialize_parsing_iff hdecode, parse_of_entries hload htop,
    ← Kubeconfig.read_and_renamed_iff hg hlist hitems hne]
  rcases hread : ofMapping g top with f | d
  · have hfailed : ∀ d', (Except.error f >>= fun d => rename d name) ≠ .ok d' := fun d' h => by
      cases h
    rcases Kubeconfig.Document.ofMapping_eq_error hread (fun hshow => hshow.entries htop) with
      ⟨e, rfl⟩ | ⟨rfl, -⟩
    · exact iff_of_true ⟨e, rfl⟩ ⟨fun ⟨d', h⟩ => hfailed d' h, by simp⟩
    · exact iff_of_false (by rintro ⟨_, h⟩; cases h) fun h => h.2 rfl
  · have hform := (Kubeconfig.Document.ofMapping_eq_ok hread).1
    rcases hrename : rename d name with f | d'
    · obtain ⟨e, rfl⟩ := Kubeconfig.rename_eq_error hform hrename
      have hfailed : (Except.ok d >>= fun d => rename d name) = .error (.format e) := hrename
      refine iff_of_true ⟨e, hfailed⟩ ⟨fun ⟨d', h⟩ => ?_, by simp⟩
      rw [hfailed] at h
      cases h
    · have hdone : (Except.ok d >>= fun d => rename d name) = .ok d' := hrename
      refine iff_of_false (fun ⟨e, h⟩ => ?_) fun h => h.1 ⟨d', hdone⟩
      rw [hdone] at h
      cases h

/-! ### Two entries -/

def twoClusters (second : String) : String :=
  "clusters:\n- name: x\n  cluster:\n    server: s\n- name: " ++ second ++
    "\n  cluster:\n    server: t\n"

def twoClusterNodes (second : String) : Yaml.Document where
  nodes := #[⟨.map, .mapping [(1, 2)]⟩, ⟨.str, .scalar "clusters"⟩, ⟨.seq, .sequence [3, 10]⟩,
    ⟨.map, .mapping [(4, 5), (6, 7)]⟩, ⟨.str, .scalar "name"⟩, ⟨.str, .scalar "x"⟩,
    ⟨.str, .scalar "cluster"⟩, ⟨.map, .mapping [(8, 9)]⟩, ⟨.str, .scalar "server"⟩,
    ⟨.str, .scalar "s"⟩, ⟨.map, .mapping [(11, 12), (13, 14)]⟩, ⟨.str, .scalar "name"⟩,
    ⟨.str, .scalar second⟩, ⟨.str, .scalar "cluster"⟩, ⟨.map, .mapping [(15, 16)]⟩,
    ⟨.str, .scalar "server"⟩, ⟨.str, .scalar "t"⟩]
  root := 0

def twoClusterGraph (second : String) : Graph := ⟨#[
  .map [(.str "clusters", .ref 1)],
  .list [.ref 2, .ref 3],
  .map [(.str "name", .str "x"), (.str "cluster", .ref 4)],
  .map [(.str "name", .str second), (.str "cluster", .ref 5)],
  .map [(.str "server", .str "s")],
  .map [(.str "server", .str "t")]]⟩

theorem load_twoClusters {second : String} (hsecond : second ∈ ["x", "y"]) :
    Yaml.loadBytes (Text.Utf8.encode (twoClusters second).toList) =
      .ok (.ref 0, twoClusterGraph second) := by
  have hnodes : ∀ second ∈ ["x", "y"],
      Yaml.checkedBytes (Text.Utf8.encode (twoClusters second).toList) =
        .ok (twoClusters second).toList ∧
      Yaml.Document.read (Yaml.Event.read (Yaml.Token.read (twoClusters second).toList)) =
        .ok (some (twoClusterNodes second)) := by decide +kernel
  obtain ⟨hchars, hread⟩ := hnodes second hsecond
  rw [Yaml.loadBytes_of_nodes hchars hread]
  rcases List.mem_pair.1 hsecond with rfl | rfl <;> cbv

def twoClusterAnswer (second : String) : Datum :=
  answerOf (Text.Utf8.encode (twoClusters second).toList)

theorem entries?_twoClusters (second : String) :
    (twoClusterGraph second).entries? (.ref 0) = some [(.str "clusters", .ref 1)] := rfl

theorem items?_twoClusters (second : String) :
    (twoClusterGraph second).items? (.ref 1) = some [.ref 2, .ref 3] := rfl

theorem ambiguous_rejected_two_names :
    ∃ e, materialize serialize "z/a" "a" (twoClusterAnswer "y") =
      .error (.atPath .parsing "z/a" (.document (.format e))) := by
  have hfirst : Kubeconfig.entryName? (twoClusterGraph "y") (.ref 2) = some "x" := by cbv
  have hsecond : Kubeconfig.entryName? (twoClusterGraph "y") (.ref 3) = some "y" := by cbv
  have hread : ∃ d, ofMapping (twoClusterGraph "y") [(.str "clusters", .ref 1)] = .ok d :=
    ⟨⟨twoClusterGraph "y", [(.str "x", .ref 4), (.str "y", .ref 5)], [], [], .null, [],
      [.str "clusters"]⟩, by cbv⟩
  refine (ambiguous_rejected_iff (decode_answerOf _) (load_twoClusters (by simp))
    (entries?_twoClusters "y") rfl (items?_twoClusters "y") (Nat.le_refl 2)).2 ⟨?_, ?_⟩
  · rintro ⟨-, ⟨name, hname⟩, -⟩
    have hx := hfirst.symm.trans (hname (.ref 2) (by simp))
    have hy := hsecond.symm.trans (hname (.ref 3) (by simp))
    exact absurd (hx.trans hy.symm) (by simp)
  · obtain ⟨d, hd⟩ := hread
    rw [hd]
    simp

/-- Two entries with one name are read as one, and the body of the first is dropped. -/
theorem ambiguous_not_rejected :
    ¬ ∀ (path name : String) (answer : Datum) (bytes : List UInt8) (v list : Value) (g : Graph)
        (top : Kubeconfig.Entries) (items : List Value), decode answer = .ok bytes →
      Yaml.loadBytes bytes = .ok (v, g) → g.entries? v = some top →
      field? top "clusters" = some list → g.items? list = some items → 2 ≤ items.length →
      ∃ e, materialize serialize path name answer =
        .error (.atPath .parsing path (.document (.format e))) := by
  intro hall
  have hdecode : decode (twoClusterAnswer "x") = _ := decode_answerOf _
  have hload : Yaml.loadBytes (Text.Utf8.encode (twoClusters "x").toList) =
    .ok (.ref 0, twoClusterGraph "x") := load_twoClusters (by simp)
  have htop := entries?_twoClusters "x"
  have hread : parse (Text.Utf8.encode (twoClusters "x").toList) =
      .ok ⟨twoClusterGraph "x", [(.str "x", .ref 5)], [], [], .null, [], [.str "clusters"]⟩ := by
    rw [parse_of_entries hload htop]
    cbv
  obtain ⟨e, he⟩ := (materialize_parsing_iff hdecode).1
    (hall "z/a" "a" _ _ _ _ _ _ _ hdecode hload htop rfl (items?_twoClusters "x") (Nat.le_refl 2))
  rw [hread] at he
  cases he

end Store
end KubeAtlas
