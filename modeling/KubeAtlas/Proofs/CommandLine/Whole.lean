import Mathlib
import KubeAtlas.Proofs.CommandLine.Listing
import KubeAtlas.Proofs.Config.Switch
import KubeAtlas.Proofs.Store.Built
import KubeAtlas.Proofs.Store.FixedPoint
import KubeAtlas.Proofs.Yaml.Printable
/-!
# All of a store or nothing of it

A command that cannot build one of its stores asks nobody and writes nothing. A search writes all
paths of a store or none, in the order in which they were found, up to the first store whose zones
cannot be listed. A kubeconfig is asked of one store only, after a whole pass, and is written as it
is served, since a document is written in printable characters. A path has no such form: a style
sequence in it is left out where the output is no terminal, and what is written then leads nowhere.
`commands_whole_iff` says when a search is spared that.
-/

namespace KubeAtlas.CommandLine

open Cluster (Index)
open Store (Outcome)
open Store.Search (answers concluded)

variable {σ : Type} {env : Environment} {now : Int} {files : String → FileState}
variable {provide : Store → Provider σ} {terminal : Bool} {args : List String} {i : Invocation}
variable {s : Store} {stores : List Store} {path : String} {w : World σ}

/-! ### One kubeconfig -/

/-- A kubeconfig that is served is shown as it stands. -/
theorem echo_served {p : Provider σ} {ix : Index} {text : String}
    (h : ((Store.kubeconfig p Kubeconfig.serialize ix path).perform w).1 = .ok text) :
    echo terminal text = text := by
  obtain ⟨c, name, answer, -, -, hmaterialize⟩ := Store.kubeconfig_eq_ok_iff.1 h
  obtain ⟨bytes, d, renamed, -, -, -, hserialize⟩ := Store.materialize_eq_ok_iff.1 hmaterialize
  obtain ⟨top, g, -, hwrite⟩ := Kubeconfig.Document.serialize_eq_ok_iff.1 hserialize
  apply (echo_eq_self_iff terminal text).2
  right
  exact not_hasStyle_of_forall (Yaml.printable_of_write hwrite).not_mem_escape

/-- What a path is served with after a pass with these answers, and the world after that. -/
def servedAfter (p : Provider σ) (script : List Outcome) (path : String) (w : World σ) :
    Except Failure String × World σ :=
  (Store.kubeconfig p Kubeconfig.serialize
    (Index.empty.addAll (script.flatMap Outcome.reports)) path).perform (concluded p w)

/-- How a kubeconfig is shown: after a whole pass, exactly what is served, or nothing. -/
structure ShowsKubeconfig (p : Provider σ) (path : String) (w : World σ)
    (ran : Result × World σ) : Prop where
  unlisted : ∀ e, answers p w = .error e → Went ran "" 1 (concluded p w)
  served : ∀ script text, answers p w = .ok script → (servedAfter p script path w).1 = .ok text →
    Went ran text 0 (servedAfter p script path w).2
  unserved : ∀ script f, answers p w = .ok script → (servedAfter p script path w).1 = .error f →
    Went ran "" 1 (servedAfter p script path w).2

section Answered

variable {script : List Outcome} (hp : (provide s).IsTextual)
  (h : answers (provide s) w = .ok script)
include hp h

theorem kubeconfig_served {text : String} {v : World σ}
    (hserved : servedAfter (provide s) script path w = (.ok text, v)) :
    kubeconfig provide terminal s path w = (⟨echo terminal text, .done⟩, v) := by
  have hpass := hp.discover h
  have hfound := foundPaths_of_answers hp h
  rw [hpass] at hfound
  rw [servedAfter] at hserved
  simp only [kubeconfig, hpass, hfound, hserved]

theorem kubeconfig_unserved {f : Failure} {v : World σ}
    (hserved : servedAfter (provide s) script path w = (.error f, v)) :
    kubeconfig provide terminal s path w = (⟨"", .ofFailure f⟩, v) := by
  have hpass := hp.discover h
  have hfound := foundPaths_of_answers hp h
  rw [hpass] at hfound
  rw [servedAfter] at hserved
  simp only [kubeconfig, hpass, hfound, hserved]

end Answered

theorem kubeconfig_shows (hp : (provide s).IsTextual) :
    ShowsKubeconfig (provide s) path w (kubeconfig provide terminal s path w) := by
  constructor
  · intro e h
    rw [kubeconfig, foundPaths_of_unanswered h, Store.discover_of_unanswered .empty h]
    exact ⟨rfl, Ending.code_ofFailure (.unavailable e), rfl⟩
  · intro script text h hserved
    have hecho : echo terminal text = text := echo_served hserved
    rcases hrun : servedAfter (provide s) script path w with ⟨result, v⟩
    rw [hrun] at hserved
    cases hserved
    rw [kubeconfig_served hp h hrun]
    exact ⟨hecho, rfl, rfl⟩
  · intro script f h hserved
    rcases hrun : servedAfter (provide s) script path w with ⟨result, v⟩
    rw [hrun] at hserved
    cases hserved
    rw [kubeconfig_unserved hp h hrun]
    exact ⟨rfl, Ending.code_ofFailure f, rfl⟩

theorem several_went (h : 1 < stores.length) :
    Went (carryOut provide terminal stores (.kubeconfig path) w) "" 1 w := by
  have hcode : (severalEnding stores).code = 1 := by
    rw [severalEnding]
    split <;> rfl
  match stores with
  | [] => exact absurd h (by simp)
  | [s] => exact absurd h (by simp)
  | s :: t :: rest => exact ⟨rfl, hcode, rfl⟩

/-! ### A whole command -/

theorem run_of_stores (hargs : Invocation.read args = .ok i)
    (hfile : namesDirectory files i.options = false)
    (hstores : storesFor env now files i.options = .ok stores) :
    run env now files provide terminal args w =
      carryOut provide terminal stores i.command (begun i.options w) := by
  simp only [run, hargs, hfile, hstores]
  rfl

theorem run_of_no_stores (hargs : Invocation.read args = .ok i)
    (hfile : namesDirectory files i.options = false) {ending : Ending}
    (hstores : storesFor env now files i.options = .error ending) :
    run env now files provide terminal args w = (⟨"", ending⟩, begun i.options w) := by
  simp only [run, hargs, hfile, hstores]
  rfl

/-- **Commands show all of a store or nothing of it.** Let the configuration be read and have
entries for the command. If one of them cannot be built, nobody is asked and nothing is written.
Otherwise there are stores for all of them. A search goes through the stores before the first one
whose zones cannot be listed; it fails if there is such a store, and leaves the world as the last
request to that store left it. If every name in front can be made text, it writes the paths of these
stores in order, as the output shows them; and it writes them as they stand exactly if no line has a
style sequence that the output leaves out. A kubeconfig is shown by one store after a whole pass, as
it is served, and of several stores nobody is asked. -/
theorem commands_whole_iff (env : Environment) (now : Int) (files : String → FileState)
    (provide : Store → Provider σ) (terminal : Bool) (w : World σ) {entries : List StoreEntry}
    (hargs : Invocation.read args = .ok i) (hfile : namesDirectory files i.options = false)
    (hentries : entriesFor env files i.options = .ok entries) (hne : entries ≠ [])
    (htext : ∀ s, (provide s).IsTextual) :
    let ran := run env now files provide terminal args w
    let w := begun i.options w
    ((∃ e ∈ entries, ∃ f, Store.ofEntry env now e = .error f) → Went ran "" 1 w) ∧
    ∀ stores, List.Forall₂ (fun e s => Store.ofEntry env now e = .ok s) entries stores →
      (i.command = .search →
        let c := course provide stores w
        (c.IsNamed → Went ran (lines (c.shown.map (echo terminal))) c.code c.world) ∧
        (Went ran c.output c.code c.world ↔ c.IsNamed ∧ c.IsPlain terminal)) ∧
      ∀ path, i.command = .kubeconfig path →
        (∀ s, stores = [s] → ShowsKubeconfig (provide s) path w ran) ∧
        (1 < stores.length → Went ran "" 1 w) := by
  constructor
  · rintro ⟨e, he, f, hunbuilt⟩
    obtain ⟨g, hstores⟩ := storesFor_of_unbuilt hentries he hunbuilt
    rw [run_of_no_stores hargs hfile hstores]
    exact ⟨rfl, Ending.code_ofFailure g, rfl⟩
  · intro stores hbuilt
    have hstores := storesFor_of_built hentries hne hbuilt
    rw [run_of_stores hargs hfile hstores]
    constructor
    · intro hcommand
      rw [hcommand]
      exact ⟨search_of_isNamed htext stores _, search_course_iff htext stores _⟩
    · intro path hcommand
      rw [hcommand]
      constructor
      · rintro s rfl
        exact kubeconfig_shows (htext s)
      · intro hseveral
        exact several_went hseveral

/-! ### Two stores -/

/-- A configuration with two entries, of which the first has an identifier. -/
def twoStores : String := "kubeconfigStores:\n- kind: exoscale\n  id: a\n- kind: exoscale\n"

def twoStoresNodes : Yaml.Document where
  nodes := #[⟨.map, .mapping [(1, 2)]⟩, ⟨.str, .scalar "kubeconfigStores"⟩,
    ⟨.seq, .sequence [3, 8]⟩, ⟨.map, .mapping [(4, 5), (6, 7)]⟩, ⟨.str, .scalar "kind"⟩,
    ⟨.str, .scalar "exoscale"⟩, ⟨.str, .scalar "id"⟩, ⟨.str, .scalar "a"⟩,
    ⟨.map, .mapping [(9, 10)]⟩, ⟨.str, .scalar "kind"⟩, ⟨.str, .scalar "exoscale"⟩]
  root := 0

def twoStoresGraph : Graph := ⟨#[
  .map [(.str "kubeconfigStores", .ref 1)],
  .list [.ref 2, .ref 3],
  .map [(.str "kind", .str "exoscale"), (.str "id", .str "a")],
  .map [(.str "kind", .str "exoscale")]]⟩

def twoStoresFiles (_ : String) : FileState := .file (Text.Utf8.encode twoStores.toList)

theorem holds_twoStores : SwitchConfig.Holds (Text.Utf8.encode twoStores.toList) twoStoresGraph
    [(.str "kubeconfigStores", .ref 1)] := by
  have hnodes : Yaml.checkedText (SwitchConfig.unifyLines twoStores.toList) =
        .ok twoStores.toList ∧
      Yaml.Document.read (Yaml.Event.read (Yaml.Token.read twoStores.toList)) =
        .ok (some twoStoresNodes) := by decide +kernel
  have hvalue : twoStoresNodes.value = .ok (.ref 0, twoStoresGraph) := by cbv
  exact .mapping (by decide +kernel) ((Yaml.loadText_of_nodes hnodes.1 hnodes.2).trans hvalue)
    rfl rfl

def entryKnownAs (id : Datum) : StoreEntry := ⟨.str Store.kind, id, .null, .list [], .null⟩

def allSet (_ : String) : Option String := some "k"

def plainStore (e : StoreEntry) : Store :=
  ⟨e, ⟨.str "k", .str "k", Api.stripSlashes Settings.defaultUrl, .float Settings.defaultTimeout,
    false, 0⟩⟩

theorem entriesFor_twoStores :
    entriesFor allSet twoStoresFiles ⟨some "c", none, false, false⟩ =
      .ok [entryKnownAs (.str "a"), entryKnownAs .null] := by
  have hload : SwitchConfig.load "c" (twoStoresFiles "c") = .ok ⟨.str "SwitchConfig",
      .str "v1alpha1", [entryKnownAs (.str "a"), entryKnownAs .null]⟩ := by
    rw [twoStoresFiles, SwitchConfig.load_of_holds holds_twoStores]
    cbv
  rw [entriesFor]
  exact bind_eq_ok_iff.2 ⟨"c", rfl, bind_eq_ok_iff.2 ⟨_, hload, rfl⟩⟩

theorem ofEntry_entryKnownAs (id : Datum) :
    Store.ofEntry allSet 0 (entryKnownAs id) = .ok (plainStore (entryKnownAs id)) := by
  have hconfig : (entryKnownAs id).settings? = some [] := rfl
  apply (Store.ofEntry_eq_ok_iff hconfig).2
  exact ⟨rfl, ⟨_, rfl, rfl⟩, rfl, rfl, ⟨_, rfl, rfl⟩, rfl, rfl⟩

theorem built_twoStores :
    List.Forall₂ (fun e s => Store.ofEntry allSet 0 e = .ok s)
      [entryKnownAs (.str "a"), entryKnownAs .null]
      [plainStore (entryKnownAs (.str "a")), plainStore (entryKnownAs .null)] :=
  .cons (ofEntry_entryKnownAs _) (.cons (ofEntry_entryKnownAs _) .nil)

def oneCluster (name : String) : Provider Unit where
  zones := pure [⟨.str "z", .str "https://z"⟩]
  clusters _ := pure [⟨.str "1", .str name⟩]
  kubeconfig _ _ _ := throw (.outside .timeout)

def silent : Provider Unit where
  zones := throw (.outside .timeout)
  clusters _ := throw (.outside .timeout)
  kubeconfig _ _ _ := throw (.outside .timeout)

theorem isTextual_oneCluster (name : String) : (oneCluster name).IsTextual := by
  constructor
  · intro w zones h z hz
    cases h
    obtain rfl := List.mem_singleton.1 hz
    exact ⟨"z", rfl⟩
  · intro endpoint w found h c hc
    cases h
    obtain rfl := List.mem_singleton.1 hc
    exact ⟨⟨"1", rfl⟩, name, rfl⟩

theorem isTextual_silent : silent.IsTextual := by
  constructor
  · intro w zones h
    cases h
  · intro endpoint w found h
    cases h

theorem course_oneCluster {s : Store} (provide : Store → Provider Unit) (name : String)
    (h : provide s = oneCluster name) (rest : List Store) (w : World Unit) :
    ∃ v, course provide (s :: rest) w = (course provide rest v).after s ["z/" ++ name] := by
  have hanswers : answers (provide s) w =
      .ok [⟨⟨.str "z", .str "https://z"⟩, .ok [⟨.str "1", .str name⟩]⟩] := by
    rw [h]
    rfl
  exact ⟨_, course_answered hanswers⟩

def answersToName (s : Store) : Provider Unit :=
  if s.entry.id.isTruthy then oneCluster "x" else silent

theorem isTextual_answersToName (s : Store) : (answersToName s).IsTextual := by
  rw [answersToName]
  split
  · exact isTextual_oneCluster "x"
  · exact isTextual_silent

def quietWorld : World Unit := ⟨(), .quiet⟩

/-- The first store is searched to its end and the second cannot list its zones: the path of the
first is written and the search fails. No kubeconfig is asked of two stores. -/
theorem commands_whole_two_stores :
    ((run allSet 0 twoStoresFiles answersToName false ["--config", "c", "search"]
          quietWorld).1.output = "a/z/x\n" ∧
        (run allSet 0 twoStoresFiles answersToName false ["--config", "c", "search"]
          quietWorld).1.ending.code = 1) ∧
      Went (run allSet 0 twoStoresFiles answersToName false ["--config", "c", "kubeconfig", "z/x"]
        quietWorld) "" 1 quietWorld := by
  have hwhole (command : Command) (args : List String)
      (hargs : Invocation.read args = .ok ⟨⟨some "c", none, false, false⟩, command⟩) :=
    (commands_whole_iff allSet 0 twoStoresFiles answersToName false quietWorld hargs rfl
      entriesFor_twoStores (by simp) isTextual_answersToName).2 _ built_twoStores
  constructor
  · have hsearch := (hwhole .search ["--config", "c", "search"] (by decide +kernel)).1 rfl
    have hline : (plainStore (entryKnownAs (.str "a"))).entry.shownAs "z/x" = "a/z/x" := by
      decide +kernel
    obtain ⟨v, hcourse⟩ := course_oneCluster (s := plainStore (entryKnownAs (.str "a")))
      answersToName "x" rfl [plainStore (entryKnownAs .null)] quietWorld
    have hsilent : course answersToName [plainStore (entryKnownAs .null)] v = ⟨[], false, _⟩ :=
      course_unanswered (e := .outside .timeout) rfl
    have hbegun : begun ⟨some "c", none, false, false⟩ quietWorld = quietWorld := rfl
    rw [hbegun, hcourse, hsilent] at hsearch
    have hnamed : Course.IsNamed ((⟨[], false, concluded silent v⟩ : Course Unit).after
        (plainStore (entryKnownAs (.str "a"))) ["z/x"]) := by
      apply Course.isNamed_after.2
      exact ⟨fun _ _ _ => rfl, fun f hf => nomatch hf⟩
    have hplain : Course.IsPlain false ((⟨[], false, concluded silent v⟩ : Course Unit).after
        (plainStore (entryKnownAs (.str "a"))) ["z/x"]) := by
      intro line hmem
      obtain rfl : line = "a/z/x" := (List.mem_singleton.1 hmem).trans hline
      exact .inr (not_hasStyle_of_forall (by simp))
    have hwent := hsearch.2.2 ⟨hnamed, hplain⟩
    refine ⟨hwent.output.trans ?_, hwent.code⟩
    show lines [(plainStore (entryKnownAs (.str "a"))).entry.shownAs "z/x"] = _
    rw [hline]
    decide +kernel
  · exact ((hwhole (.kubeconfig "z/x") ["--config", "c", "kubeconfig", "z/x"]
      (by decide +kernel)).2 "z/x" rfl).2 (by decide)

/-- A name can have a style sequence, which is not written. -/
theorem search_not_whole :
    ¬ ∀ (env : Environment) (now : Int) (files : String → FileState)
      (provide : Store → Provider Unit) (args : List String) (i : Invocation)
      (entries : List StoreEntry) (stores : List Store) (w : World Unit),
      Invocation.read args = .ok i → namesDirectory files i.options = false →
      entriesFor env files i.options = .ok entries → entries ≠ [] →
      (∀ s, (provide s).IsTextual) →
      List.Forall₂ (fun e s => Store.ofEntry env now e = .ok s) entries stores →
      i.command = .search →
      (run env now files provide false args w).1.output =
        (course provide stores (begun i.options w)).output := by
  intro hall
  have hargs : Invocation.read ["--config", "c", "search"] =
      .ok ⟨⟨some "c", none, false, false⟩, .search⟩ := by decide +kernel
  have htext (_ : Store) := isTextual_oneCluster "a\x1b[31mb"
  have hwritten := hall allSet 0 twoStoresFiles (fun _ => oneCluster "a\x1b[31mb") _ _ _ _
    quietWorld hargs rfl entriesFor_twoStores (by simp) htext built_twoStores rfl
  rw [run_of_stores hargs rfl
    (storesFor_of_built entriesFor_twoStores (by simp) built_twoStores)] at hwritten
  obtain ⟨v, hcourse⟩ := course_oneCluster (s := plainStore (entryKnownAs (.str "a")))
    (fun _ => oneCluster "a\x1b[31mb") "a\x1b[31mb" rfl [plainStore (entryKnownAs .null)]
    (begun ⟨some "c", none, false, false⟩ quietWorld)
  have hplain := ((search_output_iff htext _ _).1 hwritten).2
  rw [hcourse] at hplain
  have hline : (plainStore (entryKnownAs (.str "a"))).entry.shownAs ("z/" ++ "a\x1b[31mb") =
      "a/z/a\x1b[31mb" := by decide +kernel
  rcases hplain _ List.mem_cons_self with hfalse | hnone
  · cases hfalse
  · rw [hline] at hnone
    exact hnone ⟨['a', '/', 'z', '/', 'a'], ['\x1b', '[', '3', '1', 'm', 'b'], by simp,
      ['3', '1'], 'm', ['b'], rfl, by simp [isStyleMark], by decide⟩

end KubeAtlas.CommandLine
