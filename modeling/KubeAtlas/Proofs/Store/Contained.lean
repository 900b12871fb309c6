import KubeAtlas.Proofs.Kubeconfig.Repoint
import KubeAtlas.Proofs.Kubeconfig.Writing
import KubeAtlas.Proofs.Store.Served
import KubeAtlas.Proofs.Text.Base64
/-!
# Failures of a path

Whatever the provider does, a path is served or fails in one of six stages, and the failure says in
which one and names the path. There is one exception. A stage answers for a document that has not
the form it should have, but not for a scalar that does not fit its tag, nor for an integer that is
too long to be shown or written: such a failure comes out as it is. `Escapes` lists the three places
where that happens, and nothing else escapes.
-/

namespace KubeAtlas

def Failure.IsOfStage (path : String) (f : Failure) : Prop :=
  ∃ fault detail cause, f = .path fault path detail cause ∧ fault ≠ .general

theorem Failure.isOfStage_atPath {fault : PathFault} (hfault : fault ≠ .general) (path : String)
    (cause : Failure) : (Failure.atPath fault path cause).IsOfStage path :=
  ⟨fault, _, _, rfl, hfault⟩

namespace Store

open Cluster (Index)
open Kubeconfig (parse rename serialize)

variable {σ : Type}

/-- A kubeconfig with something in it that no stage answers for. -/
inductive Escapes (bytes : List UInt8) (name : String) : Yaml.Fault → Prop
  | read {fault : Yaml.Fault} (h : Yaml.loadBytes bytes = .error (.fault fault)) :
      Escapes bytes name fault
  /-- Where a name is expected stands something with an integer too long to be shown. -/
  | shown {v : Value} {g : Graph} (hload : Yaml.loadBytes bytes = .ok (v, g))
      (h : parse bytes = .error (.fault .number)) : Escapes bytes name .number
  | written {d renamed : Kubeconfig.Document} (hparse : parse bytes = .ok d)
      (hrename : rename d name = .ok renamed) (h : serialize renamed = .error (.fault .number)) :
      Escapes bytes name .number

theorem Escapes.cause {bytes : List UInt8} {name : String} {fault : Yaml.Fault}
    (h : Escapes bytes name fault) :
    Yaml.loadBytes bytes = .error (.fault fault) ∨
      ∃ v g, Yaml.loadBytes bytes = .ok (v, g) ∧ ¬ g.IsShowable := by
  cases h with
  | read h => exact .inl h
  | shown hload h =>
      refine .inr ⟨_, _, hload, fun hg => ?_⟩
      rcases Kubeconfig.parse_eq_error h with ⟨fault, hfault, -⟩ | ⟨e, he⟩ | ⟨-, hnot⟩
      · rw [hload] at hfault
        cases hfault
      · cases he
      · refine hnot fun v g hload' => ?_
        obtain ⟨rfl, rfl⟩ := Prod.mk.inj (Except.ok.inj (hload.symm.trans hload'))
        exact hg
  | written hparse hrename h =>
      obtain ⟨hform, v, g, hload, hlabels⟩ := Kubeconfig.parse_eq_ok hparse
      obtain ⟨hform, hlabels'⟩ := hform.rename hrename
      refine .inr ⟨v, g, hload, fun hg => ?_⟩
      rcases Kubeconfig.serialize_eq_error hform h with ⟨e, he⟩ | ⟨-, hnot⟩
      · cases he
      · exact hnot (hlabels' _ Label.isShowable_str (hlabels _ (Graph.isShowable_iff.1 hg)))

/-! ### The stages -/

theorem locate_eq_error_cases {ix : Index} {path : String} {f : Failure}
    (h : locate ix path = .error f) :
    f = .path .malformed path none none ∨ f = .path .notFound path none none := by
  rw [locate] at h
  rcases bind_eq_error_iff.1 h with hsplit | ⟨⟨zone, name⟩, -, h⟩
  · exact .inl (Cluster.splitPath_eq_error hsplit)
  · simp only at h
    split at h
    · cases h
    · exact .inr (Except.error.inj h).symm

theorem locate_eq_error {ix : Index} {path : String} {f : Failure}
    (h : locate ix path = .error f) : f.IsOfStage path := by
  rcases locate_eq_error_cases h with hf | hf
  · exact ⟨_, _, _, hf, by decide⟩
  · exact ⟨_, _, _, hf, by decide⟩

def answerOf (bytes : List UInt8) : Datum := .str (String.ofList (Text.Base64.encode bytes))

theorem decode_answerOf (bytes : List UInt8) : decode (answerOf bytes) = .ok bytes := by
  rw [answerOf, decode, String.toList_ofList, Text.Base64.squeeze_encode,
    Text.Base64.decode_encode]
  rfl

theorem materialize_eq (write : Writer) (path name : String) (answer : Datum) :
    materialize write path name answer = match decode answer with
      | .error e => .error (.atPath .decoding path e)
      | .ok bytes => match parse bytes >>= fun d => rename d name with
        | .error f => .error (stageFailure .parsing path f)
        | .ok renamed => match write renamed with
          | .error f => .error (stageFailure .serialization path f)
          | .ok text => .ok text := by
  rw [materialize]
  rcases decode answer with e | bytes
  · rfl
  · simp only [pure_bind]
    rcases parse bytes >>= fun d => rename d name with f | renamed
    · rfl
    · simp only [pure_bind]
      rcases write renamed with f | text <;> rfl

theorem isOfStage_format {fault : PathFault} (hfault : fault ≠ .general) (path : String)
    {f : Kubeconfig.Failure} (hf : ∃ e, f = .format e) :
    (stageFailure fault path f).IsOfStage path := by
  obtain ⟨e, rfl⟩ := hf
  exact Failure.isOfStage_atPath hfault path _

theorem materialize_of_escapes {path name : String} {answer : Datum} {bytes : List UInt8}
    {fault : Yaml.Fault} (hdecode : decode answer = .ok bytes) (h : Escapes bytes name fault) :
    materialize serialize path name answer = .error (.document (.fault fault)) := by
  simp only [materialize_eq, hdecode]
  cases h with
  | read h =>
      have hparse : parse bytes = .error (.fault fault) := by rw [parse, h]; rfl
      rw [bind_eq_error_iff.2 (.inl hparse)]
      rfl
  | shown hload h =>
      rw [bind_eq_error_iff.2 (.inl h)]
      rfl
  | written hparse hrename h =>
      have hrenamed : (parse bytes >>= fun d => rename d name) = .ok _ :=
        bind_eq_ok_iff.2 ⟨_, hparse, hrename⟩
      simp only [hrenamed, h]
      rfl

theorem format_or_escapes {bytes : List UInt8} {f : Kubeconfig.Failure} (name : String)
    (h : parse bytes = .error f) :
    (∃ e, f = .format e) ∨ ∃ fault, f = .fault fault ∧ Escapes bytes name fault := by
  rcases Kubeconfig.parse_eq_error h with ⟨fault, hload, rfl⟩ | hformat | ⟨rfl, -⟩
  · exact .inr ⟨fault, rfl, .read hload⟩
  · exact .inl hformat
  · rcases hload : Yaml.loadBytes bytes with (e | fault) | ⟨v, g⟩
    · rw [parse, hload] at h
      cases h
    · rw [parse, hload] at h
      cases h
      exact .inr ⟨_, rfl, .read hload⟩
    · exact .inr ⟨_, rfl, .shown hload h⟩

theorem materialize_eq_error {path name : String} {answer : Datum} {f : Failure}
    (h : materialize serialize path name answer = .error f) :
    f.IsOfStage path ∨ ∃ bytes fault, decode answer = .ok bytes ∧ Escapes bytes name fault ∧
      f = .document (.fault fault) := by
  rw [materialize_eq] at h
  split at h
  · cases h
    exact .inl (Failure.isOfStage_atPath (by decide) path _)
  · next bytes hdecode =>
      split at h
      · next cause hcause =>
          cases h
          rcases bind_eq_error_iff.1 hcause with hparse | ⟨d, hparse, hrename⟩
          · rcases format_or_escapes name hparse with hformat | ⟨fault, rfl, hescapes⟩
            · exact .inl (isOfStage_format (by decide) path hformat)
            · exact .inr ⟨bytes, fault, hdecode, hescapes, rfl⟩
          · exact .inl (isOfStage_format (by decide) path
              (Kubeconfig.rename_eq_error (Kubeconfig.parse_eq_ok hparse).1 hrename))
      · next renamed hrenamed =>
          obtain ⟨d, hparse, hrename⟩ := bind_eq_ok_iff.1 hrenamed
          obtain ⟨hform, -⟩ := (Kubeconfig.parse_eq_ok hparse).1.rename hrename
          split at h
          · next cause hcause =>
              cases h
              rcases Kubeconfig.serialize_eq_error hform hcause with hformat | ⟨rfl, -⟩
              · exact .inl (isOfStage_format (by decide) path hformat)
              · exact .inr ⟨bytes, _, hdecode, .written hparse hrename hcause, rfl⟩
          · cases h

/-! ### Serving a path -/

theorem kubeconfig_escapes_iff {p : Provider σ} {ix : Index} {path : String} {w : World σ}
    {fault : Yaml.Fault} :
    ((kubeconfig p serialize ix path).perform w).1 = .error (.document (.fault fault)) ↔
      ∃ c name answer bytes, locate ix path = .ok (c, name) ∧
        ((p.kubeconfig c.endpoint c.id fullGrant).perform w).1 = .ok answer ∧
        decode answer = .ok bytes ∧ Escapes bytes name fault := by
  rw [perform_kubeconfig]
  constructor
  · intro h
    rcases hlocate : locate ix path with e | ⟨c, name⟩
    · simp only [hlocate] at h
      obtain ⟨_, _, _, hstage, -⟩ := locate_eq_error hlocate
      cases hstage.symm.trans (Except.error.inj h)
    · simp only [hlocate] at h
      rcases hanswer : (p.kubeconfig c.endpoint c.id fullGrant).perform w with ⟨e | answer, v⟩
      · rw [hanswer] at h
        cases h
      · rw [hanswer] at h
        rcases materialize_eq_error h with ⟨_, _, _, hstage, -⟩ |
          ⟨bytes, _, hdecode, hescapes, hsame⟩
        · cases hstage
        · cases hsame
          exact ⟨c, name, answer, bytes, rfl, by rw [hanswer], hdecode, hescapes⟩
  · rintro ⟨c, name, answer, bytes, hlocate, hanswer, hdecode, hescapes⟩
    rw [hlocate]
    rcases hrun : (p.kubeconfig c.endpoint c.id fullGrant).perform w with ⟨e | found, v⟩
    · rw [hrun] at hanswer
      cases hanswer
    · rw [hrun] at hanswer
      cases hanswer
      simp only [hrun]
      exact materialize_of_escapes hdecode hescapes

theorem kubeconfig_eq_error {p : Provider σ} {ix : Index} {path : String} {w : World σ}
    {f : Failure} (h : ((kubeconfig p serialize ix path).perform w).1 = .error f) :
    f.IsOfStage path ∨ ∃ fault, f = .document (.fault fault) := by
  rw [perform_kubeconfig] at h
  split at h
  · next e hlocate => exact .inl (Except.error.inj h ▸ locate_eq_error hlocate)
  · split at h
    · cases h
      exact .inl (Failure.isOfStage_atPath (by decide) path _)
    · rcases materialize_eq_error h with hstage | ⟨_, fault, -, -, rfl⟩
      · exact .inl hstage
      · exact .inr ⟨fault, rfl⟩

/-- **Failures of a path name the path and the stage**, unless the answer has something that no
stage answers for. Then, and only then, the failure of the document comes out as it is; and that
takes a scalar that does not fit its tag, or an integer too long to be shown or written. -/
theorem kubeconfig_contained_iff (p : Provider σ) (ix : Index) (path : String) (w : World σ) :
    (∀ f, ((kubeconfig p serialize ix path).perform w).1 = .error f →
      f.IsOfStage path ∨ ∃ fault, f = .document (.fault fault)) ∧
    ((∀ f, ((kubeconfig p serialize ix path).perform w).1 = .error f → f.IsOfStage path) ↔
      ∀ c name answer bytes fault, locate ix path = .ok (c, name) →
        ((p.kubeconfig c.endpoint c.id fullGrant).perform w).1 = .ok answer →
        decode answer = .ok bytes → ¬ Escapes bytes name fault) ∧
    ∀ bytes name fault, Escapes bytes name fault →
      Yaml.loadBytes bytes = .error (.fault fault) ∨
        ∃ v g, Yaml.loadBytes bytes = .ok (v, g) ∧ ¬ g.IsShowable := by
  refine ⟨fun f => kubeconfig_eq_error, ⟨fun hall => ?_, fun hnone f h => ?_⟩,
    fun bytes name fault => Escapes.cause⟩
  · intro c name answer bytes fault hlocate hanswer hdecode hescapes
    obtain ⟨_, _, _, hstage, -⟩ := hall _ (kubeconfig_escapes_iff.2
      ⟨c, name, answer, bytes, hlocate, hanswer, hdecode, hescapes⟩)
    cases hstage
  · rcases kubeconfig_eq_error h with hstage | ⟨fault, rfl⟩
    · exact hstage
    · obtain ⟨c, name, answer, bytes, hlocate, hanswer, hdecode, hescapes⟩ :=
        kubeconfig_escapes_iff.1 h
      exact absurd hescapes (hnone c name answer bytes fault hlocate hanswer hdecode)

/-- The text `!!int abc`, which says of a word that it is an integer. -/
def misTagged : List UInt8 := [33, 33, 105, 110, 116, 32, 97, 98, 99]

def misTagging : Provider Unit :=
  { oneZone [⟨.str "1", .str "a"⟩] with kubeconfig := fun _ _ _ => pure (.str "ISFpbnQgYWJj") }

/-- Serving a known path can fail without a word about the path. -/
theorem kubeconfig_not_contained :
    ¬ ∀ (p : Provider Unit) (past : List Cluster) (searches : List Search) (ix : Index),
      Reached past searches ix → ∀ (path : String) (w : World Unit) (f : Failure),
        ((kubeconfig p serialize ix path).perform w).1 = .error f → f.IsOfStage path := by
  intro hall
  have hreached := Reached.first misTagging ⟨(), .quiet⟩
  have hlocate : locate (Search.next misTagging .unstarted .empty ⟨(), .quiet⟩).index "z/a" =
      .ok (⟨.str "1", .str "a", .str "z", .str "https://z"⟩, "a") := rfl
  have hload : Yaml.loadBytes misTagged = .error (.fault .number) :=
    eq_error_of_failure? (by decide +kernel)
  have hescapes := kubeconfig_escapes_iff (p := misTagging) (w := ⟨(), .quiet⟩).2
    ⟨_, _, _, misTagged, hlocate, rfl, rfl, .read hload⟩
  obtain ⟨_, _, _, hstage, -⟩ := hall _ _ _ _ hreached "z/a" _ _ hescapes
  cases hstage

end Store
end KubeAtlas
