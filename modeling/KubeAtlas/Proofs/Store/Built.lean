import KubeAtlas.Proofs.Api.Query
import KubeAtlas.Proofs.Config.Entry
import KubeAtlas.Proofs.Number.Binary64
import KubeAtlas.Store.Basic
import Mathlib.Data.List.DropRight
/-!
# Stores that can be used

A store is built from an entry whose timeout is a number, whose credentials are there, and whose
address is text (`Builds`). What is wrong with an entry is reported, but for an integer beyond the
range of real numbers and for an address of another kind (`Unbuilt`). What is there is not looked at
any further. So a store that was built can send its first request only if its secret is text, its
key has a text, and its address can be read, which nobody asks before it tries
(`built_usable_iff`).
-/

namespace KubeAtlas

namespace Settings

variable {env : Environment} {fields : List (Datum × Datum)} {name var : String}

/-- The timeout of some settings. -/
def timeoutIn (fields : List (Datum × Datum)) : Except Failure Binary64 :=
  match (Datum.map fields).get? "requestTimeout" with
  | some d => timeoutOf d
  | none => pure defaultTimeout

/-- A credential: what the settings have under a name, or else what a variable of the environment
has. Neither may be empty. -/
def credential? (env : Environment) (fields : List (Datum × Datum)) (name var : String) :
    Option Datum :=
  (present? fields name).or (((env var).filter (· ≠ "")).map Datum.str)

def addressIn (fields : List (Datum × Datum)) : Datum :=
  (present? fields "apiURL").getD (.str defaultUrl)

/-- What stands for a credential, an empty text if nothing does. -/
def standing (env : Environment) (fields : List (Datum × Datum)) (name var : String) : Datum :=
  (present? fields name).getD (.str ((env var).getD ""))

theorem ofFields_eq : ofFields env fields = timeoutIn fields >>= fun timeout =>
    pure ⟨standing env fields "exoscaleAPIKey" keyVariable,
      standing env fields "exoscaleSecretKey" secretVariable, addressIn fields, timeout⟩ := rfl

theorem credential?_eq : credential? env fields name var =
    if (standing env fields name var).isTruthy then some (standing env fields name var)
    else none := by
  rw [credential?, standing]
  cases hpresent : present? fields name with
  | some d =>
      obtain ⟨-, htruthy⟩ := Option.filter_eq_some_iff.1 hpresent
      exact (if_pos htruthy).symm
  | none =>
      cases henv : env var with
      | none => rfl
      | some text =>
          rw [Option.filter_some]
          by_cases hempty : text = ""
          · subst hempty
            rfl
          · have htruthy : (Datum.str text).isTruthy = true := by
              simp [Datum.isTruthy, Scalar.isTruthy, hempty]
            simp [hempty, htruthy]

theorem isConfiguration_of_numberIn {text : List Char} {shown : String} {f : Failure}
    (h : numberIn text shown = .error f) : f.IsConfiguration := by
  rw [numberIn] at h
  split at h
  · cases h
  · exact ⟨_, (Except.error.inj h).symm⟩

theorem timeoutOf_int_eq_error_iff {n : Int} {f : Failure} :
    timeoutOf (.int n) = .error f ↔ f = .overflow ∧ Binary64.threshold ≤ n.natAbs := by
  rw [← Binary64.ofInt?_eq_none_iff]
  simp only [timeoutOf]
  split
  · next x hx => exact iff_of_false (fun h => nomatch h) (by simp [hx])
  · next hx =>
      refine ⟨fun h => ⟨(Except.error.inj h).symm, hx⟩, ?_⟩
      rintro ⟨rfl, -⟩
      rfl

/-- An integer beyond the range of real numbers is the only timeout that is not reported. -/
theorem timeoutOf_eq_error_iff {d : Datum} {f : Failure} :
    timeoutOf d = .error f ∧ ¬ f.IsConfiguration ↔
      f = .overflow ∧ ∃ n, d = .int n ∧ Binary64.threshold ≤ n.natAbs := by
  constructor
  · rintro ⟨h, hf⟩
    have hreported : ∀ e, f ≠ invalid e := fun e he => hf ⟨_, he⟩
    cases d with
    | scalar s =>
        cases s with
        | int n =>
            obtain ⟨rfl, hrange⟩ := timeoutOf_int_eq_error_iff.1 h
            exact ⟨rfl, n, rfl, hrange⟩
        | str text => exact absurd (isConfiguration_of_numberIn h) hf
        | bytes b =>
            simp only [timeoutOf] at h
            split at h
            · exact absurd (isConfiguration_of_numberIn h) hf
            · exact absurd (Except.error.inj h).symm (hreported _)
        | bool b => cases h
        | float x => cases h
        | _ => exact absurd (Except.error.inj h).symm (hreported _)
    | _ => exact absurd (Except.error.inj h).symm (hreported _)
  · rintro ⟨rfl, n, rfl, hrange⟩
    exact ⟨timeoutOf_int_eq_error_iff.2 ⟨rfl, hrange⟩, fun ⟨e, h⟩ => nomatch h⟩

theorem timeoutIn_eq_error_iff {f : Failure} :
    timeoutIn fields = .error f ∧ ¬ f.IsConfiguration ↔
      f = .overflow ∧ ∃ n, (Datum.map fields).get? "requestTimeout" = some (.int n) ∧
        Binary64.threshold ≤ n.natAbs := by
  rw [timeoutIn]
  cases (Datum.map fields).get? "requestTimeout" with
  | none => exact iff_of_false (fun h => nomatch h.1) (by simp)
  | some d => simp only [timeoutOf_eq_error_iff, Option.some.injEq]

end Settings

/-- The settings of an entry, none if they are neither a mapping nor null. -/
def StoreEntry.settings? (e : StoreEntry) : Option (List (Datum × Datum)) :=
  match e.config with
  | .scalar .null => some []
  | .map fields => some fields
  | _ => none

namespace Store

open Settings (credential? timeoutIn addressIn keyVariable secretVariable)
open Api (Client Script Unsignable endpointUrl stripSlashes)

variable {env : Environment} {now : Int} {e : StoreEntry} {fields : List (Datum × Datum)}

theorem ofEntry_eq (hconfig : e.settings? = some fields) : ofEntry env now e = (do
    let timeout ← timeoutIn fields
    match credential? env fields "exoscaleAPIKey" keyVariable with
    | none => throw (.configuration .missingKey)
    | some key =>
      match credential? env fields "exoscaleSecretKey" secretVariable with
      | none => throw (.configuration .missingSecret)
      | some secret => do
        let url ← endpointUrl (addressIn fields)
        pure ⟨e, ⟨key, secret, url, .float timeout, false, now⟩⟩) := by
  have hsettings : ofEntry env now e = (do
      let settings ← Settings.ofFields env fields
      settings.validate
      pure ⟨e, ← Client.build settings.key settings.secret settings.url (.float settings.timeout)
        false now⟩) := by
    rw [ofEntry]
    rw [StoreEntry.settings?] at hconfig
    split at hconfig
    · next h =>
        cases hconfig
        rw [h]
        rfl
    · next h =>
        cases hconfig
        rw [h]
        rfl
    · cases hconfig
  rw [hsettings, Settings.ofFields_eq, Settings.credential?_eq, Settings.credential?_eq]
  generalize Settings.standing env fields "exoscaleAPIKey" keyVariable = key
  generalize Settings.standing env fields "exoscaleSecretKey" secretVariable = secret
  rw [bind_assoc]
  refine bind_congr fun timeout => ?_
  rw [pure_bind, Settings.validate]
  simp only
  cases hkey : key.isTruthy with
  | false => rfl
  | true =>
      cases hsecret : secret.isTruthy with
      | false => rfl
      | true =>
          rw [Client.build]
          cases endpointUrl (addressIn fields) <;> rfl

/-! ### What is built -/

/-- A store that an entry with the given settings describes. -/
structure Builds (env : Environment) (now : Int) (e : StoreEntry) (fields : List (Datum × Datum))
    (s : Store) : Prop where
  entry : s.entry = e
  timeout : ∃ x, timeoutIn fields = .ok x ∧ s.client.timeout = .float x
  key : credential? env fields "exoscaleAPIKey" keyVariable = some s.client.key
  secret : credential? env fields "exoscaleSecretKey" secretVariable = some s.client.secret
  address : ∃ text, addressIn fields = .str text ∧ s.client.url = stripSlashes text
  shared : s.client.shared = false
  now : s.client.now = now

/-- A value that is no address: slashes are taken off text only. -/
inductive NoAddress : Datum → Failure → Prop
  | bytes (b : List UInt8) : NoAddress (.scalar (.bytes b)) (.wrongKind .textInBytes)
  | other {d : Datum} (htext : ∀ text, d ≠ .str text) (hbytes : ∀ b, d ≠ .scalar (.bytes b)) :
      NoAddress d (.wrongKind (.lacks d.kind "rstrip"))

/-- A failure that keeps a store from being built though it is no report about the
configuration. -/
inductive Unbuilt (env : Environment) (fields : List (Datum × Datum)) : Failure → Prop
  | overflow {n : Int} (h : (Datum.map fields).get? "requestTimeout" = some (.int n))
      (hrange : Binary64.threshold ≤ n.natAbs) : Unbuilt env fields .overflow
  /-- The timeout and the credentials are there, and the address is no text. -/
  | address {x : Binary64} {key secret : Datum} {f : Failure} (htimeout : timeoutIn fields = .ok x)
      (hkey : credential? env fields "exoscaleAPIKey" keyVariable = some key)
      (hsecret : credential? env fields "exoscaleSecretKey" secretVariable = some secret)
      (h : NoAddress (addressIn fields) f) : Unbuilt env fields f

theorem endpointUrl_eq_error_iff {d : Datum} {f : Failure} :
    endpointUrl d = .error f ↔ NoAddress d f := by
  constructor
  · intro h
    cases d with
    | scalar s =>
        cases s with
        | str text => cases h
        | bytes b => cases h; exact .bytes b
        | _ => cases h; exact .other (by simp) (by simp)
    | _ => cases h; exact .other (by simp) (by simp)
  · intro h
    cases h with
    | bytes b => rfl
    | other htext hbytes =>
        cases d with
        | scalar s =>
            cases s with
            | str text => exact absurd rfl (htext text)
            | bytes b => exact absurd rfl (hbytes b)
            | _ => rfl
        | _ => rfl

theorem NoAddress.not_isConfiguration {d : Datum} {f : Failure} (h : NoAddress d f) :
    ¬ f.IsConfiguration := by
  rintro ⟨e, rfl⟩
  cases h

theorem endpointUrl_eq_ok_iff {d : Datum} {url : String} :
    endpointUrl d = .ok url ↔ ∃ text, d = .str text ∧ url = stripSlashes text := by
  constructor
  · intro h
    cases d with
    | scalar s =>
        cases s with
        | str text => exact ⟨text, rfl, (Except.ok.inj h).symm⟩
        | _ => cases h
    | _ => cases h
  · rintro ⟨text, rfl, rfl⟩
    rfl

theorem ofEntry_eq_ok_iff (hconfig : e.settings? = some fields) {s : Store} :
    ofEntry env now e = .ok s ↔ Builds env now e fields s := by
  rw [ofEntry_eq hconfig]
  constructor
  · intro h
    obtain ⟨x, htimeout, h⟩ := bind_eq_ok_iff.1 h
    split at h
    · cases h
    · next key hkey =>
        split at h
        · cases h
        · next secret hsecret =>
            obtain ⟨url, haddress, h⟩ := bind_eq_ok_iff.1 h
            cases h
            obtain ⟨text, hd, rfl⟩ := endpointUrl_eq_ok_iff.1 haddress
            exact ⟨rfl, ⟨x, htimeout, rfl⟩, hkey, hsecret, ⟨text, hd, rfl⟩, rfl, rfl⟩
  · obtain ⟨entry, key, secret, url, timeout, shared, time⟩ := s
    rintro ⟨rfl, ⟨x, htimeout, rfl⟩, hkey, hsecret, ⟨text, hd, rfl⟩, rfl, rfl⟩
    rw [htimeout, hkey, hsecret, hd]
    rfl

theorem ofEntry_eq_error_iff (hconfig : e.settings? = some fields) {f : Failure} :
    ofEntry env now e = .error f ∧ ¬ f.IsConfiguration ↔ Unbuilt env fields f := by
  rw [ofEntry_eq hconfig]
  constructor
  · rintro ⟨h, hf⟩
    rcases bind_eq_error_iff.1 h with htimeout | ⟨x, htimeout, h⟩
    · obtain ⟨rfl, n, hn, hrange⟩ := Settings.timeoutIn_eq_error_iff.1 ⟨htimeout, hf⟩
      exact .overflow hn hrange
    · split at h
      · exact absurd ⟨_, (Except.error.inj h).symm⟩ hf
      · next key hkey =>
          split at h
          · exact absurd ⟨_, (Except.error.inj h).symm⟩ hf
          · next secret hsecret =>
              rcases bind_eq_error_iff.1 h with haddress | ⟨url, -, h⟩
              · exact .address htimeout hkey hsecret (endpointUrl_eq_error_iff.1 haddress)
              · cases h
  · intro h
    cases h with
    | overflow hn hrange =>
        obtain ⟨htimeout, hf⟩ := Settings.timeoutIn_eq_error_iff.2 ⟨rfl, _, hn, hrange⟩
        exact ⟨bind_eq_error_iff.2 (.inl htimeout), hf⟩
    | address htimeout hkey hsecret haddress =>
        refine ⟨?_, haddress.not_isConfiguration⟩
        rw [htimeout, hkey, hsecret]
        exact bind_eq_error_iff.2 (.inr ⟨_, rfl, bind_eq_error_iff.2
          (.inl (endpointUrl_eq_error_iff.2 haddress))⟩)

/-! ### What is sent -/

theorem stripSlashes_stripSlashes (text : String) :
    stripSlashes (stripSlashes text) = stripSlashes text := by
  rw [stripSlashes, stripSlashes, String.toList_ofList, List.reverse_reverse,
    List.dropWhile_idempotent]

theorem url_zones {c : Client} {text : String} (h : c.url = stripSlashes text) :
    (Api.Query.zones c).url = c.url ++ "/zone" := by
  rw [Api.Query.url, Api.Query.zones, h, stripSlashes_stripSlashes]

section Zones

variable {c : Client} {text : String} (h : c.url = stripSlashes text) {script : Script}
include h

theorem perform_zones_unsignable {f : Failure} (hf : Unsignable c (c.url ++ "/zone") f)
    (w : World Api.Wire) : (c.zones script.transport).perform w = (.error f, w) :=
  Api.Query.perform_of_unsignable .zones (url_zones h ▸ hf) w

theorem sent_zones (hsigned : ∀ f, ¬ Unsignable c (c.url ++ "/zone") f) (w : World Api.Wire) :
    ∃ request, request.method = "GET" ∧ request.url = c.url ++ "/zone" ∧
      ((c.zones script.transport).perform w).2.outside.sent = w.outside.sent ++ [request] := by
  rw [← url_zones h] at hsigned ⊢
  have hcall : Api.Query.IsCall c script.transport (Api.Query.zones c) _ := .zones
  obtain ⟨request, hprepare, hmethod, hrequest⟩ :=
    Api.exists_prepare (Api.Query.zones c).method hsigned hcall.isWritten
  exact ⟨request, hmethod, hrequest, Api.Query.sent_of_prepared hcall hprepare w⟩

end Zones

/-- **When a store can be used.** An entry whose settings are null or a mapping gives a store with
what the settings and the environment have, a value in the settings before a variable, or it fails
with a report about the configuration, or in one of the ways that are not reported. The store sends
its first request, for the zones, exactly if the request can be signed; if not, asking for the zones
does nothing and fails. -/
theorem built_usable_iff (env : Environment) (now : Int) (hconfig : e.settings? = some fields) :
    (∀ f, ofEntry env now e = .error f ∧ ¬ f.IsConfiguration ↔ Unbuilt env fields f) ∧
      ∀ s, (ofEntry env now e = .ok s ↔ Builds env now e fields s) ∧
        (ofEntry env now e = .ok s → ∀ (script : Script) (w : World Api.Wire),
          let asked := ((s.provider script.transport).zones).perform w
          (∀ f, Unsignable s.client (s.client.url ++ "/zone") f → asked = (.error f, w)) ∧
          ((∀ f, ¬ Unsignable s.client (s.client.url ++ "/zone") f) →
            ∃ request, request.method = "GET" ∧ request.url = s.client.url ++ "/zone" ∧
              asked.2.outside.sent = w.outside.sent ++ [request])) := by
  refine ⟨fun f => ofEntry_eq_error_iff hconfig, fun s => ⟨ofEntry_eq_ok_iff hconfig, ?_⟩⟩
  intro h script w
  obtain ⟨text, -, haddress⟩ := ((ofEntry_eq_ok_iff hconfig).1 h).address
  have hzones : (s.provider script.transport).zones = s.client.zones script.transport := rfl
  rw [hzones]
  exact ⟨fun f hf => perform_zones_unsignable haddress hf w,
    fun hsigned => sent_zones haddress hsigned w⟩

/-! ### Three entries -/

def entryWith (rest : List (Datum × Datum)) : StoreEntry :=
  ⟨.str kind, .null, .null, .list [], .map ((.str "exoscaleAPIKey", .str "k") :: rest)⟩

def secretOnly (name : String) : Option String :=
  if name = secretVariable then some "s" else none

def usual (secret : Datum) (rest : List (Datum × Datum)) : Store :=
  ⟨entryWith rest,
    ⟨.str "k", secret, stripSlashes Settings.defaultUrl, .float Settings.defaultTimeout, false, 0⟩⟩

theorem builds_usual_secret : Builds secretOnly 0 (entryWith []) [(.str "exoscaleAPIKey", .str "k")]
    (usual (.str "s") []) :=
  ⟨rfl, ⟨_, rfl, rfl⟩, rfl, rfl, ⟨_, rfl, rfl⟩, rfl, rfl⟩

/-- With a secret from the environment the store is built, and asking for the zones sends the
request for them. -/
theorem built_usable_secret :
    ∃ s, ofEntry secretOnly 0 (entryWith []) = .ok s ∧ s.client.secret = .str "s" ∧
      (((s.provider (Script.always (.error (.outside .timeout))).transport).zones).perform
        Api.blank).2.outside.sent.map (·.url) =
          ["https://api-ch-gva-2.exoscale.com/v2/zone"] := by
  have hconfig : (entryWith []).settings? = some [(.str "exoscaleAPIKey", .str "k")] := rfl
  obtain ⟨hbuilds, hasked⟩ := (built_usable_iff secretOnly 0 hconfig).2
    (usual (.str "s") [])
  have hbuilt := hbuilds.2 builds_usual_secret
  refine ⟨_, hbuilt, rfl, ?_⟩
  have htextual : (usual (.str "s") []).client.IsTextual := ⟨⟨"k", rfl⟩, "s", rfl⟩
  obtain ⟨request, -, hurl, hsent⟩ :=
    (hasked hbuilt (Script.always (.error (.outside .timeout))) Api.blank).2 fun f hf => by
      obtain ⟨e, hread, -⟩ := htextual.unsignable_iff.1 hf
      have hread' : Url.Address.read ((usual (.str "s") []).client.url ++ "/zone") =
          .ok ⟨"/v2/zone", []⟩ := by decide +kernel
      cases hread.symm.trans hread'
  rw [hsent, List.map_append, List.map_singleton, hurl]
  decide +kernel

/-- An integer that is no real number is no report about the configuration, and a secret that is a
number makes a store that sends nothing. -/
theorem built_not_usable :
    (∃ f, ofEntry secretOnly 0 (entryWith [(.str "requestTimeout", .int (10 ^ 400))]) = .error f ∧
        ¬ f.IsConfiguration) ∧
      ∃ s f, ofEntry secretOnly 0 (entryWith [(.str "exoscaleSecretKey", .int 5)]) = .ok s ∧
        ((s.provider (Script.always (.ok ⟨200, ""⟩)).transport).zones).perform Api.blank =
          (.error f, Api.blank) := by
  constructor
  · have hrange : Binary64.ofInt? (10 ^ 400) = none := by decide +kernel
    exact ⟨_, (ofEntry_eq_error_iff rfl).2
      (.overflow rfl ((Binary64.ofInt?_eq_none_iff _).1 hrange))⟩
  · refine ⟨usual (.int 5) [(.str "exoscaleSecretKey", .int 5)],
      .wrongKind (.lacks .int "encode"), (ofEntry_eq_ok_iff rfl).2 ⟨rfl, ⟨_, rfl, rfl⟩, rfl, rfl,
        ⟨_, rfl, rfl⟩, rfl, rfl⟩, ?_⟩
    have hread : Url.Address.read ((usual (.int 5) []).client.url ++ "/zone") =
        .ok ⟨"/v2/zone", []⟩ := by decide +kernel
    exact perform_zones_unsignable rfl (.secret hread (by simp [usual])) Api.blank

end Store
end KubeAtlas
