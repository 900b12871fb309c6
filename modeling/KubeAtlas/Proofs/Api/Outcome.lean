import KubeAtlas.Proofs.Api.Query
import KubeAtlas.Proofs.Datum
/-!
# How a call ends

The client has an error of its own for what goes wrong, and does not always use it. It leaves an
address that cannot be read, a timeout, an integer that is too long, and a list that is none or
holds something other than an object to their own failures. `Strays` lists these cases, and nothing
else strays (`failures_own_iff`).
-/

namespace KubeAtlas

def Failure.IsApi (f : Failure) : Prop := ∃ e, f = .api e

namespace Datum

def IsObject (d : Datum) : Prop := ∃ entries, d = .map entries

/-- A value that can be gone through. Text and mappings can, as well as lists. -/
def HasItems : Datum → Prop
  | .list _ | .tuple _ | .set _ | .map _ | .scalar (.str _) | .scalar (.bytes _) => True
  | _ => False

end Datum

namespace Api

variable {σ α : Type}

/-! ### Reading an answer -/

inductive Misshapen (members : List (Datum × Datum)) (name : String) : Failure → Prop
  | notItems {list : Datum} (h : (Datum.map members).get? name = some list)
      (hlist : ¬ list.HasItems) : Misshapen members name (.wrongKind (.notIterable list.kind))
  | notObject {list item : Datum} {before after : List Datum}
      (h : (Datum.map members).get? name = some list)
      (hitems : Client.itemsOf list = .ok (before ++ item :: after))
      (hbefore : ∀ d ∈ before, d.IsObject) (hitem : ¬ item.IsObject) :
      Misshapen members name (.wrongKind (.lacks item.kind "get"))

theorem Misshapen.not_isApi {members : List (Datum × Datum)} {name : String} {f : Failure}
    (h : Misshapen members name f) : ¬ f.IsApi := by
  rintro ⟨e, rfl⟩
  cases h

theorem not_misshapen_nil (name : String) {f : Failure} : ¬ Misshapen [] name f := by
  intro h
  cases h with
  | notItems h => cases h
  | notObject h => cases h

namespace Client

variable {d : Datum} {f : Failure} {members : List (Datum × Datum)} {name first second : String}

theorem itemsOf_eq_error_iff :
    itemsOf d = .error f ↔ ¬ d.HasItems ∧ f = .wrongKind (.notIterable d.kind) := by
  have hnone : ∀ k, (throw (.wrongKind (.notIterable k)) : Except Failure (List Datum)) = .error f ↔
      f = .wrongKind (.notIterable k) :=
    fun k => ⟨fun h => (Except.error.inj h).symm, fun h => h ▸ rfl⟩
  have hsome : ∀ items : List Datum, ¬ (pure items : Except Failure (List Datum)) = .error f :=
    fun items h => nomatch h
  cases d with
  | scalar s => cases s <;> simp [itemsOf, Datum.HasItems, hnone, hsome]
  | _ => simp [itemsOf, Datum.HasItems, hnone, hsome]

theorem twoMembers_eq_error_iff : twoMembers first second d = .error f ↔
    ¬ d.IsObject ∧ f = .wrongKind (.lacks d.kind "get") := by
  cases d with
  | map entries =>
      refine iff_of_false (fun h => ?_) fun h => h.1 ⟨entries, rfl⟩
      rw [twoMembers] at h
      split at h <;> cases h
  | _ =>
      refine ⟨fun h => ⟨?_, (Except.error.inj h).symm⟩, fun h => h.2 ▸ rfl⟩
      rintro ⟨entries, hmap⟩
      cases hmap

theorem exists_twoMembers_iff :
    (∃ found, twoMembers first second d = .ok found) ↔ d.IsObject := by
  constructor
  · rintro ⟨found, h⟩
    by_contra hd
    rw [twoMembers_eq_error_iff.2 ⟨hd, rfl⟩] at h
    cases h
  · rintro ⟨entries, rfl⟩
    rw [twoMembers]
    split
    · exact ⟨_, rfl⟩
    · exact ⟨_, rfl⟩

/-- Two members of every item can be listed unless the list is misshapen. -/
theorem listMembers_eq_error_iff :
    listMembers members name first second = .error f ↔ Misshapen members name f := by
  rw [listMembers]
  cases hlist : (Datum.map members).get? name with
  | none =>
      refine iff_of_false (fun h => ?_) fun h => ?_
      · cases h
      · cases h with
        | notItems h => rw [hlist] at h; cases h
        | notObject h => rw [hlist] at h; cases h
  | some list =>
      constructor
      · intro h
        rcases bind_eq_error_iff.1 h with hitems | ⟨items, hitems, h⟩
        · obtain ⟨hnot, rfl⟩ := itemsOf_eq_error_iff.1 hitems
          exact .notItems hlist hnot
        · rcases bind_eq_error_iff.1 h with hpairs | ⟨pairs, -, h⟩
          · obtain ⟨before, item, after, rfl, hbefore, hitem⟩ := mapM_eq_error_iff.1 hpairs
            obtain ⟨hnot, rfl⟩ := twoMembers_eq_error_iff.1 hitem
            exact .notObject hlist hitems
              (fun d hd => exists_twoMembers_iff.1 (hbefore d hd)) hnot
          · cases h
      · intro h
        cases h with
        | notItems h hnot =>
            cases hlist.symm.trans h
            exact bind_eq_error_iff.2 (.inl (itemsOf_eq_error_iff.2 ⟨hnot, rfl⟩))
        | notObject h hitems hbefore hitem =>
            cases hlist.symm.trans h
            refine bind_eq_error_iff.2 (.inr ⟨_, hitems, bind_eq_error_iff.2 (.inl ?_)⟩)
            exact mapM_eq_error_iff.2 ⟨_, _, _, rfl,
              fun d hd => exists_twoMembers_iff.2 (hbefore d hd),
              twoMembers_eq_error_iff.2 ⟨hitem, rfl⟩⟩

end Client

/-- A JSON text with an integer that is too long to be read. -/
def HasLongInteger (body : String) (e : Json.Error) : Prop :=
  Json.read body = .error e ∧ e.isMalformed = false

/-- The words of a refusal: the message in the body if there is one, and the body otherwise. -/
inductive Tells (body : String) : String → Prop
  | message {members : List (Datum × Datum)} {d : Datum}
      (hread : Json.read body = .ok (.map members))
      (h : (Datum.map members).get? "message" = some d) : Tells body d.text
  | body (h : ∀ members, Json.read body = .ok (.map members) →
      (Datum.map members).get? "message" = none) : Tells body body

namespace Client

variable {body url : String} {r : Response} {f : Failure}

theorem errorText_cases (body : String) :
    (∃ m, Tells body m ∧ errorText body = .ok m ∧ ∀ e, ¬ HasLongInteger body e) ∨
      ∃ e, HasLongInteger body e ∧ errorText body = .error (outOfRange e) := by
  rw [errorText]
  cases hread : Json.read body with
  | error e =>
      have hbody : Tells body body := .body (by simp [hread])
      cases hlong : e.isMalformed with
      | true =>
          refine .inl ⟨body, hbody, by simp [hlong, pure, Except.pure], fun e' h => ?_⟩
          obtain ⟨hread', hlong'⟩ := h
          cases hread.symm.trans hread'
          rw [hlong] at hlong'
          cases hlong'
      | false =>
          exact .inr ⟨e, ⟨hread, hlong⟩, by simp [hlong, throw, throwThe, MonadExceptOf.throw]⟩
  | ok d =>
      have hshort : ∀ e, ¬ HasLongInteger body e := by
        rintro e ⟨hread', -⟩
        cases hread.symm.trans hread'
      cases d with
      | map members =>
          cases hmessage : (Datum.map members).get? "message" with
          | some d =>
              refine .inl ⟨d.text, .message hread hmessage, ?_, hshort⟩
              simp only [hmessage]
              rfl
          | none =>
              refine .inl ⟨body, .body fun others hothers => ?_, ?_, hshort⟩
              · cases hread.symm.trans hothers
                exact hmessage
              · simp only [hmessage]
                rfl
      | _ =>
          refine .inl ⟨body, .body fun others hothers => ?_, rfl, hshort⟩
          cases hread.symm.trans hothers

theorem interpret_refused (hstatus : 400 ≤ r.status) {m : String}
    (hm : errorText r.body = .ok m) :
    interpret url r = .error (.api (.refused r.status m)) := by
  rw [interpret, if_pos hstatus, hm]
  rfl

theorem interpret_long {e : Json.Error} (h : HasLongInteger r.body e) :
    interpret url r = .error (outOfRange e) := by
  obtain ⟨hread, hlong⟩ := h
  by_cases hstatus : 400 ≤ r.status
  · rw [interpret, if_pos hstatus, errorText, hread]
    simp [hlong, bind, Except.bind, throw, throwThe, MonadExceptOf.throw]
  · have hbody : r.body.isEmpty = false := by
      by_contra hempty
      rw [Bool.not_eq_false, String.isEmpty_iff] at hempty
      rw [hempty] at hread
      cases hread
      cases hlong
    rw [interpret, if_neg hstatus, hbody, hread]
    simp [hlong, throw, throwThe, MonadExceptOf.throw]

theorem interpret_eq_ok_iff {members : List (Datum × Datum)} : interpret url r = .ok members ↔
    r.status < 400 ∧
      (r.body = "" ∧ members = [] ∨ Json.read r.body = .ok (.map members)) := by
  constructor
  · intro h
    have hstatus : r.status < 400 := by
      by_contra hhigh
      rw [interpret, if_pos (by omega)] at h
      rcases errorText_cases r.body with ⟨m, -, hm, -⟩ | ⟨e, -, he⟩
      · rw [hm] at h
        cases h
      · rw [he] at h
        cases h
    rw [interpret, if_neg (by omega)] at h
    split at h
    · next hempty =>
        cases h
        exact ⟨hstatus, .inl ⟨String.isEmpty_iff.1 hempty, rfl⟩⟩
    · split at h
      · cases h
      · next hread =>
          cases h
          exact ⟨hstatus, .inr hread⟩
      · cases h
  · rintro ⟨hstatus, ⟨hempty, rfl⟩ | hread⟩
    · rw [interpret, if_neg (by omega), hempty]
      rfl
    · exact interpret_of_read hstatus hread

/-- An answer is of no use to a call because of an error of the interface, or an integer in it. -/
theorem interpret_eq_error (h : interpret url r = .error f) :
    f.IsApi ∨ ∃ e, HasLongInteger r.body e ∧ f = outOfRange e := by
  rcases errorText_cases r.body with ⟨m, -, hm, hshort⟩ | ⟨e, hlong, -⟩
  · by_cases hstatus : 400 ≤ r.status
    · rw [interpret_refused hstatus hm] at h
      exact .inl ⟨_, (Except.error.inj h).symm⟩
    · rw [interpret, if_neg hstatus] at h
      split at h
      · cases h
      · split at h
        · next e hread =>
            have hmalformed : e.isMalformed = true := by
              by_contra hlong
              exact hshort e ⟨hread, by simpa using hlong⟩
            rw [if_pos hmalformed] at h
            exact .inl ⟨_, (Except.error.inj h).symm⟩
        · cases h
        · exact .inl ⟨_, (Except.error.inj h).symm⟩
  · rw [interpret_long hlong] at h
    exact .inr ⟨e, hlong, (Except.error.inj h).symm⟩

end Client

/-- A transport that opens connections, and whose requests are answered, lost or timed out. -/
structure Transport.IsOrdinary (t : Transport σ) : Prop where
  opens : t.Opens
  send : ∀ r w f, ((t.send r).perform w).1 = .error f →
    (∃ detail, f = .outside (.connection detail)) ∨ f = .outside .timeout

namespace Query

open Client (listMembers)

variable {c : Client} {t : Transport σ} {q : Query α} {a : Action σ α} {w : World σ}

theorem map_eq_error_iff {β γ : Type} {r : Except Failure β} {f : β → γ} {e : Failure} :
    r.map f = .error e ↔ r = .error e := by
  cases r <;> simp [Except.map]

theorem read_listed_iff {β : Type} {members : List (Datum × Datum)} {name first second : String}
    {f : Failure} (g : List (Datum × Datum) → β) :
    (listMembers members name first second).map g = .error f ↔ Misshapen members name f :=
  map_eq_error_iff.trans Client.listMembers_eq_error_iff

/-- The members of an answer are of no use if the list is misshapen or there is no kubeconfig. -/
theorem IsCall.read_eq_error (h : IsCall c t q a) {members : List (Datum × Datum)} {f : Failure}
    (hread : q.read members = .error f) :
    (∃ name, q.list = some name ∧ Misshapen members name f) ∨
      ∃ id, f = .api (.noKubeconfig id) := by
  cases h with
  | zones => exact .inl ⟨"zones", rfl, (read_listed_iff _).1 hread⟩
  | clusters endpoint => exact .inl ⟨"sks-clusters", rfl, (read_listed_iff _).1 hread⟩
  | kubeconfig endpoint id hg =>
      simp only [Query.kubeconfig] at hread
      split at hread
      · cases hread
      · exact .inr ⟨id, (Except.error.inj hread).symm⟩

theorem IsCall.read_of_misshapen (h : IsCall c t q a) {members : List (Datum × Datum)}
    {f : Failure} {name : String} (hlist : q.list = some name) (hshape : Misshapen members name f) :
    q.read members = .error f := by
  cases h with
  | zones =>
      cases hlist
      exact (read_listed_iff _).2 hshape
  | clusters endpoint =>
      cases hlist
      exact (read_listed_iff _).2 hshape
  | kubeconfig endpoint id hg => cases hlist

/-! ### What strays -/

/-- A failure that a call ends with though it is no error of the interface. -/
inductive Strays (q : Query α) (c : Client) (t : Transport σ) (w : World σ) : Failure → Prop
  | address {e : Url.Error} (h : Url.Address.read q.url = .error e) : Strays q c t w (.address e)
  | timeout (h : q.Meets c t w (.error (.outside .timeout))) : Strays q c t w (.outside .timeout)
  | longInteger {r : Response} {e : Json.Error} (h : q.Meets c t w (.ok r))
      (hbody : HasLongInteger r.body e) : Strays q c t w (Client.outOfRange e)
  /-- The answer is an object, and its list is none or holds something other than an object. -/
  | misshapen {r : Response} {members : List (Datum × Datum)} {name : String} {f : Failure}
      (h : q.Meets c t w (.ok r)) (hstatus : r.status < 400)
      (hread : Json.read r.body = .ok (.map members)) (hlist : q.list = some name)
      (hshape : Misshapen members name f) : Strays q c t w f

theorem Strays.not_isApi {f : Failure} (h : q.Strays c t w f) : ¬ f.IsApi := by
  rintro ⟨e, rfl⟩
  cases h with
  | misshapen h hstatus hread hlist hshape => exact hshape.not_isApi ⟨e, rfl⟩

theorem settle_strays (ha : IsCall c t q a) {outcome : Except Failure Response}
    (hmeets : q.Meets c t w outcome)
    (hordinary : ∀ f, outcome = .error f →
      (∃ detail, f = .outside (.connection detail)) ∨ f = .outside .timeout) {f : Failure}
    (h : q.settle outcome = .error f) (hf : ¬ f.IsApi) : q.Strays c t w f := by
  cases outcome with
  | error e =>
      rcases hordinary e rfl with ⟨detail, rfl⟩ | rfl
      · exact absurd ⟨_, (Except.error.inj h).symm⟩ hf
      · cases h
        exact .timeout hmeets
  | ok r =>
      rcases bind_eq_error_iff.1 h with hanswer | ⟨members, hmembers, hread⟩
      · rcases Client.interpret_eq_error hanswer with hapi | ⟨e, hlong, rfl⟩
        · exact absurd hapi hf
        · exact .longInteger hmeets hlong
      · rcases ha.read_eq_error hread with ⟨name, hlist, hshape⟩ | ⟨id, rfl⟩
        · obtain ⟨hstatus, ⟨-, rfl⟩ | hbody⟩ := Client.interpret_eq_ok_iff.1 hmembers
          · exact absurd hshape (not_misshapen_nil name)
          · exact .misshapen hmeets hstatus hbody hlist hshape
        · exact absurd ⟨_, rfl⟩ hf

theorem Strays.perform {f : Failure} (h : q.Strays c t w f) (ha : IsCall c t q a)
    (hopens : t.Opens) : (a.perform w).1 = .error f := by
  cases h with
  | address h => rw [perform_of_unsignable ha (.address h)]
  | timeout h => exact perform_of_meets ha hopens h
  | longInteger h hbody =>
      rw [perform_of_meets ha hopens h, settle, Client.interpret_long hbody]
      rfl
  | misshapen h hstatus hread hlist hshape =>
      rw [perform_of_meets ha hopens h, settle, Client.interpret_of_read hstatus hread]
      exact ha.read_of_misshapen hlist hshape

/-- **What a call fails with.** A call of a client with a textual key and secret, over a transport
that answers requests, loses them or lets them time out, ends with a result or with an error of the
interface, or it fails in one of the ways that stray, and these all come out as they are. -/
theorem failures_own_iff (hc : c.IsTextual) (ht : t.IsOrdinary) (ha : IsCall c t q a)
    (w : World σ) (f : Failure) :
    (a.perform w).1 = .error f ∧ ¬ f.IsApi ↔ q.Strays c t w f := by
  constructor
  · rintro ⟨h, hf⟩
    by_cases hsigned : ∃ e, Unsignable c q.url e
    · obtain ⟨_, hunsignable⟩ := hsigned
      rw [perform_of_unsignable ha hunsignable] at h
      cases h
      obtain ⟨e, hread, rfl⟩ := hc.unsignable_iff.1 hunsignable
      exact .address hread
    · obtain ⟨request, hprepare, -⟩ := exists_prepare q.method
        (fun e he => hsigned ⟨e, he⟩) ha.isWritten
      rw [(perform_of_prepared ha ht.opens hprepare w).1] at h
      exact settle_strays ha ⟨request, hprepare, rfl⟩ (ht.send request _) h hf
  · intro h
    exact ⟨h.perform ha ht.opens, h.not_isApi⟩

end Query

/-! ### One request -/

theorem Script.isOrdinary_transport {s : Script} (h : ∀ sent r f, s.answer sent r = .error f →
    (∃ detail, f = .outside (.connection detail)) ∨ f = .outside .timeout) :
    s.transport.IsOrdinary where
  opens := s.opens_transport
  send r w f hf := h (w.outside.sent.map Request.bare) r.bare f hf

namespace Query

def plain : Client := ⟨.str "key", .str "secret", "https://z", .int 30, true, 0⟩

theorem isTextual_plain : plain.IsTextual := ⟨⟨"key", rfl⟩, "secret", rfl⟩

theorem signs_plain : ∀ f, ¬ Unsignable plain (zones plain).url f := by
  rintro f h
  obtain ⟨e, hread, -⟩ := isTextual_plain.unsignable_iff.1 h
  have hread' : Url.Address.read (zones plain).url = .ok ⟨"/zone", []⟩ := by decide +kernel
  cases hread.symm.trans hread'

theorem meets_plain (outcome : Except Failure Response) (w : World Wire) :
    (zones plain).Meets plain (Script.always outcome).transport w outcome := by
  obtain ⟨request, hprepare, -⟩ := exists_prepare "GET" signs_plain
    (IsCall.zones (t := (Script.always outcome).transport)).isWritten
  exact ⟨request, hprepare, rfl⟩

/-- A lost connection is an error of the interface, and a timeout comes out as it is. -/
theorem failures_own_lost :
    (∀ f, ((plain.zones (Script.always (.error (.outside (.connection "lost")))).transport).perform
        blank).1 = .error f → f.IsApi) ∧
      ((plain.zones (Script.always (.error (.outside .timeout))).transport).perform blank).1 =
        .error (.outside .timeout) := by
  constructor
  · intro f hf
    by_contra hapi
    have hlost : (Script.always (.error (.outside (.connection "lost")))).transport.IsOrdinary :=
      Script.isOrdinary_transport fun _ _ _ h => .inl ⟨_, (Except.error.inj h).symm⟩
    cases (failures_own_iff isTextual_plain hlost .zones blank f).1 ⟨hf, hapi⟩ with
    | address h => exact signs_plain _ (.address h)
    | timeout h => cases h.unique (meets_plain _ _)
    | longInteger h hbody => cases h.unique (meets_plain _ _)
    | misshapen h hstatus hread hlist hshape => cases h.unique (meets_plain _ _)
  · have hlate : (Script.always (.error (.outside .timeout))).transport.IsOrdinary :=
      Script.isOrdinary_transport fun _ _ _ h => .inr (Except.error.inj h).symm
    exact ((failures_own_iff isTextual_plain hlate .zones blank _).2 (.timeout (meets_plain _ _))).1

/-- A timeout, and a list that holds a number, do not end in errors of the interface. -/
theorem failures_not_own :
    (∃ f, ((plain.zones (Script.always (.error (.outside .timeout))).transport).perform
        blank).1 = .error f ∧ ¬ f.IsApi) ∧
      ∃ f, ((plain.zones (Script.always (.ok ⟨200, "\x7b\"zones\": [1]\x7d"⟩)).transport).perform
        blank).1 = .error f ∧ ¬ f.IsApi := by
  constructor
  · have hstrays : (zones plain).Strays plain _ blank _ := .timeout (meets_plain _ blank)
    exact ⟨_, hstrays.perform .zones (Script.opens_transport _), hstrays.not_isApi⟩
  · have hread : Json.read "\x7b\"zones\": [1]\x7d" =
        .ok (.map [(.str "zones", .list [.int 1])]) := eq_ok_of_toOption (by decide +kernel)
    have hitems : Client.itemsOf (.list [.int 1]) = .ok ([] ++ .int 1 :: []) := rfl
    have hshape : Misshapen [(.str "zones", .list [.int 1])] "zones"
        (.wrongKind (.lacks .int "get")) :=
      .notObject rfl hitems (List.forall_mem_nil _) fun ⟨_, h⟩ => nomatch h
    have hstrays : (zones plain).Strays plain _ blank _ :=
      .misshapen (meets_plain (.ok ⟨200, "\x7b\"zones\": [1]\x7d"⟩) blank) (by decide) hread rfl
        hshape
    exact ⟨_, hstrays.perform .zones (Script.opens_transport _), hstrays.not_isApi⟩

end Query
end Api
end KubeAtlas
