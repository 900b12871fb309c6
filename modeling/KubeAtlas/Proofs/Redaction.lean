import Mathlib
import KubeAtlas.Journal
import KubeAtlas.Proofs.Datum
import KubeAtlas.Proofs.Json
/-!
# What the journal blots out

A payload is recorded with the values of its secret members blotted out. Only its own members are
looked at: what stands under a secret name further down, in a member that is a mapping or a list, is
recorded as it is. `cover` is the blotting at every depth, and two payloads that it makes equal
differ in secrets only. For a payload without a secret below its members the two agree, and the
journal cannot tell such payloads apart; a secret below them shows, for a longer one makes the line
longer.
-/

namespace KubeAtlas

open Journal (isSecret redact)

namespace Datum

mutual

/-- A value with a mark for everything under a secret name, through mappings and lists. -/
def cover (mark : String) : Datum → Datum
  | list items => .list (coverItems mark items)
  | map entries => .map (coverEntries mark entries)
  | d => d

def coverItems (mark : String) : List Datum → List Datum
  | [] => []
  | d :: rest => cover mark d :: coverItems mark rest

def coverEntries (mark : String) : List (Datum × Datum) → List (Datum × Datum)
  | [] => []
  | (k, v) :: rest =>
    (k, if isSecret k then .str mark else cover mark v) :: coverEntries mark rest

end

/-- A value with a secret name in it, through mappings and lists. -/
inductive HasSecret : Datum → Prop
  | here {entries : List (Datum × Datum)} {e : Datum × Datum} (he : e ∈ entries)
      (hname : isSecret e.1 = true) : HasSecret (.map entries)
  | under {entries : List (Datum × Datum)} {e : Datum × Datum} (he : e ∈ entries)
      (hvalue : HasSecret e.2) : HasSecret (.map entries)
  | item {items : List Datum} {d : Datum} (hd : d ∈ items) (hitem : HasSecret d) :
      HasSecret (.list items)

theorem coverItems_eq_map (mark : String) (items : List Datum) :
    coverItems mark items = items.map (cover mark) := by
  induction items with
  | nil => rfl
  | cons d rest ih => rw [coverItems, ih, List.map_cons]

theorem coverEntries_eq_map (mark : String) (entries : List (Datum × Datum)) :
    coverEntries mark entries =
      entries.map fun e => (e.1, if isSecret e.1 then .str mark else cover mark e.2) := by
  induction entries with
  | nil => rfl
  | cons e rest ih => rw [coverEntries, ih, List.map_cons]

/-! ### Covering twice -/

mutual

/-- What covers a value does not matter once it is covered again. -/
theorem cover_cover (mark other : String) : ∀ d : Datum, (d.cover other).cover mark = d.cover mark
  | list items => congrArg Datum.list (coverItems_coverItems mark other items)
  | map entries => congrArg Datum.map (coverEntries_coverEntries mark other entries)
  | scalar _ | date _ | moment _ | tuple _ | set _ | cycle _ => rfl

theorem coverItems_coverItems (mark other : String) :
    ∀ items : List Datum, coverItems mark (coverItems other items) = coverItems mark items
  | [] => rfl
  | d :: rest =>
      congrArg₂ List.cons (cover_cover mark other d) (coverItems_coverItems mark other rest)

theorem coverEntries_coverEntries (mark other : String) :
    ∀ entries : List (Datum × Datum),
      coverEntries mark (coverEntries other entries) = coverEntries mark entries
  | [] => rfl
  | (k, v) :: rest => by
      rw [coverEntries, coverEntries, coverEntries, coverEntries_coverEntries mark other rest]
      by_cases hk : isSecret k = true
      · rw [if_pos hk, if_pos hk]
      · rw [if_neg hk, if_neg hk, if_neg hk, cover_cover mark other v]

end

/-! ### Values without secrets -/

mutual

theorem cover_eq_self (mark : String) : ∀ d : Datum, ¬ d.HasSecret → d.cover mark = d
  | list items, hd =>
      congrArg Datum.list (coverItems_eq_self mark items fun _ h hs => hd (.item h hs))
  | map entries, hd =>
      congrArg Datum.map (coverEntries_eq_self mark entries fun _ h =>
        ⟨fun hs => hd (.here h hs), fun hs => hd (.under h hs)⟩)
  | scalar _, _ | date _, _ | moment _, _ | tuple _, _ | set _, _ | cycle _, _ => rfl

theorem coverItems_eq_self (mark : String) :
    ∀ items : List Datum, (∀ d ∈ items, ¬ d.HasSecret) → coverItems mark items = items
  | [], _ => rfl
  | d :: rest, hall => by
      obtain ⟨hd, hrest⟩ := List.forall_mem_cons.1 hall
      rw [coverItems, cover_eq_self mark d hd, coverItems_eq_self mark rest hrest]

theorem coverEntries_eq_self (mark : String) :
    ∀ entries : List (Datum × Datum),
      (∀ e ∈ entries, ¬ isSecret e.1 = true ∧ ¬ e.2.HasSecret) → coverEntries mark entries = entries
  | [], _ => rfl
  | (k, v) :: rest, hall => by
      obtain ⟨⟨hk, hv⟩, hrest⟩ := List.forall_mem_cons.1 hall
      rw [coverEntries, if_neg hk, cover_eq_self mark v hv, coverEntries_eq_self mark rest hrest]

end

theorem HasSecret.cover {d : Datum} (mark : String) (h : d.HasSecret) :
    (d.cover mark).HasSecret := by
  induction h with
  | @here entries e he hname =>
      rw [Datum.cover, coverEntries_eq_map]
      exact .here (List.mem_map_of_mem he) hname
  | @under entries e he hvalue ih =>
      rw [Datum.cover, coverEntries_eq_map]
      by_cases hname : isSecret e.1 = true
      · exact .here (List.mem_map_of_mem he) hname
      · refine .under (List.mem_map_of_mem he) ?_
        rw [if_neg hname]
        exact ih
  | item hd hitem ih =>
      rw [Datum.cover, coverItems_eq_map]
      exact .item (List.mem_map_of_mem hd) ih

end Datum

/-! ### A long secret makes a long text -/

namespace Text

theorem length_le_intercalate (separator : String) {part : String} {parts : List String}
    (h : part ∈ parts) : part.length ≤ (separator.intercalate parts).length := by
  induction parts with
  | nil => cases h
  | cons first rest ih =>
      cases rest with
      | nil =>
          obtain rfl := List.mem_singleton.1 h
          exact Nat.le_refl _
      | cons second rest =>
          rw [String.intercalate_cons_cons, String.length_append, String.length_append]
          rcases List.mem_cons.1 h with rfl | hrest
          · omega
          · have hle := ih hrest
            omega

theorem length_le_flatMap {f : Char → List Char} (hf : ∀ c, f c ≠ []) (s : List Char) :
    s.length ≤ (s.flatMap f).length := by
  induction s with
  | nil => exact Nat.le_refl _
  | cons c rest ih =>
      have hfirst := List.length_pos_of_ne_nil (hf c)
      rw [List.flatMap_cons, List.length_append, List.length_cons]
      omega

theorem quoteChar_ne_nil (quote c : Char) : quoteChar quote c ≠ [] := by
  rw [quoteChar]
  split_ifs <;> simp [escapeCode]
  split_ifs <;> simp

theorem length_le_quoted (s : String) : s.length ≤ (quoted s).length := by
  have hle := length_le_flatMap (quoteChar_ne_nil (quoteFor s.toList)) s.toList
  rw [String.length_toList] at hle
  rw [quoted, String.length_ofList, List.length_cons, List.length_append]
  omega

end Text

namespace Json

theorem stringChar_ne_nil (c : Char) : stringChar c ≠ [] := by
  unfold stringChar
  split
  all_goals try exact List.cons_ne_nil _ _
  dsimp only
  split_ifs
  · exact List.cons_ne_nil _ _
  · exact List.cons_ne_nil _ _
  · exact List.cons_ne_nil _ _

theorem length_le_writeString (s : String) : s.length ≤ (writeString s).length := by
  have hle := Text.length_le_flatMap stringChar_ne_nil s.toList
  rw [String.length_toList] at hle
  rw [writeString, String.length_ofList, List.length_cons, List.length_append]
  omega

variable {sp : Spacing}

theorem length_le_write_map {members : List (Datum × Datum)} {e : Datum × Datum} {text : String}
    {n : Nat} (he : e ∈ members) (hn : ∀ part, write sp e.2 = .ok part → n ≤ part.length)
    (h : write sp (.map members) = .ok text) : n ≤ text.length := by
  obtain ⟨parts, hparts, rfl⟩ := write_map_eq_ok_iff.1 h
  obtain ⟨member, hmember, hwrite⟩ := exists_mem_of_mapM hparts he
  obtain ⟨name, part, -, hpart, rfl⟩ := writeMember_eq_ok_iff.1 hwrite
  have hle := Text.length_le_intercalate sp.item hmember
  have hvalue := hn part hpart
  rw [String.length_append] at hle
  rw [String.length_append, String.length_append]
  omega

theorem length_le_write_list {items : List Datum} {d : Datum} {text : String} {n : Nat}
    (hd : d ∈ items) (hn : ∀ part, write sp d = .ok part → n ≤ part.length)
    (h : write sp (.list items) = .ok text) : n ≤ text.length := by
  obtain ⟨parts, hparts, rfl⟩ := write_list_eq_ok_iff.1 h
  obtain ⟨part, hpart, hwrite⟩ := exists_mem_of_mapM hparts hd
  have hle := Text.length_le_intercalate sp.item hpart
  have hvalue := hn part hwrite
  rw [String.length_append, String.length_append]
  omega

end Json

namespace Datum

theorem displayItems_eq_map (above : List Kind) (items : List Datum) :
    displayItems above items = items.map (displayIn above) := by
  induction items with
  | nil => rfl
  | cons d rest ih => rw [displayItems, ih, List.map_cons]

theorem displayEntries_eq_map (above : List Kind) (entries : List (Datum × Datum)) :
    displayEntries above entries =
      entries.map fun e => displayIn above e.1 ++ ": " ++ displayIn above e.2 := by
  induction entries with
  | nil => rfl
  | cons e rest ih => rw [displayEntries, ih, List.map_cons]

theorem length_le_display_map {above : List Kind} {entries : List (Datum × Datum)}
    {e : Datum × Datum} {n : Nat} (he : e ∈ entries)
    (hn : n ≤ (displayIn (.map :: above) e.2).length) :
    n ≤ (displayIn above (.map entries)).length := by
  change n ≤ ("\x7b" ++ ", ".intercalate (displayEntries (.map :: above) entries) ++ "\x7d").length
  rw [displayEntries_eq_map]
  have hpart := Text.length_le_intercalate ", " (List.mem_map_of_mem
    (f := fun e => displayIn (.map :: above) e.1 ++ ": " ++ displayIn (.map :: above) e.2) he)
  rw [String.length_append] at hpart
  rw [String.length_append, String.length_append]
  omega

theorem length_le_display_list {above : List Kind} {items : List Datum} {d : Datum} {n : Nat}
    (hd : d ∈ items) (hn : n ≤ (displayIn (.list :: above) d).length) :
    n ≤ (displayIn above (.list items)).length := by
  change n ≤ ("[" ++ ", ".intercalate (displayItems (.list :: above) items) ++ "]").length
  rw [displayItems_eq_map]
  have hpart := Text.length_le_intercalate ", " (List.mem_map_of_mem
    (f := displayIn (.list :: above)) hd)
  rw [String.length_append, String.length_append]
  omega

namespace HasSecret

variable {d : Datum}

/-- What a secret is covered with stands in the JSON text. -/
theorem length_le_write (sp : Json.Spacing) (mark : String) (h : d.HasSecret) :
    ∀ text, Json.write sp (d.cover mark) = .ok text → mark.length ≤ text.length := by
  have hmark : ∀ text, Json.write sp (.str mark) = .ok text → mark.length ≤ text.length := by
    intro text htext
    cases htext
    exact Json.length_le_writeString mark
  induction h with
  | @here entries e he hname =>
      intro text htext
      rw [Datum.cover, coverEntries_eq_map] at htext
      refine Json.length_le_write_map (List.mem_map_of_mem he) ?_ htext
      rw [if_pos hname]
      exact hmark
  | @under entries e he hvalue ih =>
      intro text htext
      rw [Datum.cover, coverEntries_eq_map] at htext
      refine Json.length_le_write_map (List.mem_map_of_mem he) ?_ htext
      split
      · exact hmark
      · exact ih
  | item hd hitem ih =>
      intro text htext
      rw [Datum.cover, coverItems_eq_map] at htext
      exact Json.length_le_write_list (List.mem_map_of_mem hd) ih htext

theorem length_le_display (mark : String) (h : d.HasSecret) :
    ∀ above, mark.length ≤ ((d.cover mark).displayIn above).length := by
  have hmark : ∀ above, mark.length ≤ (displayIn above (.str mark)).length := by
    intro above
    rw [displayIn_scalar]
    simp only [displayScalar]
    exact Text.length_le_quoted mark
  induction h with
  | @here entries e he hname =>
      intro above
      rw [Datum.cover, coverEntries_eq_map]
      refine length_le_display_map (List.mem_map_of_mem he) ?_
      rw [if_pos hname]
      exact hmark _
  | @under entries e he hvalue ih =>
      intro above
      rw [Datum.cover, coverEntries_eq_map]
      refine length_le_display_map (List.mem_map_of_mem he) ?_
      split
      · exact hmark _
      · exact ih _
  | item hd hitem ih =>
      intro above
      rw [Datum.cover, coverItems_eq_map]
      exact length_le_display_list (List.mem_map_of_mem hd) (ih _)

end HasSecret
end Datum

namespace Journal

open Datum (coverEntries)

variable {members others : List (Datum × Datum)}

/-- Two payloads that differ in what stands under secret names, at whatever depth. -/
def SameButSecrets (members others : List (Datum × Datum)) : Prop :=
  coverEntries "<redacted>" members = coverEntries "<redacted>" others

/-- A payload with a secret name further down than its own members. -/
def HasInnerSecret (members : List (Datum × Datum)) : Prop :=
  ∃ e ∈ members, ¬ isSecret e.1 = true ∧ e.2.HasSecret

/-- Without a secret further down, the blotting goes as deep as it has to. -/
theorem redact_eq_cover (h : ¬ HasInnerSecret members) :
    redact members = coverEntries "<redacted>" members := by
  rw [redact, Datum.coverEntries_eq_map]
  refine List.map_congr_left fun e he => ?_
  by_cases hname : isSecret e.1 = true
  · simp only [if_pos hname]
  · simp only [if_neg hname]
    rw [Datum.cover_eq_self _ _ fun hs => h ⟨e, he, hname, hs⟩]

theorem HasInnerSecret.of_same (h : HasInnerSecret others) (hsame : SameButSecrets members others) :
    HasInnerSecret members := by
  obtain ⟨e, he, hname, hs⟩ := h
  have hmem : (e.1, e.2.cover "<redacted>") ∈ coverEntries "<redacted>" members := by
    rw [hsame, Datum.coverEntries_eq_map]
    refine List.mem_map.2 ⟨e, he, ?_⟩
    rw [if_neg hname]
  rw [Datum.coverEntries_eq_map] at hmem
  obtain ⟨f, hf, hpair⟩ := List.mem_map.1 hmem
  obtain ⟨hfst, hsnd⟩ := Prod.mk.inj hpair
  have hname' : ¬ isSecret f.1 = true := by rwa [hfst]
  rw [if_neg hname'] at hsnd
  refine ⟨f, hf, hname', ?_⟩
  by_contra hnone
  rw [Datum.cover_eq_self _ _ hnone] at hsnd
  exact hnone (hsnd ▸ hs.cover _)

/-- A line that shows a payload with a secret further down is as long as that secret. -/
theorem HasInnerSecret.length_le {mark text : String} (h : HasInnerSecret members)
    (htext : payloadText (coverEntries mark members) = .ok text) : mark.length ≤ text.length := by
  obtain ⟨e, he, hname, hs⟩ := h
  have hmem : (e.1, e.2.cover mark) ∈ redact (coverEntries mark members) := by
    rw [redact, Datum.coverEntries_eq_map, List.map_map]
    refine List.mem_map.2 ⟨e, he, ?_⟩
    simp only [Function.comp_apply, if_neg hname]
  have hshown (hd : textOf (.map (redact (coverEntries mark members))) = .ok text) :
      Json.write .compact (.map (redact (coverEntries mark members))) = .ok text ∨
        text = (Datum.map (redact (coverEntries mark members))).display := by
    rw [textOf] at hd
    split at hd
    · next found hwrite =>
        rw [Except.ok.inj hd] at hwrite
        exact .inl hwrite
    · split at hd
      · exact .inr (Except.ok.inj hd).symm
      · cases hd
    · split at hd
      · exact .inr (Except.ok.inj hd).symm
      · cases hd
    · cases hd
  rcases hshown htext with hwrite | rfl
  · exact Json.length_le_write_map hmem (hs.length_le_write _ mark) hwrite
  · exact Datum.length_le_display_map hmem (hs.length_le_display mark _)

theorem recordPayload_eq_map (j : Journal) (logger heading : String)
    (members : List (Datum × Datum)) : j.recordPayload logger heading members =
      (payloadText members).map fun text =>
        j.record ⟨.debug, childName logger, none, heading ++ text⟩ := by
  rw [recordPayload]
  cases payloadText members <;> rfl

theorem payloadText_of_recordPayload {j : Journal} {logger heading : String}
    (hverbose : j.verbose = true)
    (h : (j.recordPayload logger heading others).toOption =
      (j.recordPayload logger heading members).toOption) :
    (payloadText others).toOption = (payloadText members).toOption := by
  have hrecord (e : Entry) : (j.record e).entries = j.entries ++ [e] := by
    rw [record, hverbose, Bool.true_or, if_pos rfl]
  rw [recordPayload_eq_map, recordPayload_eq_map] at h
  generalize payloadText others = shown at h
  generalize payloadText members = expected at h
  rcases shown with e | text <;> rcases expected with d | other <;>
    simp only [Except.map, Except.toOption, reduceCtorEq] at h
  · rfl
  · have hlast : heading ++ text = heading ++ other := by
      simpa [hrecord] using congrArg Journal.entries (Option.some.inj h)
    rw [String.append_right_inj] at hlast
    rw [hlast]

/-- **What is blotted out.** The journal records payloads that differ in secrets only, at whatever
depth, in the same way, unless there is a secret further down than the members of the payload, and
some payload like it can be recorded at all. Without such a secret the line shows everything else as
it is, and where there is no line the attempts fail alike. -/
theorem secrets_blotted_iff {j : Journal} (hverbose : j.verbose = true) (context : String)
    (members : List (Datum × Datum)) :
    ((∀ others, SameButSecrets members others →
        (j.request context others).toOption = (j.request context members).toOption ∧
          (j.response context others).toOption = (j.response context members).toOption) ↔
      ¬ HasInnerSecret members ∨
        ∀ others, SameButSecrets members others → ∃ e, payloadText others = .error e) ∧
    (¬ HasInnerSecret members →
      (∀ others, SameButSecrets members others →
        j.request context others = j.request context members ∧
          j.response context others = j.response context members) ∧
      ∀ text, textOf (.map (coverEntries "<redacted>" members)) = .ok text →
        j.request context members = .ok (j.record
            ⟨.debug, childName "request", none, s!"{context} request: " ++ text⟩) ∧
          j.response context members = .ok (j.record
            ⟨.debug, childName "response", none, s!"{context} response: " ++ text⟩)) := by
  have hrequest (others : List (Datum × Datum)) : j.request context others =
      j.recordPayload "request" s!"{context} request: " others := by
    rw [request, if_pos hverbose]
  have hresponse (others : List (Datum × Datum)) : j.response context others =
      j.recordPayload "response" s!"{context} response: " others := by
    rw [response, if_pos hverbose]
  have halike (hnone : ¬ HasInnerSecret members) (others : List (Datum × Datum))
      (hsame : SameButSecrets members others) :
      j.request context others = j.request context members ∧
        j.response context others = j.response context members := by
    have hredact : redact others = redact members := by
      rw [redact_eq_cover hnone, redact_eq_cover fun h => hnone (h.of_same hsame)]
      exact hsame.symm
    rw [hrequest, hrequest, hresponse, hresponse, recordPayload, recordPayload, recordPayload,
      recordPayload, payloadText, payloadText, hredact]
    exact ⟨rfl, rfl⟩
  constructor
  · constructor
    · intro hall
      by_contra hneither
      obtain ⟨hinner, hsome⟩ := not_or.1 hneither
      rw [not_not] at hinner
      push Not at hsome
      obtain ⟨others, hsame, hrecorded⟩ := hsome
      have htexts (others : List (Datum × Datum)) (hsame : SameButSecrets members others) :
          (payloadText others).toOption = (payloadText members).toOption := by
        have hline := (hall others hsame).1
        rw [hrequest, hrequest] at hline
        exact payloadText_of_recordPayload hverbose hline
      cases htext : payloadText others with
      | error e => exact hrecorded e htext
      | ok text =>
          -- a secret that is longer than the line cannot stand in it
          have hlong := htexts (coverEntries ("".pushn 'a' (text.length + 1)) members)
            (Datum.coverEntries_coverEntries _ _ _).symm
          rw [← htexts others hsame, htext] at hlong
          have hle := hinner.length_le (eq_ok_of_toOption hlong)
          simp at hle
    · rintro (hnone | hunrecorded) others hsame
      · obtain ⟨hrequests, hresponses⟩ := halike hnone others hsame
        rw [hrequests, hresponses]
        exact ⟨rfl, rfl⟩
      · obtain ⟨e, he⟩ := hunrecorded others hsame
        obtain ⟨d, hd⟩ := hunrecorded members rfl
        rw [hrequest, hrequest, hresponse, hresponse, recordPayload, recordPayload, recordPayload,
          recordPayload, he, hd]
        exact ⟨rfl, rfl⟩
  · intro hnone
    refine ⟨halike hnone, fun text htext => ?_⟩
    have hpayload : payloadText members = .ok text := by
      rw [payloadText, redact_eq_cover hnone, htext]
    rw [hrequest, hresponse, recordPayload, recordPayload, hpayload]
    exact ⟨rfl, rfl⟩

def flatPayload (secret : String) : List (Datum × Datum) :=
  [(.str "status", .int 200), (.str "kubeconfig", .str secret)]

theorem secrets_blotted_flat :
    Journal.verbose ⟨true, []⟩ = true ∧ SameButSecrets (flatPayload "a") (flatPayload "b") ∧
      (⟨true, []⟩ : Journal).response "GET https://z" (flatPayload "b") =
        (⟨true, []⟩ : Journal).response "GET https://z" (flatPayload "a") := by
  have hnone : ¬ HasInnerSecret (flatPayload "a") := by
    rintro ⟨e, he, -, hs⟩
    rcases List.mem_pair.1 he with rfl | rfl <;> cases hs
  have hsame : SameButSecrets (flatPayload "a") (flatPayload "b") := rfl
  exact ⟨rfl, hsame, (((secrets_blotted_iff rfl "GET https://z" _).2 hnone).1 _ hsame).2⟩

def nestedPayload (secret : String) : List (Datum × Datum) :=
  [(.str "outer", .map [(.str "kubeconfig", .str secret)])]

/-- A secret one level down is recorded. -/
theorem secrets_not_blotted :
    ¬ ∀ (j : Journal) (context : String) (members others : List (Datum × Datum)),
      j.verbose = true → SameButSecrets members others →
        (j.request context others).toOption = (j.request context members).toOption ∧
          (j.response context others).toOption = (j.response context members).toOption := by
  intro hall
  obtain ⟨-, hresponse⟩ := hall ⟨true, []⟩ "GET https://z" (nestedPayload "c2VjcmV0")
    (nestedPayload "b3RoZXI=") rfl rfl
  exact absurd hresponse (by decide +kernel)

end Journal
end KubeAtlas
