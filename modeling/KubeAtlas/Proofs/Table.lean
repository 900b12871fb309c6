import KubeAtlas.Table
import Mathlib.Data.List.Forall2
import Mathlib.Data.List.Induction
import Mathlib.Data.List.Nodup
import Mathlib.Data.List.Perm.Subperm
/-!
# The laws of tables

What writing, erasing and rebuilding do to what is found in a table, to its keys and to their order.
A table is only as good as the distinctness of its keys: erasing removes one entry, so that a key
is gone afterwards only if it stood there once. Everything here that speaks of erasing or of whole
tables therefore asks for distinct keys, which `nodup_keys_put` and `nodup_keys_erase` keep.
-/

namespace KubeAtlas

theorem eraseDups_concat {α : Type} [DecidableEq α] (xs : List α) (x : α) :
    (xs ++ [x]).eraseDups = if x ∈ xs then xs.eraseDups else xs.eraseDups ++ [x] := by
  rw [List.eraseDups_append, List.removeAll]
  by_cases hx : x ∈ xs
  · rw [if_pos hx, List.filter_cons_of_neg (by simpa using hx)]
    simp
  · rw [if_neg hx, List.filter_cons_of_pos (by simpa using hx)]
    simp [List.eraseDups_cons]

namespace Table

variable {α κ β : Type} [Labelled α κ]

theorem keys_cons (a : α) (v : β) (t : List (α × β)) :
    keys ((a, v) :: t) = (Labelled.key a : κ) :: keys t := rfl

theorem keys_append (s t : List (α × β)) : (keys (s ++ t) : List κ) = keys s ++ keys t :=
  List.map_append

theorem length_keys (t : List (α × β)) : (keys t : List κ).length = t.length := List.length_map _

variable [DecidableEq κ]

theorem mem_keys_iff (k : κ) (t : List (α × β)) : k ∈ (keys t : List κ) ↔ (find? k t).isSome := by
  induction t with
  | nil => simp [keys]
  | cons e rest ih =>
      obtain ⟨a, v⟩ := e
      rw [keys_cons, find?_cons, List.mem_cons, ih]
      by_cases ha : (Labelled.key a : κ) = k
      · simp [ha]
      · simp [ha, Ne.symm ha]

theorem find?_eq_none_of_notMem {k : κ} {t : List (α × β)} (h : k ∉ (keys t : List κ)) :
    find? k t = none := by
  rw [mem_keys_iff] at h
  simpa using h

theorem exists_of_find? {k : κ} {v : β} {t : List (α × β)} (h : find? k t = some v) :
    ∃ a, (Labelled.key a : κ) = k ∧ (a, v) ∈ t := by
  induction t with
  | nil => simp at h
  | cons e rest ih =>
      obtain ⟨a, w⟩ := e
      rw [find?_cons] at h
      by_cases ha : (Labelled.key a : κ) = k
      · rw [if_pos ha, Option.some.injEq] at h
        exact ⟨a, ha, by simp [h]⟩
      · rw [if_neg ha] at h
        obtain ⟨b, hb, hmem⟩ := ih h
        exact ⟨b, hb, List.mem_cons_of_mem _ hmem⟩

/-! ### Erasing -/

theorem sublist_erase (k : κ) (t : List (α × β)) : (erase k t).Sublist t := by
  induction t with
  | nil => exact List.Sublist.refl _
  | cons e rest ih =>
      rw [erase]
      split
      · exact List.sublist_cons_self _ _
      · exact ih.cons_cons _

theorem nodup_keys_erase (k : κ) (t : List (α × β)) (h : (keys t : List κ).Nodup) :
    (keys (erase k t) : List κ).Nodup :=
  List.Nodup.sublist ((sublist_erase k t).map _) h

theorem find?_erase (k other : κ) (t : List (α × β)) (h : (keys t : List κ).Nodup) :
    find? other (erase k t) = if other = k then none else find? other t := by
  induction t with
  | nil => simp [erase]
  | cons e rest ih =>
      obtain ⟨a, v⟩ := e
      rw [keys_cons, List.nodup_cons] at h
      rw [erase]
      by_cases ha : (Labelled.key a : κ) = k
      · rw [if_pos ha, find?_cons]
        by_cases ho : other = k
        · rw [if_pos ho, ho, ← ha]
          exact find?_eq_none_of_notMem h.1
        · rw [if_neg ho, if_neg fun he => ho (he.symm.trans ha)]
      · rw [if_neg ha, find?_cons, find?_cons, ih h.2]
        by_cases ho : (Labelled.key a : κ) = other
        · rw [if_pos ho, if_pos ho, if_neg fun he => ha (ho.trans he)]
        · rw [if_neg ho, if_neg ho]

theorem erase_of_find?_eq_none {k : κ} {t : List (α × β)} (h : find? k t = none) :
    erase k t = t := by
  induction t with
  | nil => rfl
  | cons e rest ih =>
      obtain ⟨a, v⟩ := e
      rw [find?_cons] at h
      rw [erase]
      split at h
      · cases h
      · next ha => rw [if_neg ha, ih h]

/-! ### Entries written one after the other -/

theorem mem_put {a : α} {v : β} {t : List (α × β)} {e : α × β} (h : e ∈ put a v t) :
    (e.1 = a ∨ ∃ w, (e.1, w) ∈ t) ∧ (e.2 = v ∨ ∃ b, (b, e.2) ∈ t) := by
  induction t with
  | nil =>
      obtain rfl := List.mem_singleton.1 h
      exact ⟨.inl rfl, .inl rfl⟩
  | cons d rest ih =>
      obtain ⟨b, w⟩ := d
      rw [put] at h
      split at h
      · rcases List.mem_cons.1 h with rfl | h
        · exact ⟨.inr ⟨w, by simp⟩, .inl rfl⟩
        · exact ⟨.inr ⟨e.2, List.mem_cons_of_mem _ h⟩, .inr ⟨e.1, List.mem_cons_of_mem _ h⟩⟩
      · rcases List.mem_cons.1 h with rfl | h
        · exact ⟨.inr ⟨w, by simp⟩, .inr ⟨b, by simp⟩⟩
        · obtain ⟨hlabel, hvalue⟩ := ih h
          exact ⟨hlabel.imp_right (Exists.imp fun w hw => List.mem_cons_of_mem _ hw),
            hvalue.imp_right (Exists.imp fun b hb => List.mem_cons_of_mem _ hb)⟩

theorem mem_putAll {es t : List (α × β)} {e : α × β} (h : e ∈ putAll es t) :
    (∃ w, (e.1, w) ∈ es ++ t) ∧ ∃ b, (b, e.2) ∈ es ++ t := by
  induction es generalizing t with
  | nil => exact ⟨⟨e.2, h⟩, ⟨e.1, h⟩⟩
  | cons d es ih =>
      obtain ⟨⟨w, hw⟩, ⟨b, hb⟩⟩ := ih h
      constructor
      · rcases List.mem_append.1 hw with hw | hw
        · exact ⟨w, by simp [hw]⟩
        · rcases (mem_put hw).1 with hlabel | ⟨w, hw⟩
          · exact ⟨d.2, by simp [show e.1 = d.1 from hlabel]⟩
          · exact ⟨w, by simp [show (e.1, w) ∈ t from hw]⟩
      · rcases List.mem_append.1 hb with hb | hb
        · exact ⟨b, by simp [hb]⟩
        · rcases (mem_put hb).2 with hvalue | ⟨b, hb⟩
          · exact ⟨d.1, by simp [show e.2 = d.2 from hvalue]⟩
          · exact ⟨b, by simp [show (b, e.2) ∈ t from hb]⟩

theorem mem_ofList {es : List (α × β)} {e : α × β} (h : e ∈ ofList es) :
    (∃ w, (e.1, w) ∈ es) ∧ ∃ b, (b, e.2) ∈ es := by
  simpa using mem_putAll h

theorem nodup_keys_putAll {es t : List (α × β)} (h : (keys t : List κ).Nodup) :
    (keys (putAll es t) : List κ).Nodup := by
  induction es generalizing t with
  | nil => exact h
  | cons e es ih => exact ih (nodup_keys_put e.1 e.2 t h)

theorem nodup_keys_ofList (es : List (α × β)) : (keys (ofList es) : List κ).Nodup :=
  nodup_keys_putAll List.nodup_nil

theorem mem_keys_putAll {k : κ} {es t : List (α × β)} :
    k ∈ (keys (putAll es t) : List κ) ↔ k ∈ (keys es : List κ) ∨ k ∈ (keys t : List κ) := by
  induction es generalizing t with
  | nil => simp [putAll, keys]
  | cons e es ih =>
      have hput : k ∈ (keys (put e.1 e.2 t) : List κ) ↔
          k = Labelled.key e.1 ∨ k ∈ (keys t : List κ) := by
        rw [keys_put]
        split
        · next hmem => exact ⟨.inr, fun h => h.elim (fun hk => hk ▸ hmem) id⟩
        · rw [List.mem_append, List.mem_singleton, or_comm]
      have hstep : putAll (e :: es) t = putAll es (put e.1 e.2 t) := rfl
      rw [hstep, ih, hput, keys_cons e.1 e.2 es, List.mem_cons, or_left_comm, or_assoc]

theorem mem_keys_ofList {k : κ} {es : List (α × β)} :
    k ∈ (keys (ofList es) : List κ) ↔ k ∈ (keys es : List κ) := by
  rw [ofList, mem_keys_putAll]
  simp [keys]

theorem put_of_notMem {a : α} {v : β} {t : List (α × β)} (h : (Labelled.key a : κ) ∉ keys t) :
    put a v t = t ++ [(a, v)] := by
  induction t with
  | nil => rfl
  | cons e rest ih =>
      obtain ⟨b, w⟩ := e
      rw [keys_cons, List.mem_cons, not_or] at h
      rw [put_cons_of_ne a b v w rest (Ne.symm h.1), ih h.2]
      rfl

/-- Entries whose keys are new and distinct are added at the end. -/
theorem putAll_of_nodup {es t : List (α × β)} (h : (keys (t ++ es) : List κ).Nodup) :
    putAll es t = t ++ es := by
  induction es generalizing t with
  | nil => simp [putAll]
  | cons e es ih =>
      have hnew : (Labelled.key e.1 : κ) ∉ keys t := by
        rw [keys, List.map_append, List.map_cons, List.nodup_append] at h
        exact fun hmem => h.2.2 _ hmem _ List.mem_cons_self rfl
      have hput : put e.1 e.2 t = t ++ [e] := put_of_notMem hnew
      rw [putAll, List.foldl_cons, hput, ← putAll, ih (by simpa using h)]
      simp

theorem ofList_of_nodup {es : List (α × β)} (h : (keys es : List κ).Nodup) : ofList es = es :=
  putAll_of_nodup h

theorem ofList_concat (es : List (α × β)) (e : α × β) :
    ofList (es ++ [e]) = put e.1 e.2 (ofList es) := by
  rw [ofList, putAll, List.foldl_concat]
  rfl

theorem keys_ofList (es : List (α × β)) :
    (keys (ofList es) : List κ) = (keys es : List κ).eraseDups := by
  induction es using List.reverseRecOn with
  | nil => rfl
  | append_singleton es e ih =>
      have hkeys : (keys (es ++ [e]) : List κ) = keys es ++ [Labelled.key e.1] := keys_append _ _
      rw [ofList_concat, keys_put, ih, hkeys, eraseDups_concat]
      simp only [List.mem_eraseDups]

theorem find?_append (k : κ) (s t : List (α × β)) :
    find? k (s ++ t) = (find? k s).or (find? k t) := by
  induction s with
  | nil => simp
  | cons e rest ih =>
      obtain ⟨a, v⟩ := e
      rw [List.cons_append, find?_cons, find?_cons, ih]
      split <;> simp

/-- What is found under a key was written last. -/
theorem find?_putAll (k : κ) (es t : List (α × β)) :
    find? k (putAll es t) = (find? k es.reverse).or (find? k t) := by
  induction es generalizing t with
  | nil => simp [putAll]
  | cons e es ih =>
      have hstep : putAll (e :: es) t = putAll es (put e.1 e.2 t) := rfl
      rw [hstep, ih, List.reverse_cons, find?_append, find?_put, find?_cons, find?_nil,
        Option.or_assoc]
      split <;> simp

theorem find?_filter (k : κ) (q : κ → Bool) (t : List (α × β)) :
    find? k (t.filter fun e => q (Labelled.key e.1)) = if q k then find? k t else none := by
  induction t with
  | nil => simp
  | cons e rest ih =>
      obtain ⟨a, v⟩ := e
      rw [List.filter_cons, find?_cons]
      by_cases ha : (Labelled.key a : κ) = k
      · subst ha
        split
        · next hq => rw [find?_cons, if_pos rfl, if_pos rfl]
        · next hq => rw [ih, if_neg hq]
      · rw [if_neg ha]
        split
        · rw [find?_cons, if_neg ha, ih]
        · exact ih

theorem erase_eq_filter (k : κ) (t : List (α × β)) (h : (keys t : List κ).Nodup) :
    erase k t = t.filter fun e => (Labelled.key e.1 : κ) ≠ k := by
  induction t with
  | nil => rfl
  | cons e rest ih =>
      obtain ⟨a, v⟩ := e
      rw [keys_cons, List.nodup_cons] at h
      rw [erase, List.filter_cons]
      by_cases ha : (Labelled.key a : κ) = k
      · rw [if_pos ha, if_neg (by simpa using ha), eq_comm, List.filter_eq_self]
        intro e he
        have hne : (Labelled.key e.1 : κ) ≠ k := fun hk =>
          h.1 (ha.trans hk.symm ▸ List.mem_map.2 ⟨e, he, rfl⟩)
        simpa using hne
      · rw [if_neg ha, if_pos (by simpa using ha), ih h.2]

theorem length_ofList_lt {es : List (α × β)} (h : ¬ (keys es : List κ).Nodup) :
    (ofList es).length < es.length := by
  by_contra hge
  have hsub : (keys (ofList es) : List κ) ⊆ keys es := by
    intro k hk
    obtain ⟨e, he, rfl⟩ := List.mem_map.1 hk
    obtain ⟨⟨w, hw⟩, -⟩ := mem_ofList he
    exact List.mem_map.2 ⟨_, hw, rfl⟩
  have hperm := (List.subperm_of_subset (nodup_keys_ofList es) hsub).perm_of_length_le (by
    rw [length_keys, length_keys]
    omega)
  exact h (hperm.nodup_iff.1 (nodup_keys_ofList es))

theorem length_ofList_le_one_iff {es : List (α × β)} (hes : es ≠ []) :
    (ofList es).length ≤ 1 ↔ ∃ k : κ, ∀ e ∈ es, Labelled.key e.1 = k := by
  have hmem : ∀ e ∈ es, (Labelled.key e.1 : κ) ∈ (keys (ofList es) : List κ) := fun e he =>
    mem_keys_ofList.2 (List.mem_map.2 ⟨e, he, rfl⟩)
  rw [← length_keys (κ := κ) (ofList es)]
  constructor
  · intro hle
    obtain ⟨e, rest, rfl⟩ := List.exists_cons_of_ne_nil hes
    refine ⟨Labelled.key e.1, fun f hf => ?_⟩
    obtain ⟨k, hk⟩ := List.length_eq_one_iff.1
      (Nat.le_antisymm hle (List.length_pos_of_mem (hmem f hf)))
    have hfirst := hmem e List.mem_cons_self
    have hother := hmem f hf
    rw [hk, List.mem_singleton] at hfirst hother
    rw [hfirst, hother]
  · rintro ⟨k, hall⟩
    have hsame : ∀ l ∈ (keys (ofList es) : List κ), l = k := by
      intro l hl
      obtain ⟨e, he, rfl⟩ := List.mem_map.1 (mem_keys_ofList.1 hl)
      exact hall e he
    have hsub : (keys (ofList es) : List κ) ⊆ [k] := fun l hl =>
      List.mem_singleton.2 (hsame l hl)
    exact (List.subperm_of_subset (nodup_keys_ofList es) hsub).length_le

theorem values_ofList_subperm (es : List (α × β)) :
    ((ofList es).map (·.2)).Subperm (es.map (·.2)) := by
  have hput : ∀ (a : α) (v : β) (t : List (α × β)),
      ((put a v t).map (·.2)).Subperm (t.map (·.2) ++ [v]) := by
    intro a v t
    induction t with
    | nil => exact List.Subperm.refl _
    | cons e rest ih =>
        obtain ⟨b, w⟩ := e
        by_cases hb : (Labelled.key b : κ) = Labelled.key a
        · rw [put_cons_of_eq a b v w rest hb]
          exact (List.perm_append_singleton v _).symm.subperm.trans
            (List.sublist_cons_self w _).subperm
        · rw [put_cons_of_ne a b v w rest hb]
          exact (List.subperm_cons w).2 ih
  induction es using List.reverseRecOn with
  | nil => exact List.Subperm.refl _
  | append_singleton es e ih =>
      rw [ofList_concat, List.map_append]
      exact (hput e.1 e.2 (ofList es)).trans ((List.subperm_append_right _).2 ih)

/-! ### Tables as a whole -/

/-- A table with distinct keys is what is found under its keys, in their order. -/
theorem forall₂_keys (t : List (α × β)) (h : (keys t : List κ).Nodup) :
    List.Forall₂ (fun k v => find? k t = some v) (keys t : List κ) (t.map (·.2)) := by
  induction t with
  | nil => exact .nil
  | cons e rest ih =>
      obtain ⟨a, v⟩ := e
      rw [keys_cons, List.nodup_cons] at h
      refine .cons (by simp [find?_cons]) ?_
      refine List.Forall₂.imp ?_ ((List.forall₂_and_left _ _).2 ⟨fun _ hk => hk, ih h.2⟩)
      rintro k w ⟨hk, hfind⟩
      have hne : (Labelled.key a : κ) ≠ k := fun ha => h.1 (ha ▸ hk)
      rw [find?_cons, if_neg hne, hfind]

theorem find?_of_mem {a : α} {v : β} {t : List (α × β)} (h : (keys t : List κ).Nodup)
    (hmem : (a, v) ∈ t) : find? (Labelled.key a : κ) t = some v := by
  induction t with
  | nil => cases hmem
  | cons e rest ih =>
      obtain ⟨b, w⟩ := e
      rw [keys_cons, List.nodup_cons] at h
      rw [find?_cons]
      rcases List.mem_cons.1 hmem with hhead | hrest
      · obtain ⟨rfl, rfl⟩ := Prod.mk.inj hhead
        rw [if_pos rfl]
      · have hkey : (Labelled.key a : κ) ∈ (keys rest : List κ) := List.mem_map.2 ⟨_, hrest, rfl⟩
        rw [if_neg fun (hb : (Labelled.key b : κ) = Labelled.key a) => h.1 (hb ▸ hkey),
          ih h.2 hrest]

theorem exists_of_mem_ofList {es : List (α × β)} {e : α × β} (h : e ∈ ofList es) :
    ∃ a, (Labelled.key a : κ) = Labelled.key e.1 ∧ (a, e.2) ∈ es := by
  have hfound := find?_of_mem (nodup_keys_ofList es) h
  rw [ofList, find?_putAll, find?_nil, Option.or_none] at hfound
  obtain ⟨a, ha, hmem⟩ := exists_of_find? hfound
  exact ⟨a, ha, List.mem_reverse.1 hmem⟩

theorem map_fst_filterMap (labels : List α) (f : α → Option β) :
    (labels.filterMap fun a => (f a).map (Prod.mk a)).map (·.1) =
      labels.filter fun a => (f a).isSome := by
  induction labels with
  | nil => rfl
  | cons a rest ih =>
      rw [List.filterMap_cons, List.filter_cons]
      cases f a with
      | none => exact ih
      | some v => exact congrArg (a :: ·) ih

/-- A table is told by its labels and what is found under them. -/
theorem filterMap_find? {t : List (α × β)} (h : (keys t : List κ).Nodup) :
    (t.map (·.1)).filterMap (fun a => (find? (Labelled.key a : κ) t).map (Prod.mk a)) = t := by
  rw [List.filterMap_map]
  refine Eq.trans (List.filterMap_congr fun e he => ?_) List.filterMap_some
  rw [Function.comp_apply, find?_of_mem h he, Option.map_some]

theorem labels_put_of_mem {a : α} {v : β} {t : List (α × β)}
    (h : (Labelled.key a : κ) ∈ (keys t : List κ)) : (put a v t).map (·.1) = t.map (·.1) := by
  induction t with
  | nil => cases h
  | cons e rest ih =>
      obtain ⟨b, w⟩ := e
      by_cases hb : (Labelled.key b : κ) = Labelled.key a
      · rw [put_cons_of_eq a b v w rest hb]
        rfl
      · rw [keys_cons, List.mem_cons] at h
        rw [put_cons_of_ne a b v w rest hb, List.map_cons, List.map_cons,
          ih (h.resolve_left (Ne.symm hb))]

theorem labels_putAll_of_mem {es t : List (α × β)}
    (h : ∀ e ∈ es, (Labelled.key e.1 : κ) ∈ (keys t : List κ)) :
    (putAll es t).map (·.1) = t.map (·.1) := by
  induction es generalizing t with
  | nil => rfl
  | cons e es ih =>
      have hstep : putAll (e :: es) t = putAll es (put e.1 e.2 t) := rfl
      have hkeep : ∀ d ∈ es, (Labelled.key d.1 : κ) ∈ (keys (put e.1 e.2 t) : List κ) := by
        intro d hd
        rw [keys_put, if_pos (h e List.mem_cons_self)]
        exact h d (List.mem_cons_of_mem e hd)
      rw [hstep, ih hkeep, labels_put_of_mem (h e List.mem_cons_self)]

theorem putAll_putAll (es : List (α × β)) {t : List (α × β)} (h : (keys t : List κ).Nodup) :
    putAll es (putAll es t) = putAll es t := by
  have hlabels : (putAll es (putAll es t)).map (·.1) = (putAll es t).map (·.1) :=
    labels_putAll_of_mem fun e he =>
      mem_keys_putAll.2 (.inl (List.mem_map.2 ⟨e, he, rfl⟩))
  have hfind : ∀ k : κ, find? k (putAll es (putAll es t)) = find? k (putAll es t) := by
    intro k
    rw [find?_putAll, find?_putAll, ← Option.or_assoc, Option.or_self]
  have hnodup : (keys (putAll es t) : List κ).Nodup := nodup_keys_putAll h
  have hagain : (keys (putAll es (putAll es t)) : List κ).Nodup := nodup_keys_putAll hnodup
  rw [← filterMap_find? hagain, hlabels]
  simp only [hfind]
  exact filterMap_find? hnodup

theorem find?_filter_of_mem {a : α} {v : β} {t : List (α × β)} (h : (keys t : List κ).Nodup)
    (hmem : (a, v) ∈ t) (q : α × β → Bool) :
    find? (Labelled.key a : κ) (t.filter q) = if q (a, v) then some v else none := by
  have hfilter : (keys (t.filter q) : List κ).Nodup := h.sublist (List.filter_sublist.map _)
  split
  · next hq => exact find?_of_mem hfilter (List.mem_filter.2 ⟨hmem, hq⟩)
  · next hq =>
      refine find?_eq_none_of_notMem fun hk => ?_
      obtain ⟨⟨b, w⟩, hb, hkey⟩ := List.mem_map.1 hk
      obtain ⟨hb, hqb⟩ := List.mem_filter.1 hb
      have hsame : (b, w) = (a, v) := List.inj_on_of_nodup_map h hb hmem hkey
      exact hq (hsame ▸ hqb)

theorem put_of_find? {a : α} {v : β} {t : List (α × β)}
    (h : find? (Labelled.key a : κ) t = some v) : put a v t = t := by
  induction t with
  | nil => cases h
  | cons e rest ih =>
      obtain ⟨b, w⟩ := e
      rw [find?_cons] at h
      by_cases hb : (Labelled.key b : κ) = Labelled.key a
      · rw [if_pos hb, Option.some.injEq] at h
        rw [put_cons_of_eq a b v w rest hb, h]
      · rw [if_neg hb] at h
        rw [put_cons_of_ne a b v w rest hb, ih h]

theorem put_put (a : α) (v w : β) (t : List (α × β)) : put a v (put a w t) = put a v t := by
  induction t with
  | nil => exact put_cons_of_eq a a v w [] rfl
  | cons e rest ih =>
      obtain ⟨b, x⟩ := e
      by_cases hb : (Labelled.key b : κ) = Labelled.key a
      · rw [put_cons_of_eq a b w x rest hb, put_cons_of_eq a b v w rest hb,
          put_cons_of_eq a b v x rest hb]
      · rw [put_cons_of_ne a b w x rest hb, put_cons_of_ne a b v x (put a w rest) hb, ih,
          put_cons_of_ne a b v x rest hb]

theorem mem_values_put {a : α} {v w x : β} {t : List (α × β)}
    (h : find? (Labelled.key a : κ) t = some w) (hv : x ≠ v) (hw : x ≠ w) :
    x ∈ (put a v t).map (·.2) ↔ x ∈ t.map (·.2) := by
  induction t with
  | nil => cases h
  | cons e rest ih =>
      obtain ⟨b, u⟩ := e
      rw [find?_cons] at h
      by_cases hb : (Labelled.key b : κ) = Labelled.key a
      · rw [if_pos hb, Option.some.injEq] at h
        rw [put_cons_of_eq a b v u rest hb, List.map_cons, List.map_cons, List.mem_cons,
          List.mem_cons, h]
        simp [hv, hw]
      · rw [if_neg hb] at h
        rw [put_cons_of_ne a b v u rest hb, List.map_cons, List.map_cons, List.mem_cons,
          List.mem_cons, ih h]

theorem filter_put {q : κ → Bool} {a : α} (ha : q (Labelled.key a) = false) (v : β)
    (t : List (α × β)) :
    (put a v t).filter (fun e => q (Labelled.key e.1)) =
      t.filter fun e => q (Labelled.key e.1) := by
  induction t with
  | nil =>
      rw [put, List.filter_cons_of_neg (by simp [ha])]
  | cons e rest ih =>
      obtain ⟨b, w⟩ := e
      by_cases hb : (Labelled.key b : κ) = Labelled.key a
      · rw [put_cons_of_eq a b v w rest hb, List.filter_cons_of_neg (by simp [hb, ha]),
          List.filter_cons_of_neg (by simp [hb, ha])]
      · rw [put_cons_of_ne a b v w rest hb, List.filter_cons, List.filter_cons, ih]

/-! ### Other labels -/

section Map

variable {α' κ' γ : Type} [Labelled α' κ'] [DecidableEq κ'] (label : α → α') (key : κ → κ')

theorem find?_map (hkey : ∀ a, Labelled.key (label a) = key (Labelled.key a))
    (hinj : Function.Injective key) (f : β → γ) (k : κ) (t : List (α × β)) :
    find? (key k) (t.map fun e => (label e.1, f e.2)) = (find? k t).map f := by
  induction t with
  | nil => rfl
  | cons e rest ih =>
      obtain ⟨a, v⟩ := e
      rw [List.map_cons, find?_cons, find?_cons, hkey, ih]
      by_cases ha : (Labelled.key a : κ) = k
      · rw [if_pos (congrArg key ha), if_pos ha, Option.map_some]
      · rw [if_neg fun h => ha (hinj h), if_neg ha]

theorem put_map (hkey : ∀ a, Labelled.key (label a) = key (Labelled.key a))
    (hinj : Function.Injective key) (f : β → γ) (a : α) (v : β) (t : List (α × β)) :
    put (label a) (f v) (t.map fun e => (label e.1, f e.2)) =
      (put a v t).map fun e => (label e.1, f e.2) := by
  induction t with
  | nil => rfl
  | cons e rest ih =>
      obtain ⟨b, w⟩ := e
      rw [List.map_cons]
      by_cases hb : (Labelled.key b : κ) = Labelled.key a
      · rw [put_cons_of_eq a b v w rest hb, put_cons_of_eq _ _ _ _ _ (by rw [hkey, hkey, hb])]
        rfl
      · rw [put_cons_of_ne a b v w rest hb,
          put_cons_of_ne _ _ _ _ _ (by rw [hkey, hkey]; exact fun h => hb (hinj h)), ih]
        rfl

end Map

end Table
end KubeAtlas
