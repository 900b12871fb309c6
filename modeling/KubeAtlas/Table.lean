import KubeAtlas.Scalar
/-!
# Tables in insertion order

A table is a list of entries, at most one for each key. Writing under a key that is present keeps
the entry's place and its label and replaces the value; writing under a new key appends. Labels and
keys are told apart because two labels that are spelt differently, such as `1` and `1.0`, may be the
same key.
-/

namespace KubeAtlas

/-- Labels of a table, with the key each of them stands for. -/
class Labelled (α : Type) (κ : outParam Type) where
  key : α → κ

instance : Labelled Key Key := ⟨id⟩
instance : Labelled String String := ⟨id⟩

namespace Table

variable {α κ β : Type} [Labelled α κ] [DecidableEq κ]

def find? (k : κ) : List (α × β) → Option β
  | [] => none
  | (a, v) :: rest => if Labelled.key a = k then some v else find? k rest

def contains (k : κ) (t : List (α × β)) : Bool := (find? k t).isSome

def put (a : α) (v : β) : List (α × β) → List (α × β)
  | [] => [(a, v)]
  | (b, w) :: rest =>
    if (Labelled.key b : κ) = Labelled.key a then (b, v) :: rest else (b, w) :: put a v rest

def erase (k : κ) : List (α × β) → List (α × β)
  | [] => []
  | (a, v) :: rest => if Labelled.key a = k then rest else (a, v) :: erase k rest

def putAll (entries t : List (α × β)) : List (α × β) := entries.foldl (fun t e => put e.1 e.2 t) t

/-- The table that entries written one after the other make. -/
def ofList (entries : List (α × β)) : List (α × β) := putAll entries []

def keys (t : List (α × β)) : List κ := t.map fun e => Labelled.key e.1

@[simp] theorem find?_nil (k : κ) : find? k ([] : List (α × β)) = none := rfl

theorem find?_cons (k : κ) (a : α) (v : β) (t : List (α × β)) :
    find? k ((a, v) :: t) = if Labelled.key a = k then some v else find? k t := rfl

theorem put_cons_of_eq (a b : α) (v w : β) (rest : List (α × β))
    (h : (Labelled.key b : κ) = Labelled.key a) :
    put a v ((b, w) :: rest) = (b, v) :: rest := by
  rw [put, if_pos h]

theorem put_cons_of_ne (a b : α) (v w : β) (rest : List (α × β))
    (h : (Labelled.key b : κ) ≠ Labelled.key a) :
    put a v ((b, w) :: rest) = (b, w) :: put a v rest := by
  rw [put, if_neg h]

/-- What a write changes: the value under its own key. -/
theorem find?_put (k : κ) (a : α) (v : β) (t : List (α × β)) :
    find? k (put a v t) = if Labelled.key a = k then some v else find? k t := by
  induction t with
  | nil => simp [put, find?]
  | cons e rest ih =>
    obtain ⟨b, w⟩ := e
    by_cases hb : (Labelled.key b : κ) = Labelled.key a
    · rw [put_cons_of_eq a b v w rest hb, find?_cons, find?_cons, hb]
      split <;> rfl
    · rw [put_cons_of_ne a b v w rest hb, find?_cons, find?_cons, ih]
      split
      · next hk => rw [if_neg (fun h => hb (hk.trans h.symm))]
      · rfl

theorem keys_put (a : α) (v : β) (t : List (α × β)) :
    keys (put a v t) = if (Labelled.key a : κ) ∈ keys t then keys t
      else keys t ++ [Labelled.key a] := by
  induction t with
  | nil => simp [put, keys]
  | cons e rest ih =>
    obtain ⟨b, w⟩ := e
    by_cases hb : (Labelled.key b : κ) = Labelled.key a
    · rw [put_cons_of_eq a b v w rest hb]
      simp [keys, hb]
    · rw [put_cons_of_ne a b v w rest hb]
      have hne : ¬ (Labelled.key a : κ) = Labelled.key b := fun h => hb h.symm
      have hcons : keys ((b, w) :: put a v rest)
          = (Labelled.key b : κ) :: keys (put a v rest) := rfl
      have hcons' : keys ((b, w) :: rest) = (Labelled.key b : κ) :: keys rest := rfl
      rw [hcons, hcons', ih]
      by_cases hmem : (Labelled.key a : κ) ∈ keys rest <;> simp [hmem, hne]

theorem nodup_keys_put (a : α) (v : β) (t : List (α × β)) (h : (keys t).Nodup) :
    (keys (put a v t)).Nodup := by
  rw [keys_put]
  split
  · exact h
  · next hmem =>
    exact List.nodup_append.2 ⟨h, by simp, by
      rintro x hx y hy rfl
      simp only [List.mem_singleton] at hy
      exact hmem (hy ▸ hx)⟩

end Table
end KubeAtlas
