import KubeAtlas.Proofs.Url.Address
/-!
# The order of a query

Each piece of a query is read by itself: what is left of it without tabs and line breaks gives a
name with a value, or nothing. So a query whose pieces are put in another order has the same pairs
in that order, and pieces of one name that stay in their order leave the values of that name as they
were.
-/

namespace KubeAtlas.Url

def pair? (piece : List Char) : Option (String × String) :=
  match Text.splitFirst? '=' piece with
  | some (name, value) =>
    if value.isEmpty then none else some (component name, component value)
  | none => none

def pieceName (piece : List Char) : String :=
  component ((piece.filter isKept).takeWhile (· != '='))

def keptPair? (piece : List Char) : Option (String × String) := pair? (piece.filter isKept)

/-- An address with these pieces for its query, between what stands before and after it. -/
def withPieces (front : List Char) (pieces : List (List Char)) (tail : List Char) : String :=
  String.ofList (front ++ '?' :: (['&'].intercalate pieces ++ tail))

/-- Two addresses that differ in the order of the pieces of the query at most. The pieces of each
name are the same in the same order. -/
inductive Reorders : String → String → Prop
  | refl (url : String) : Reorders url url
  | query {front tail : List Char} {ps qs : List (List Char)} (hhash : '#' ∉ front)
      (hmark : '?' ∉ front) (htail : tail = [] ∨ tail.head? = some '#')
      (hps : ∀ p ∈ ps, '&' ∉ p ∧ '#' ∉ p) (hperm : ps.Perm qs)
      (hsame : ∀ name, ps.filter (pieceName · = name) = qs.filter (pieceName · = name)) :
      Reorders (withPieces front ps tail) (withPieces front qs tail)

/-- Two lists of pairs with the same values in the same order for each name. -/
def SameByName (pairs others : List (String × String)) : Prop :=
  ∀ name, pairs.filter (·.1 == name) = others.filter (·.1 == name)

theorem pairs_eq (query : List Char) : pairs query = (Text.splitAll '&' query).filterMap pair? :=
  rfl

theorem pairs_pieces {pieces : List (List Char)} (hpieces : ∀ piece ∈ pieces, '&' ∉ piece) :
    pairs ((['&'].intercalate pieces).filter isKept) =
      pieces.filterMap keptPair? := by
  by_cases hne : pieces = []
  · subst hne
    rfl
  · have hkept : ∀ piece ∈ pieces.map (·.filter isKept), '&' ∉ piece := by
      intro piece hpiece
      obtain ⟨whole, hwhole, rfl⟩ := List.mem_map.1 hpiece
      exact fun h => hpieces whole hwhole (List.mem_filter.1 h).1
    rw [Text.filter_intercalate (by decide), pairs_eq,
      Text.splitAll_intercalate hkept (by simpa using hne), List.filterMap_map]
    rfl

theorem fst_of_pair? {piece : List Char} {e : String × String} (h : pair? piece = some e) :
    e.1 = component (piece.takeWhile (· != '=')) := by
  rw [pair?] at h
  split at h
  · next name value hsplit =>
      obtain ⟨rfl, hname⟩ := Text.splitFirst?_eq_some_iff.1 hsplit
      split at h
      · contradiction
      · obtain rfl := Option.some.inj h
        rw [Text.takeWhile_ne_append hname (.inr rfl)]
  · contradiction

theorem filter_pairs (pieces : List (List Char)) (name : String) :
    (pieces.filterMap keptPair?).filter (·.1 == name) =
      (pieces.filter (pieceName · = name)).filterMap keptPair? := by
  induction pieces with
  | nil => rfl
  | cons piece pieces ih =>
      cases hpair : keptPair? piece with
      | none =>
          rw [List.filterMap_cons_none hpair, ih, List.filter_cons]
          split
          · rw [List.filterMap_cons_none hpair]
          · rfl
      | some e =>
          have hname : e.1 = pieceName piece := fst_of_pair? hpair
          rw [List.filterMap_cons_some hpair, List.filter_cons, List.filter_cons, ih, hname]
          by_cases heq : pieceName piece = name
          · rw [if_pos (by simpa using heq), if_pos (by simpa using heq),
              List.filterMap_cons_some hpair]
          · rw [if_neg (by simpa using heq), if_neg (by simpa using heq)]

theorem sameByName_pairs {ps qs : List (List Char)}
    (hsame : ∀ name, ps.filter (pieceName · = name) = qs.filter (pieceName · = name)) :
    SameByName (ps.filterMap keptPair?) (qs.filterMap keptPair?) := by
  intro name
  rw [filter_pairs, filter_pairs, hsame]

/-- **Reordered addresses are read alike**: both are refused with the same error, or they have one
path and the same values for each name. -/
theorem Reorders.read {url other : String} (h : Reorders url other) :
    (∃ e, Address.read url = .error e ∧ Address.read other = .error e) ∨
      ∃ a b, Address.read url = .ok a ∧ Address.read other = .ok b ∧ a.path = b.path ∧
        SameByName a.query b.query := by
  cases h with
  | refl =>
      cases hread : Address.read url with
      | error e => exact .inl ⟨e, rfl, rfl⟩
      | ok a => exact .inr ⟨a, a, rfl, rfl, rfl, fun _ => rfl⟩
  | @query front tail ps qs hhash hmark htail hps hperm hsame =>
      have hqs : ∀ q ∈ qs, '&' ∉ q ∧ '#' ∉ q := fun q hq => hps q (hperm.mem_iff.2 hq)
      have hreads : ∀ pieces : List (List Char), (∀ p ∈ pieces, '&' ∉ p ∧ '#' ∉ p) →
          Address.read (withPieces front pieces tail) =
            (Address.read (String.ofList front)).map fun a =>
              { a with query := pieces.filterMap keptPair? } := by
        intro pieces hpieces
        have hquery : '#' ∉ ['&'].intercalate pieces :=
          Text.not_mem_intercalate (by decide) fun p hp => (hpieces p hp).2
        rw [withPieces, read_append hhash hmark hquery htail,
          pairs_pieces fun p hp => (hpieces p hp).1]
      rw [hreads ps hps, hreads qs hqs]
      cases Address.read (String.ofList front) with
      | error e => exact .inl ⟨e, rfl, rfl⟩
      | ok a => exact .inr ⟨_, _, rfl, rfl, rfl, sameByName_pairs hsame⟩

end KubeAtlas.Url
