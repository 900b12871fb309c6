import KubeAtlas.Proofs.Except
import KubeAtlas.Proofs.Text.Split
import KubeAtlas.Url.Address
/-!
# The path and the query of an address

An address is read from the left. Its scheme and its authority end before the first question mark,
so that the query has no say in them, nor in whether the address is refused: it is read by itself,
and the rest as if there were none.
-/

namespace KubeAtlas.Url

/-- Whether a character can be part of an address: all but tabs and line breaks. -/
def isKept (c : Char) : Bool := !(c == '\t' || c == '\r' || c == '\n')

def cleaned (s : List Char) : List Char := (s.dropWhile fun c => c.toNat ≤ 32).filter isKept

def partsOf (s : List Char) : List Char × List Char × List Char :=
  ((splitScheme s).1, splitAuthority (splitScheme s).2)

def accept (authority : List Char) : Except Error Unit := do
  checkAuthority authority
  if authority.any becomesDelimiter then throw (.normalization (String.ofList authority))

def locate (scheme rest : List Char) : Address :=
  let parts := (Text.splitFirst? '?' (rest.takeWhile (· != '#'))).getD
    (rest.takeWhile (· != '#'), [])
  let path := if schemesWithParameters.contains (String.ofList scheme) then dropParameters parts.1
    else parts.1
  ⟨String.ofList path, pairs parts.2⟩

theorem read_eq (text : String) : Address.read text =
    accept (partsOf (cleaned text.toList)).2.1 >>= fun _ =>
      pure (locate (partsOf (cleaned text.toList)).1 (partsOf (cleaned text.toList)).2.2) := by
  rw [accept, bind_assoc]
  show checkAuthority (partsOf (cleaned text.toList)).2.1 >>= _ = _
  refine bind_congr fun _ => ?_
  by_cases hnormal : (partsOf (cleaned text.toList)).2.1.any becomesDelimiter = true
  · exact (if_pos hnormal).trans (by rw [if_pos hnormal]; rfl)
  · exact (if_neg hnormal).trans (by rw [if_neg hnormal]; rfl)

/-! ### Reading from the left -/

variable {front query tail : List Char}

theorem cleaned_append (front rest : List Char) :
    cleaned (front ++ '?' :: rest) = cleaned front ++ '?' :: rest.filter isKept := by
  have hmark : (decide ('?'.toNat ≤ 32)) = false := by decide
  have hkept : isKept '?' = true := by decide
  rw [cleaned, Text.dropWhile_append_cons (p := fun c : Char => decide (c.toNat ≤ 32)) hmark,
    List.filter_append, List.filter_cons_of_pos hkept]
  rfl

theorem splitScheme_append (front rest : List Char) :
    splitScheme (front ++ '?' :: rest) =
      ((splitScheme front).1, (splitScheme front).2 ++ '?' :: rest) := by
  cases hfront : Text.splitFirst? ':' front with
  | some parts =>
      obtain ⟨scheme, after⟩ := parts
      obtain ⟨rfl, hscheme⟩ := Text.splitFirst?_eq_some_iff.1 hfront
      have hwhole : Text.splitFirst? ':' (scheme ++ ':' :: after ++ '?' :: rest) =
          some (scheme, after ++ '?' :: rest) :=
        Text.splitFirst?_eq_some_iff.2 ⟨by simp, hscheme⟩
      rw [splitScheme, splitScheme, hwhole, hfront]
      simp only
      split <;> rfl
  | none =>
      have hnone := Text.splitFirst?_eq_none_iff.1 hfront
      have hcolon : splitScheme front = ([], front) := by rw [splitScheme, hfront]
      rw [hcolon, splitScheme]
      cases hwhole : Text.splitFirst? ':' (front ++ '?' :: rest) with
      | none => rfl
      | some parts =>
          -- a scheme that reaches beyond the question mark is none
          obtain ⟨scheme, after⟩ := parts
          obtain ⟨hsplit, -⟩ := Text.splitFirst?_eq_some_iff.1 hwhole
          have hmark : '?' ∈ scheme := by
            rcases List.append_eq_append_iff.1 hsplit with ⟨more, rfl, hmore⟩ | ⟨more, rfl, hmore⟩
            · cases more with
              | nil => simp at hmore
              | cons c more =>
                  obtain ⟨rfl, -⟩ := List.cons.inj hmore
                  exact List.mem_append_right _ List.mem_cons_self
            · cases more with
              | nil => simp at hmore
              | cons c more =>
                  obtain ⟨rfl, -⟩ := List.cons.inj hmore
                  exact absurd (List.mem_append_right _ List.mem_cons_self) hnone
          have hnot : scheme.all isSchemeChar = false := by
            rw [List.all_eq_false]
            exact ⟨'?', hmark, by decide⟩
          simp [hnot]

theorem splitAuthority_of_not {s : List Char} (hs : ∀ host, s ≠ '/' :: '/' :: host) :
    splitAuthority s = ([], s) := by
  rw [splitAuthority.eq_def]
  split
  · exact absurd rfl (hs _)
  · rfl

theorem splitAuthority_append (front rest : List Char) :
    splitAuthority (front ++ '?' :: rest) =
      ((splitAuthority front).1, (splitAuthority front).2 ++ '?' :: rest) := by
  by_cases hslashes : ∃ host, front = '/' :: '/' :: host
  · obtain ⟨host, rfl⟩ := hslashes
    let inside := fun c : Char => !(c == '/' || c == '?' || c == '#')
    have hmark : inside '?' = false := by decide
    exact Prod.ext (Text.takeWhile_append_cons hmark _ _) (Text.dropWhile_append_cons hmark _ _)
  · have hfront : ∀ host, front ≠ '/' :: '/' :: host := fun host h => hslashes ⟨host, h⟩
    have hwhole : ∀ host, front ++ '?' :: rest ≠ '/' :: '/' :: host := by
      intro host h
      match front with
      | [] => simp at h
      | [c] => simp at h
      | c :: d :: more =>
          simp only [List.cons_append, List.cons.injEq] at h
          exact hfront more (by rw [h.1, h.2.1])
    rw [splitAuthority_of_not hfront, splitAuthority_of_not hwhole]

theorem partsOf_append (front rest : List Char) :
    partsOf (front ++ '?' :: rest) =
      ((partsOf front).1, (partsOf front).2.1, (partsOf front).2.2 ++ '?' :: rest) := by
  rw [partsOf, splitScheme_append]
  exact congrArg (Prod.mk _) (splitAuthority_append _ rest)

/-- The path ends at the first question mark, and the query at the fragment. -/
theorem locate_append (hhash : '#' ∉ front) (hmark : '?' ∉ front) (hquery : '#' ∉ query)
    (htail : tail = [] ∨ tail.head? = some '#') (scheme : List Char) :
    locate scheme (front ++ '?' :: (query ++ tail)) =
      { locate scheme front with query := pairs query } := by
  have hfront : front.takeWhile (· != '#') = front := by
    simpa using Text.takeWhile_ne_append hhash (.inl rfl)
  have hwhole : (front ++ '?' :: (query ++ tail)).takeWhile (· != '#') = front ++ '?' :: query := by
    have hnone : '#' ∉ front ++ '?' :: query := by simp [hhash, hquery]
    simpa using Text.takeWhile_ne_append hnone htail
  rw [locate, locate, hfront, hwhole, Text.splitFirst?_eq_none_iff.2 hmark,
    Text.splitFirst?_eq_some_iff.2 ⟨rfl, hmark⟩]
  rfl

/-! ### Nothing is added -/

theorem splitScheme_subset (s : List Char) : (splitScheme s).2 ⊆ s := by
  rw [splitScheme]
  split
  · next scheme rest hsplit =>
      obtain ⟨rfl, -⟩ := Text.splitFirst?_eq_some_iff.1 hsplit
      split
      · exact fun c hc => by simp [hc]
      · exact fun c hc => hc
  · exact fun c hc => hc

theorem splitAuthority_subset (s : List Char) : (splitAuthority s).2 ⊆ s := by
  rw [splitAuthority.eq_def]
  split
  · next host =>
      intro c hc
      exact List.mem_cons_of_mem _ (List.mem_cons_of_mem _ ((List.dropWhile_sublist _).subset hc))
  · exact fun c hc => hc

theorem partsOf_subset (s : List Char) : (partsOf s).2.2 ⊆ s :=
  fun _ hc => splitScheme_subset s (splitAuthority_subset _ hc)

theorem dropParameters_subset (path : List Char) : dropParameters path ⊆ path := by
  intro c hc
  rw [dropParameters] at hc
  rcases List.mem_append.1 hc with hbefore | hsegment
  · exact List.mem_of_mem_take hbefore
  · have hlast := (List.takeWhile_sublist _).subset hsegment
    rw [List.mem_reverse] at hlast
    exact List.mem_reverse.1 ((List.takeWhile_sublist _).subset hlast)

theorem locate_subset (scheme rest : List Char) : (locate scheme rest).path.toList ⊆ rest := by
  have hpath : ((Text.splitFirst? '?' (rest.takeWhile (· != '#'))).getD
      (rest.takeWhile (· != '#'), [])).1 ⊆ rest := by
    intro c hc
    refine (List.takeWhile_sublist (· != '#')).subset ?_
    cases hsplit : Text.splitFirst? '?' (rest.takeWhile (· != '#')) with
    | none =>
        rw [hsplit] at hc
        exact hc
    | some parts =>
        obtain ⟨before, after⟩ := parts
        rw [hsplit] at hc
        rw [(Text.splitFirst?_eq_some_iff.1 hsplit).1]
        exact List.mem_append_left _ hc
  intro c hc
  rw [locate, String.toList_ofList] at hc
  split at hc
  · exact hpath (dropParameters_subset _ hc)
  · exact hpath hc

theorem isKept_of_mem_path {text : String} {a : Address} (hread : Address.read text = .ok a) :
    ∀ c ∈ a.path.toList, isKept c = true := by
  rw [read_eq] at hread
  obtain ⟨_, -, hread⟩ := bind_eq_ok_iff.1 hread
  obtain rfl := Except.ok.inj hread
  intro c hc
  have hmem := partsOf_subset _ (locate_subset _ _ hc)
  exact (List.mem_filter.1 hmem).2

/-- **The query is read by itself**, and the rest of the address as if there were none. -/
theorem read_append (hhash : '#' ∉ front) (hmark : '?' ∉ front) (hquery : '#' ∉ query)
    (htail : tail = [] ∨ tail.head? = some '#') :
    Address.read (String.ofList (front ++ '?' :: (query ++ tail))) =
      (Address.read (String.ofList front)).map fun a =>
        { a with query := pairs (query.filter isKept) } := by
  have hfront : ∀ c ∈ (partsOf (cleaned front)).2.2, c ∈ front := by
    intro c hc
    exact (List.dropWhile_sublist _).subset (List.mem_filter.1 (partsOf_subset _ hc)).1
  have htail' : tail.filter isKept = [] ∨ (tail.filter isKept).head? = some '#' := by
    refine htail.imp (fun h => by rw [h]; rfl) fun h => ?_
    obtain ⟨fragment, rfl⟩ := List.head?_eq_some_iff.1 h
    rfl
  have hquery' : '#' ∉ query.filter isKept := fun h => hquery (List.mem_filter.1 h).1
  rw [read_eq, read_eq, String.toList_ofList, String.toList_ofList, cleaned_append, partsOf_append,
    List.filter_append, locate_append (mt (hfront _) hhash) (mt (hfront _) hmark) hquery' htail']
  cases accept (partsOf (cleaned front)).2.1 <;> rfl

end KubeAtlas.Url
