import Mathlib
import KubeAtlas.Proofs.Api.Secret
import KubeAtlas.Proofs.Text.Upper
import KubeAtlas.Proofs.Text.Utf8
import KubeAtlas.Proofs.Url.Query
/-!
# What a signature stands for

A signature is a digest of one message, so it says as much about a request as that message does. The
query enters it name by name, in the order of the names: the order in which an address lists them is
lost, and of the values of one name only the first is left (`header_canonical`). The parts are
divided by line feeds and carry no lengths. All but the body are on lines of their own, which is
what lets the body be found between them (`message_binds`).
-/

namespace KubeAtlas.Api

/-! ### The signed part of a query -/

def keepFirst (seen : List (String × String)) (e : String × String) : List (String × String) :=
  if seen.any (·.1 == e.1) then seen else seen ++ [e]

def nameLe (a b : String × String) : Bool := a.1 < b.1 || a.1 == b.1

theorem signedQuery_eq (query : List (String × String)) :
    signedQuery query = (query.foldl keepFirst []).mergeSort nameLe := rfl

variable {seen query : List (String × String)}

theorem nodup_keepFirst (hseen : (seen.map (·.1)).Nodup) (e : String × String) :
    ((keepFirst seen e).map (·.1)).Nodup := by
  rw [keepFirst]
  split
  · exact hseen
  · next hany =>
      have hnew : e.1 ∉ seen.map (·.1) := by
        intro hmem
        obtain ⟨d, hd, hname⟩ := List.mem_map.1 hmem
        exact hany (List.any_eq_true.2 ⟨d, hd, by simpa using hname⟩)
      rw [List.map_append]
      exact List.nodup_append'.2
        ⟨hseen, List.nodup_singleton _, by simpa [List.disjoint_singleton] using hnew⟩

theorem find?_keepFirst (e : String × String) (name : String) :
    (keepFirst seen e).find? (·.1 == name) = (seen ++ [e]).find? (·.1 == name) := by
  rw [keepFirst]
  split
  · next hany =>
      obtain ⟨d, hd, hname⟩ := List.any_eq_true.1 hany
      rw [List.find?_append]
      by_cases he : e.1 = name
      · have hfound : (seen.find? (·.1 == name)).isSome := by
          rw [List.find?_isSome]
          exact ⟨d, hd, by simpa [← he] using hname⟩
        rw [Option.or_of_isSome hfound]
      · rw [List.find?_singleton, if_neg (by simpa using he), Option.or_none]
  · rfl

theorem nodup_foldl_keepFirst (hseen : (seen.map (·.1)).Nodup) :
    ((query.foldl keepFirst seen).map (·.1)).Nodup := by
  induction query generalizing seen with
  | nil => exact hseen
  | cons e query ih => exact ih (nodup_keepFirst hseen e)

theorem nodup_names (query : List (String × String)) :
    ((query.foldl keepFirst []).map (·.1)).Nodup :=
  nodup_foldl_keepFirst List.Pairwise.nil

theorem find?_foldl_keepFirst (name : String) :
    (query.foldl keepFirst seen).find? (·.1 == name) = (seen ++ query).find? (·.1 == name) := by
  induction query generalizing seen with
  | nil => rw [List.append_nil, List.foldl_nil]
  | cons e query ih =>
      rw [List.foldl_cons, ih, List.find?_append, find?_keepFirst, ← List.find?_append,
        List.append_assoc, List.singleton_append]

theorem mem_iff_find? (hseen : (seen.map (·.1)).Nodup) (e : String × String) :
    e ∈ seen ↔ seen.find? (·.1 == e.1) = some e := by
  refine ⟨fun hmem => ?_, List.mem_of_find?_eq_some⟩
  have hsome : (seen.find? (·.1 == e.1)).isSome :=
    List.find?_isSome.2 ⟨e, hmem, beq_self_eq_true e.1⟩
  obtain ⟨d, hd⟩ := Option.isSome_iff_exists.1 hsome
  have hname : d.1 = e.1 := by simpa using List.find?_some hd
  rw [hd, List.inj_on_of_nodup_map hseen (List.mem_of_find?_eq_some hd) hmem hname]

theorem mem_signedQuery (e : String × String) :
    e ∈ signedQuery query ↔ query.find? (·.1 == e.1) = some e := by
  rw [signedQuery_eq, (List.mergeSort_perm _ _).mem_iff,
    mem_iff_find? (nodup_names query), find?_foldl_keepFirst, List.nil_append]

/-- The names that are signed are in order, and each is there once. -/
theorem signedQuery_sorted (query : List (String × String)) :
    (signedQuery query).Pairwise fun a b => a.1 < b.1 := by
  have hle : (signedQuery query).Pairwise fun a b => nameLe a b = true := by
    refine List.pairwise_mergeSort ?_ ?_ _
    · intro a b c hab hbc
      simp only [nameLe, Bool.or_eq_true, decide_eq_true_eq, beq_iff_eq] at hab hbc ⊢
      exact le_iff_lt_or_eq.1 ((le_iff_lt_or_eq.2 hab).trans (le_iff_lt_or_eq.2 hbc))
    · intro a b
      simp only [nameLe, Bool.or_eq_true, decide_eq_true_eq, beq_iff_eq]
      exact (le_total a.1 b.1).imp le_iff_lt_or_eq.1 le_iff_lt_or_eq.1
  have hnodup : ((signedQuery query).map (·.1)).Nodup :=
    ((List.mergeSort_perm _ nameLe).map _).nodup_iff.2 (nodup_names query)
  refine hle.imp₂ (fun a b hab hne => ?_) (List.pairwise_map.1 hnodup)
  simp only [nameLe, Bool.or_eq_true, decide_eq_true_eq, beq_iff_eq] at hab
  exact hab.resolve_right hne

/-- What is signed of a query depends on the values of each name alone. -/
theorem signedQuery_eq_of_sameByName {query other : List (String × String)}
    (h : Url.SameByName query other) : signedQuery query = signedQuery other := by
  have hmem : ∀ e, e ∈ signedQuery query ↔ e ∈ signedQuery other := by
    intro e
    rw [mem_signedQuery, mem_signedQuery, ← List.head?_filter, ← List.head?_filter, h e.1]
  have hnodup : ∀ q, (signedQuery q).Nodup := by
    intro q
    refine (signedQuery_sorted q).imp fun hlt heq => ?_
    exact lt_irrefl _ (heq ▸ hlt)
  refine ((List.perm_ext_iff_of_nodup (hnodup _) (hnodup _)).2 hmem).eq_of_pairwise ?_
    (signedQuery_sorted _) (signedQuery_sorted _)
  intro a b _ _ hab hba
  exact absurd hba (lt_asymm hab)

/-! ### One header -/

theorem signed_of_upper {method spelt : String} (h : Text.upper method = Text.upper spelt)
    (path : String) (body : List UInt8) (query : List (String × String)) (expires : Int)
    (key : String) (secret : List UInt8) :
    Signed.message ⟨method, path, body, query, expires⟩ =
        Signed.message ⟨spelt, path, body, query, expires⟩ ∧
      Signed.header ⟨method, path, body, query, expires⟩ key secret =
        Signed.header ⟨spelt, path, body, query, expires⟩ key secret := by
  have hmessage : Signed.message ⟨method, path, body, query, expires⟩ =
      Signed.message ⟨spelt, path, body, query, expires⟩ := by
    rw [Signed.message, Signed.message, h]
  exact ⟨hmessage, by rw [Signed.header_eq, Signed.header_eq, hmessage]⟩

/-- **The signature is canonical.** A method in whatever letters, and an address with its query in
whatever order as long as the values of one name stay in theirs: both are refused alike, or they are
signed alike, with the same names in increasing order. -/
theorem header_canonical {url other : String} (hurl : Url.Reorders url other)
    {method spelt : String}
    (hmethod : method.toList.map Char.toLower = spelt.toList.map Char.toLower)
    (key : String) (secret body : List UInt8) (expires : Int) :
    (∃ e, Signed.ofUrl method url body expires = .error e ∧
        Signed.ofUrl spelt other body expires = .error e) ∨
      ∃ s t, Signed.ofUrl method url body expires = .ok s ∧
        Signed.ofUrl spelt other body expires = .ok t ∧
        s.query.map (·.1) = t.query.map (·.1) ∧ (s.query.map (·.1)).Pairwise (· < ·) ∧
        Crypto.hmac secret s.message = Crypto.hmac secret t.message ∧
        s.header key secret = t.header key secret := by
  rcases hurl.read with ⟨e, hread, hother⟩ | ⟨a, b, hread, hother, hpath, hsame⟩
  · exact .inl ⟨e, by rw [Signed.ofUrl, hread]; rfl, by rw [Signed.ofUrl, hother]; rfl⟩
  · have hquery := signedQuery_eq_of_sameByName hsame
    have hs : Signed.ofUrl method url body expires =
        .ok ⟨method, a.path, body, signedQuery a.query, expires⟩ := by
      rw [Signed.ofUrl, hread]
      rfl
    have ht : Signed.ofUrl spelt other body expires =
        .ok ⟨spelt, a.path, body, signedQuery a.query, expires⟩ := by
      rw [Signed.ofUrl, hother, hpath, hquery]
      rfl
    obtain ⟨hmessage, hheader⟩ := signed_of_upper (Text.upper_eq_of_toLower hmethod) a.path body
      (signedQuery a.query) expires key secret
    have hsorted := List.pairwise_map.2 (signedQuery_sorted a.query)
    exact .inr ⟨_, _, hs, ht, rfl, hsorted, congrArg (Crypto.hmac secret) hmessage, hheader⟩

theorem header_canonical_letters :
    (∃ e, Signed.ofUrl "get" "https://h/p?b=2&a=1&a=3#f" [] 9 = .error e ∧
        Signed.ofUrl "GET" "https://h/p?a=1&b=2&a=3#f" [] 9 = .error e) ∨
      ∃ s t, Signed.ofUrl "get" "https://h/p?b=2&a=1&a=3#f" [] 9 = .ok s ∧
        Signed.ofUrl "GET" "https://h/p?a=1&b=2&a=3#f" [] 9 = .ok t ∧
        s.query.map (·.1) = t.query.map (·.1) ∧ (s.query.map (·.1)).Pairwise (· < ·) ∧
        Crypto.hmac [1] s.message = Crypto.hmac [1] t.message ∧
        s.header "k" [1] = t.header "k" [1] := by
  have hnames : Url.pieceName "a=1".toList = "a" ∧ Url.pieceName "a=3".toList = "a" ∧
      Url.pieceName "b=2".toList = "b" := by decide +kernel
  have hsame : ∀ name,
      ["b=2".toList, "a=1".toList, "a=3".toList].filter (Url.pieceName · = name) =
        ["a=1".toList, "b=2".toList, "a=3".toList].filter (Url.pieceName · = name) := by
    intro name
    simp only [List.filter_cons, List.filter_nil, hnames]
    by_cases hb : "b" = name
    · subst hb
      rfl
    · simp [hb]
  have hurl : Url.Reorders "https://h/p?b=2&a=1&a=3#f" "https://h/p?a=1&b=2&a=3#f" :=
    @Url.Reorders.query "https://h/p".toList "#f".toList _ _ (by decide) (by decide) (.inr rfl)
      (by decide) (.swap _ _ _) hsame
  exact header_canonical hurl (by decide) "k" [1] [] 9

/-! ### One request -/

def line (t : String) : List UInt8 := Text.Utf8.encode t.toList

theorem line_injective {t u : String} (h : line t = line u) : t = u :=
  String.toList_injective (Text.Utf8.encode_injective h)

theorem not_mem_line {t : String} (ht : '\n' ∉ t.toList) : (10 : UInt8) ∉ line t := by
  rw [line, Text.Utf8.mem_encode_iff (by decide)]
  rintro ⟨c, hc, hten⟩
  have hbreak : c = '\n' := Char.toNat_inj.1 hten
  exact ht (hbreak ▸ hc)

theorem not_mem_toString (n : Int) : '\n' ∉ (toString n).toList := by
  have hdigits : ∀ k : Nat, '\n' ∉ k.repr.toList := by
    intro k hmem
    rw [Nat.toList_repr] at hmem
    exact absurd (Nat.isDigit_of_mem_toDigits (by decide) (by decide) hmem) (by decide)
  rw [Int.toString_eq_repr, Int.repr_eq_if]
  split
  · exact hdigits _
  · rw [String.toList_append, List.mem_append, not_or]
    exact ⟨by decide, hdigits _⟩

namespace Signed

theorem message_eq (s : Signed) : s.message =
    line (Text.upper s.method ++ " " ++ s.path) ++ 10 :: s.body ++
      10 :: line (String.join (s.query.map (·.2))) ++ 10 :: 10 :: line (toString s.expires) := rfl

/-- Whether the parts of a request that stand on a line fit on one, and the method ends where it
seems to. -/
structure OnLines (s : Signed) : Prop where
  method_space : ' ' ∉ s.method.toList
  method_break : '\n' ∉ s.method.toList
  path_break : '\n' ∉ s.path.toList
  values_break : ∀ e ∈ s.query, '\n' ∉ e.2.toList

variable {s t : Signed}

theorem OnLines.upper_space (h : s.OnLines) : ' ' ∉ (Text.upper s.method).toList :=
  fun hmem => h.method_space (Text.mem_of_mem_upper hmem (by decide) (by decide))

theorem OnLines.first_break (h : s.OnLines) :
    '\n' ∉ (Text.upper s.method ++ " " ++ s.path).toList := by
  have hmethod : '\n' ∉ (Text.upper s.method).toList :=
    fun hmem => h.method_break (Text.mem_of_mem_upper hmem (by decide) (by decide))
  simp [hmethod, h.path_break]

theorem OnLines.joined_break (h : s.OnLines) : '\n' ∉ (String.join (s.query.map (·.2))).toList := by
  rw [String.toList_join, List.flatMap_map, List.mem_flatMap]
  exact fun ⟨e, he, hmem⟩ => h.values_break e he hmem

theorem OnLines.first_inj (hs : s.OnLines) (ht : t.OnLines)
    (h : Text.upper s.method ++ " " ++ s.path = Text.upper t.method ++ " " ++ t.path) :
    Text.upper s.method = Text.upper t.method ∧ s.path = t.path := by
  have hlist : (Text.upper s.method).toList ++ ' ' :: s.path.toList =
      (Text.upper t.method).toList ++ ' ' :: t.path.toList := by
    simpa using congrArg String.toList h
  obtain ⟨hmethod, hpath⟩ := Text.append_cons_inj hs.upper_space ht.upper_space hlist
  exact ⟨String.toList_injective hmethod, String.toList_injective hpath⟩

/-- The parts are found again in the message: the first line from the front, the last three from the
back, and the body between them. -/
theorem OnLines.message_inj (hs : s.OnLines) (ht : t.OnLines) (h : s.message = t.message) :
    Text.upper s.method = Text.upper t.method ∧ s.path = t.path ∧ s.body = t.body ∧
      String.join (s.query.map (·.2)) = String.join (t.query.map (·.2)) ∧
      s.expires = t.expires := by
  rw [message_eq, message_eq, List.append_cons _ 10 (10 :: _), List.append_cons _ 10 (10 :: _)] at h
  obtain ⟨hfront, hexpires⟩ := Text.append_cons_inj_right (not_mem_line (not_mem_toString _))
    (not_mem_line (not_mem_toString _)) h
  obtain ⟨hfront, hvalues⟩ := Text.append_cons_inj_right (not_mem_line hs.joined_break)
    (not_mem_line ht.joined_break) (List.append_cancel_right hfront)
  obtain ⟨hfirst, hbody⟩ := Text.append_cons_inj (not_mem_line hs.first_break)
    (not_mem_line ht.first_break) hfront
  obtain ⟨hmethod, hpath⟩ := hs.first_inj ht (line_injective hfirst)
  exact ⟨hmethod, hpath, hbody, line_injective hvalues,
    Int.repr_injective (line_injective hexpires)⟩

theorem ofUrl_eq_ok_iff {method url : String} {body : List UInt8} {expires : Int} :
    ofUrl method url body expires = .ok s ↔ ∃ a, Url.Address.read url = .ok a ∧
      s = ⟨method, a.path, body, signedQuery a.query, expires⟩ := by
  rw [ofUrl, bind_eq_ok_iff]
  refine exists_congr fun a => and_congr_right fun _ => ?_
  rw [pure_eq_ok, Except.ok.injEq, eq_comm]

/-- **A signature binds the request.** -/
theorem message_binds {method method' url url' : String} {body body' : List UInt8}
    {expires expires' : Int} (hs : ofUrl method url body expires = .ok s)
    (ht : ofUrl method' url' body' expires' = .ok t)
    (hmethod : ' ' ∉ method.toList ∧ '\n' ∉ method.toList)
    (hmethod' : ' ' ∉ method'.toList ∧ '\n' ∉ method'.toList)
    (hvalues : ∀ e ∈ s.query, '\n' ∉ e.2.toList) (hvalues' : ∀ e ∈ t.query, '\n' ∉ e.2.toList) :
    s.message = t.message ↔
      Text.upper method = Text.upper method' ∧ s.path = t.path ∧ body = body' ∧
        String.join (s.query.map (·.2)) = String.join (t.query.map (·.2)) ∧
        expires = expires' := by
  obtain ⟨a, hread, rfl⟩ := ofUrl_eq_ok_iff.1 hs
  obtain ⟨b, hread', rfl⟩ := ofUrl_eq_ok_iff.1 ht
  have hpath : ∀ {text : String} {address : Url.Address}, Url.Address.read text = .ok address →
      '\n' ∉ address.path.toList :=
    fun hread hmem => absurd (Url.isKept_of_mem_path hread _ hmem) (by decide)
  constructor
  · exact OnLines.message_inj ⟨hmethod.1, hmethod.2, hpath hread, hvalues⟩
      ⟨hmethod'.1, hmethod'.2, hpath hread', hvalues'⟩
  · rintro ⟨hupper, hpaths, rfl, hjoin, rfl⟩
    simp only at hpaths hjoin
    rw [message, message, hupper, hpaths, hjoin]

theorem message_binds_breaks : ∃ s t,
    ofUrl "put" "https://h/a\tb;v?z=1&a=2" [10, 55, 10, 10] 12 = .ok s ∧
      ofUrl "PUT" "//other/a\tb?y=2&z=1" [10, 55, 10, 10] 12 = .ok t ∧ s.message = t.message := by
  have hs : ofUrl "put" "https://h/a\tb;v?z=1&a=2" [10, 55, 10, 10] 12 =
      .ok ⟨"put", "/ab", [10, 55, 10, 10], [("a", "2"), ("z", "1")], 12⟩ := by cbv
  have ht : ofUrl "PUT" "//other/a\tb?y=2&z=1" [10, 55, 10, 10] 12 =
      .ok ⟨"PUT", "/ab", [10, 55, 10, 10], [("y", "2"), ("z", "1")], 12⟩ := by cbv
  have hupper : Text.upper "put" = Text.upper "PUT" := by decide +kernel
  exact ⟨_, _, hs, ht, (message_binds hs ht (by decide) (by decide) (by decide) (by decide)).2
    ⟨hupper, rfl, rfl, by decide, rfl⟩⟩

end Signed

end KubeAtlas.Api
