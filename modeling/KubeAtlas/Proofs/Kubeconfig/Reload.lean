import KubeAtlas.Proofs.Kubeconfig.Copy
import KubeAtlas.Proofs.Kubeconfig.Fresh
/-!
# Documents that were written and read again

What a document is written as is loaded as a copy, and the copy is read as a document. It is a copy
of the first one, but not by the relation that the text gives: reading takes new cells for the empty
bodies, so that the cells of these, which the text has, are replaced by others, which it has not. In
the other direction nothing is lost by that, since an empty body is nowhere else in the document. So
the relation is taken without the empty bodies first, and each of them is then paired with the cell
that was taken for it.
-/

namespace KubeAtlas

variable {R S : Nat → Nat → Prop} {g h k : Graph}

namespace Graph

theorem Copied.isMapping (hcopy : Copied R g h) {v w : Value} (hv : v.Copied R w)
    (hmapping : g.IsMapping v) : h.IsMapping w := by
  obtain ⟨id, es, rfl, hcell⟩ := hmapping
  obtain ⟨es', hes', -⟩ := hcopy.entries hv (entries?_eq_some_iff.2 ⟨id, rfl, hcell⟩)
  exact isMapping_of_isSome (Option.isSome_iff_exists.2 ⟨es', hes'⟩)

end Graph

namespace Kubeconfig

variable {es es' top top' : Entries} {d d' : Document} {keys : List Label} {p : Part}

/-! ### Copies of parts -/

namespace Part

variable {item item' list list' : Value} {e : Label × Value}

theorem IsWritten.copied (hcopy : Graph.Copied R g h) (hitem : item.Copied R item')
    (hwritten : p.IsWritten g item e) : ∃ e', p.IsWritten h item' e' ∧ EntryCopied R e e' := by
  obtain ⟨fields, hfields, hall⟩ := hcopy.entries hitem hwritten
  cases hall with
  | @cons _ name _ _ hname hrest =>
      cases hrest with
      | @cons _ body _ _ hbody hnil =>
          cases hnil
          obtain ⟨l, v⟩ := name
          obtain ⟨m, w⟩ := body
          obtain ⟨hl, hv⟩ := hname
          obtain ⟨hm, hw⟩ := hbody
          obtain rfl := Label.Copied.str.1 hl
          obtain rfl := Label.Copied.str.1 hm
          cases hv with
          | leaf hlabel => exact ⟨(_, w), hfields, hlabel, hw⟩

theorem IsListOf.copied (hcopy : Graph.Copied R g h) (hv : list.Copied R list')
    (hlist : p.IsListOf g list es) :
    ∃ es', p.IsListOf h list' es' ∧ List.Forall₂ (EntryCopied R) es es' := by
  obtain ⟨items, hitems, hall⟩ := hlist
  obtain ⟨items', hitems', hcopied⟩ := hcopy.items hv hitems
  suffices hes : ∃ es', List.Forall₂ (p.IsWritten h) items' es' ∧
      List.Forall₂ (EntryCopied R) es es' by
    obtain ⟨es', hwritten, hentries⟩ := hes
    exact ⟨es', ⟨items', hitems', hwritten⟩, hentries⟩
  clear hitems hitems' hv
  induction hall generalizing items' with
  | nil =>
      cases hcopied
      exact ⟨[], .nil, .nil⟩
  | cons hitem _ ih =>
      cases hcopied with
      | cons hfirst hrest =>
          obtain ⟨e', hwritten, hentry⟩ := hitem.copied hcopy hfirst
          obtain ⟨es', hlater, hentries⟩ := ih _ hrest
          exact ⟨e' :: es', .cons hwritten hlater, .cons hentry hentries⟩

theorem StandsIn.copied (hcopy : Graph.Copied R g h)
    (htop : List.Forall₂ (EntryCopied R) top top') (hstands : p.StandsIn g top es) :
    ∃ es', p.StandsIn h top' es' ∧ List.Forall₂ (EntryCopied R) es es' := by
  have hfind := Table.find?_copied htop (Key.str p.key)
  rw [StandsIn, field?] at hstands
  simp only [StandsIn, field?]
  generalize Table.find? (Key.str p.key) top = x, Table.find? (Key.str p.key) top' = y
    at hfind hstands
  cases hfind with
  | none =>
      obtain rfl : es = [] := hstands
      exact ⟨[], rfl, .nil⟩
  | some hv => exact IsListOf.copied hcopy hv hstands

theorem StandsIn.extend (hstands : p.StandsIn g top es) (hext : h.Extends g) :
    p.StandsIn h top es := by
  rw [StandsIn] at hstands ⊢
  split at hstands
  · exact hstands.extend hext
  · exact hstands

end Part

/-! ### Fresh bodies -/

namespace Document

/-- The pairs of a relation that are not of empty bodies. -/
def innerPairs (d : Document) (R : Nat → Nat → Prop) : Nat → Nat → Prop :=
  fun a b => d.IsInner a ∧ R a b

theorem OwnsEmpty.copied (hd : d.OwnsEmpty) (hcopy : Graph.Copied R g h)
    (hext : g.Extends d.graph) : Graph.Copied (d.innerPairs R) d.graph h where
  unique := ⟨fun _ _ _ hx hy => hcopy.unique.1 hx.2 hy.2,
    fun _ _ _ hx hy => hcopy.unique.2 hx.2 hy.2⟩
  within a b hab := ⟨hab.1.1, (hcopy.within a b hab.2).2⟩
  cells a b hab := by
    have hcell := hcopy.cells a b hab.2
    rw [hext.2 a hab.1.1] at hcell
    exact hcell.mono fun c hc _ hpair => ⟨hd.cells a c hc, hpair⟩

end Document

/-! ### From text to text -/

namespace Document

def HasName (d : Document) (name : String) : Prop :=
  d.clusters = [] ∨ ∃ body, d.clusters = [(.str name, body)]

theorem HasName.copied {name : String} (hd : d.HasName name) (hcopy : d.Copied R d') :
    d'.HasName name := by
  have hclusters : List.Forall₂ (EntryCopied R) d.clusters d'.clusters := hcopy.entries .clusters
  rcases hd with hnil | ⟨body, hcluster⟩
  · rw [hnil, List.forall₂_nil_left_iff] at hclusters
    exact .inl hclusters
  · rw [hcluster] at hclusters
    generalize hcopied : d'.clusters = es' at hclusters
    cases hclusters with
    | @cons _ e _ _ he hrest =>
        cases hrest
        refine .inr ⟨e.2, ?_⟩
        rw [hcopied, ← Label.Copied.str.1 he.1]

end Document
end Kubeconfig
end KubeAtlas
