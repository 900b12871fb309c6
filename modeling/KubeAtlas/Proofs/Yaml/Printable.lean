import KubeAtlas.Proofs.Except
import KubeAtlas.Proofs.Yaml.Depth
import Mathlib.Data.List.SplitBy
import Mathlib.Tactic.IntervalCases
/-!
# What is written is printable

A document is written in printable ASCII and line feeds, whatever its texts hold: a text with
anything else in it is put in double quotes, where every other character is an escape of printable
ones. `Page.IsPrintable` is what every step of writing keeps; the tree that is written matters only
by the names in it, which are numbered.
-/

namespace KubeAtlas.Yaml

def Printable (s : List Char) : Prop := ∀ c ∈ s, Style.needsEscape c = false

instance (s : List Char) : Decidable (Printable s) :=
  List.decidableBAll (fun c => Style.needsEscape c = false) s

namespace Printable

variable {s t : List Char} {c : Char}

theorem nil : Printable [] := by simp [Printable]

theorem cons (hc : Style.needsEscape c = false) (hs : Printable s) : Printable (c :: s) :=
  List.forall_mem_cons.2 ⟨hc, hs⟩

theorem append (hs : Printable s) (ht : Printable t) : Printable (s ++ t) :=
  List.forall_mem_append.2 ⟨hs, ht⟩

theorem reverse (hs : Printable s) : Printable s.reverse := by
  intro c hc
  exact hs c (List.mem_reverse.1 hc)

theorem replicate (n : Nat) (hc : Style.needsEscape c = false) :
    Printable (List.replicate n c) := by
  intro d hd
  rw [List.eq_of_mem_replicate hd]
  exact hc

theorem flatMap {α : Type} {xs : List α} {f : α → List Char} (hf : ∀ x ∈ xs, Printable (f x)) :
    Printable (xs.flatMap f) := by
  intro c hc
  obtain ⟨x, hx, hcx⟩ := List.mem_flatMap.1 hc
  exact hf x hx c hcx

theorem of_mem_splitBy {r : Char → Char → Bool} {part : List Char} (hs : Printable s)
    (hpart : part ∈ s.splitBy r) : Printable part := by
  intro c hc
  apply hs c
  rw [← List.flatten_splitBy r s]
  exact List.mem_flatten.2 ⟨part, hpart, hc⟩

theorem not_mem_escape (hs : Printable s) : ∀ c ∈ s, c ≠ '\x1b' := by
  rintro c hc rfl
  exact absurd (hs _ hc) (by decide)

end Printable

/-! ### Digits and escapes -/

theorem needsEscape_of_mem_toDigits {base n : Nat} (hbase : 1 < base) {c : Char}
    (hc : c ∈ Nat.toDigits base n) : Style.needsEscape c = false ∧
      Style.needsEscape c.toUpper = false := by
  have hdigit (d : Nat) : Style.needsEscape d.digitChar = false ∧
      Style.needsEscape d.digitChar.toUpper = false := by
    by_cases hd : d < 16
    · interval_cases d <;> decide
    · rw [Nat.digitChar_eq_star.2 (by omega)]
      decide
  induction n using Nat.strong_induction_on with
  | _ n ih =>
      rw [Nat.toDigits_eq_if hbase] at hc
      split at hc
      · rw [List.mem_singleton.1 hc]
        exact hdigit n
      · next hn =>
          rcases List.mem_append.1 hc with hfirst | hlast
          · exact ih (n / base) (Nat.div_lt_self (by omega) hbase) hfirst
          · rw [List.mem_singleton.1 hlast]
            exact hdigit (n % base)

theorem printable_decimalPad (width n : Nat) : Printable (Text.decimalPad width n) := by
  rw [Text.decimalPad]
  apply Printable.append
  · exact Printable.replicate _ (by decide)
  · intro c hc
    exact (needsEscape_of_mem_toDigits (by decide) hc).1

namespace Page

theorem printable_codeDigits (size n : Nat) : Printable (codeDigits size n) := by
  rw [codeDigits, Text.hexPad, List.map_append, List.map_replicate]
  apply Printable.append
  · exact Printable.replicate _ (by decide)
  · intro c hc
    obtain ⟨d, hd, rfl⟩ := List.mem_map.1 hc
    exact (needsEscape_of_mem_toDigits (by decide) hd).2

theorem needsEscape_escapeLetter? {c letter : Char} (h : escapeLetter? c = some letter) :
    Style.needsEscape letter = false := by
  rw [escapeLetter?.eq_def] at h
  split at h <;> cases h <;> decide

theorem printable_escape (c : Char) : Printable (escape c) := by
  have hbackslash : Style.needsEscape '\\' = false := by decide
  rw [escape]
  split
  · next letter hletter =>
      exact .cons hbackslash (.cons (needsEscape_escapeLetter? hletter) .nil)
  · dsimp only
    split
    · exact .cons hbackslash (.cons (by decide) (printable_codeDigits 2 _))
    · split
      · exact .cons hbackslash (.cons (by decide) (printable_codeDigits 4 _))
      · exact .cons hbackslash (.cons (by decide) (printable_codeDigits 8 _))

theorem needsEscape_of_not_isEscaped {c : Char} (h : ¬ isEscaped c = true) :
    Style.needsEscape c = false := by
  simp only [isEscaped, Bool.or_eq_true, not_or, Bool.not_eq_true] at h
  rw [Style.needsEscape, Bool.not_eq_false'] at *
  simp [h.2]

/-! ### The steps of writing -/

def IsPrintable (p : Page) : Prop := Printable p.out

namespace IsPrintable

variable {p : Page} {s : List Char}

theorem start : Page.start.IsPrintable := Printable.nil

theorem put (hp : p.IsPrintable) (hs : Printable s) : (p.put s).IsPrintable :=
  hs.reverse.append hp

theorem word (hp : p.IsPrintable) (hs : Printable s) : (p.word s).IsPrintable := by
  show Printable (p.put _).out
  split
  · exact hp.put hs
  · exact hp.put (hs.cons (by decide))

theorem mark (hp : p.IsPrintable) (hs : Printable s) : (p.mark s).IsPrintable := hp.word hs

theorem close (hp : p.IsPrintable) (hs : Printable s) : (p.close s).IsPrintable := hp.put hs

theorem lineEnd (hp : p.IsPrintable) {c : Char} (hc : Style.needsEscape c = false) :
    (p.lineEnd c).IsPrintable :=
  Printable.cons hc hp

theorem foldl_lineEnd (hp : p.IsPrintable) (hs : Printable s) :
    (s.foldl Page.lineEnd p).IsPrintable := by
  induction s generalizing p with
  | nil => exact hp
  | cons c s ih =>
      obtain ⟨hc, hs⟩ := List.forall_mem_cons.1 hs
      exact ih (hp.lineEnd hc) hs

theorem indent (hp : p.IsPrintable) (column : Nat) : (p.indent column).IsPrintable := by
  unfold Page.indent
  extract_lets q
  have hq : q.IsPrintable := by
    dsimp only [q]
    split
    · exact hp.lineEnd (by decide)
    · exact hp
  clear_value q
  split
  · exact hq.put (Printable.replicate _ (by decide))
  · exact hq

theorem wrap (hp : p.IsPrintable) (column : Nat) : (p.wrap column).IsPrintable := hp.indent column

end IsPrintable

variable {p : Page} {s : List Char} {runs : List (List Char)}

/-! ### Scalars in their styles -/

theorem isPrintable_plainRuns (column : Nat) (split : Bool) (hp : p.IsPrintable)
    (hruns : ∀ run ∈ runs, Printable run) : (plainRuns column split p runs).IsPrintable := by
  induction runs generalizing p with
  | nil => exact hp
  | cons run rest ih =>
      obtain ⟨hrun, hrest⟩ := List.forall_mem_cons.1 hruns
      rw [plainRuns]
      apply ih _ hrest
      split
      · exact hp.wrap column
      · exact hp.put hrun

theorem isPrintable_plain (column : Nat) (split : Bool) (hp : p.IsPrintable) (hs : Printable s) :
    (p.plain column split s).IsPrintable := by
  rw [plain]
  split
  · exact hp
  · apply isPrintable_plainRuns column split
    · show (if p.spaced then p else p.put [' ']).IsPrintable
      split
      · exact hp
      · exact hp.put (Printable.nil.cons (by decide))
    · intro run hrun
      exact hs.of_mem_splitBy hrun

theorem isPrintable_lineEnds (column : Nat) (hp : p.IsPrintable) (hs : Printable s) :
    (p.lineEnds column s).IsPrintable := by
  rw [lineEnds]
  apply IsPrintable.indent
  apply IsPrintable.foldl_lineEnd _ hs
  split
  · exact hp.lineEnd (by decide)
  · exact hp

theorem isPrintable_singleRuns (column : Nat) (split first : Bool) (hp : p.IsPrintable)
    (hruns : ∀ run ∈ runs, Printable run) :
    (singleRuns column split first p runs).IsPrintable := by
  induction runs generalizing first p with
  | nil => exact hp
  | cons run rest ih =>
      obtain ⟨hrun, hrest⟩ := List.forall_mem_cons.1 hruns
      rw [singleRuns]
      apply ih false _ hrest
      split
      · exact hp.indent column
      · split
        · exact isPrintable_lineEnds column hp hrun
        · apply hp.put
          apply Printable.flatMap
          intro c hc
          split
          · exact .cons (hrun c hc) (.cons (hrun c hc) .nil)
          · exact .cons (hrun c hc) .nil

theorem isPrintable_single (column : Nat) (split : Bool) (hp : p.IsPrintable) (hs : Printable s) :
    (p.single column split s).IsPrintable := by
  have hquote : Printable ['\x27'] := Printable.nil.cons (by decide)
  apply IsPrintable.close _ hquote
  apply isPrintable_singleRuns column split true (hp.word hquote)
  intro run hrun
  exact hs.of_mem_splitBy hrun

theorem isPrintable_breakLine (column : Nat) (next : Option Char) (hp : p.IsPrintable) :
    (p.breakLine column next).IsPrintable := by
  have hbackslash : Printable ['\\'] := Printable.nil.cons (by decide)
  rw [breakLine]
  split
  · exact ((hp.put hbackslash).wrap column).put hbackslash
  · exact (hp.put hbackslash).wrap column

theorem isPrintable_doubleChars (column : Nat) (split first after : Bool) (hp : p.IsPrintable)
    (s : List Char) : (doubleChars column split first after p s).IsPrintable := by
  induction s generalizing first after p with
  | nil => exact hp
  | cons c rest ih =>
      rw [doubleChars]
      dsimp only
      split
      · apply ih
        split
        · exact isPrintable_breakLine column _ (hp.put (printable_escape c))
        · exact hp.put (printable_escape c)
      · next hplain =>
          apply ih
          apply IsPrintable.put
          · split
            · exact isPrintable_breakLine column _ hp
            · exact hp
          · exact Printable.nil.cons (needsEscape_of_not_isEscaped hplain)

theorem isPrintable_double (column : Nat) (split : Bool) (hp : p.IsPrintable) (s : List Char) :
    (p.double column split s).IsPrintable := by
  have hquote : Printable ['\x22'] := Printable.nil.cons (by decide)
  exact (isPrintable_doubleChars column split true true (hp.word hquote) s).close hquote

theorem printable_literalHints (s : List Char) : Printable (literalHints s) := by
  rw [literalHints]
  apply Printable.append
  · split
    · exact Printable.nil.cons (by decide)
    · exact Printable.nil
  · split
    · exact Printable.nil
    · split
      · exact Printable.nil.cons (by decide)
      · split
        · exact Printable.nil.cons (by decide)
        · exact Printable.nil

theorem isPrintable_literalRuns (column : Nat) (hp : p.IsPrintable)
    (hruns : ∀ run ∈ runs, Printable run) : (literalRuns column p runs).IsPrintable := by
  induction runs generalizing p with
  | nil => exact hp
  | cons run rest ih =>
      obtain ⟨hrun, hrest⟩ := List.forall_mem_cons.1 hruns
      rw [literalRuns]
      apply ih _ hrest
      split
      · exact hp.foldl_lineEnd hrun
      · exact hrun.reverse.append (hp.indent column)

theorem isPrintable_literal (column : Nat) (hp : p.IsPrintable) (hs : Printable s) :
    (p.literal column s).IsPrintable := by
  have hfirst : ((p.word ('|' :: literalHints s)).lineEnd '\n').IsPrintable :=
    (hp.word ((printable_literalHints s).cons (by decide))).lineEnd (by decide)
  have hlines := isPrintable_literalRuns column hfirst
    fun run hrun => hs.of_mem_splitBy (r := fun a b => Style.isLineEnd a == Style.isLineEnd b) hrun
  rw [literal]
  split
  · exact hlines
  · exact hlines.lineEnd (by decide)

/-- A text that is not printable stands in double quotes. -/
theorem printable_of_choose {block byForm simpleKey : Bool}
    (h : Style.choose block byForm simpleKey s ≠ .double) : Printable s := by
  have hall (hs : s.any Style.needsEscape = false) : Printable s := by
    intro c hc
    exact Bool.eq_false_iff.2 fun hneeds =>
      absurd (List.any_eq_true.2 ⟨c, hc, hneeds⟩) (by simp [hs])
  rw [Style.choose] at h
  split at h
  · next hplain =>
      have hallows : Style.allowsPlain s = true := by simp_all
      cases s with
      | nil => exact Printable.nil
      | cons c rest =>
          apply hall
          simp only [Style.allowsPlain, Bool.not_eq_true', Bool.or_eq_false_iff] at hallows
          tauto
  · split at h
    · next hliteral =>
        have hallows : Style.allowsLiteral s = true := by simp_all
        apply hall
        simp only [Style.allowsLiteral, Bool.not_eq_true', Bool.or_eq_false_iff] at hallows
        tauto
    · split at h
      · next hsingle =>
          have hallows : Style.allowsSingle s = true := by simp_all
          apply hall
          simp only [Style.allowsSingle, Bool.not_eq_true', Bool.or_eq_false_iff] at hallows
          tauto
      · exact absurd rfl h

theorem isPrintable_scalar {style : Style} (column : Nat) (split : Bool) (hp : p.IsPrintable)
    (hs : style ≠ .double → Printable s) : (p.scalar style column split s).IsPrintable := by
  cases style with
  | plain => exact isPrintable_plain column split hp (hs (by decide))
  | single => exact isPrintable_single column split hp (hs (by decide))
  | double => exact isPrintable_double column split hp s
  | literal => exact isPrintable_literal column hp (hs (by decide))

end Page

/-! ### Trees -/

inductive Shape.Named : Shape → Prop
  | again {name : String} (h : Printable name.toList) : Named (.alias name)
  | scalar {anchor : Option String} {tag : Tag} {block : Bool} {text : String}
      (h : ∀ name ∈ anchor, Printable name.toList) : Named (.scalar anchor tag block text)
  | sequence {anchor : Option String} {items : List Shape}
      (h : ∀ name ∈ anchor, Printable name.toList) (hitems : ∀ s ∈ items, Named s) :
      Named (.sequence anchor items)
  | mapping {anchor : Option String} {tag : Tag} {entries : List (Shape × Shape)}
      (h : ∀ name ∈ anchor, Printable name.toList) (hkeys : ∀ e ∈ entries, Named e.1)
      (hvalues : ∀ e ∈ entries, Named e.2) : Named (.mapping anchor tag entries)

theorem printable_short (t : Tag) : Printable t.short := by
  cases t <;> decide

namespace Page

theorem isPrintable_anchor {p : Page} {anchor : Option String} (hp : p.IsPrintable)
    (h : ∀ name ∈ anchor, Printable name.toList) : (p.anchor anchor).IsPrintable := by
  cases anchor with
  | none => exact hp
  | some name => exact hp.word ((h name rfl).cons (by decide))

mutual

theorem isPrintable_node (s : Shape) (hs : s.Named) (place : Place) {p : Page}
    (hp : p.IsPrintable) : (p.node place s).IsPrintable := by
  cases hs with
  | again h =>
      rw [node]
      exact hp.word (h.cons (by decide))
  | @scalar anchor tag block text h =>
      rw [node]
      apply isPrintable_scalar _ _ _ printable_of_choose
      split
      · exact isPrintable_anchor hp h
      · exact (isPrintable_anchor hp h).word (printable_short tag)
  | @sequence anchor items h hitems =>
      have hanchor := isPrintable_anchor hp h
      cases items with
      | nil =>
          rw [node]
          exact hanchor.word (by decide)
      | cons item rest =>
          rw [node]
          · exact isPrintable_items (item :: rest) hitems _ hanchor
          · simp
  | @mapping anchor tag entries h hkeys hvalues =>
      have htag : (if tag == .map then p.anchor anchor
          else (p.anchor anchor).word tag.short).IsPrintable := by
        split
        · exact isPrintable_anchor hp h
        · exact (isPrintable_anchor hp h).word (printable_short tag)
      cases entries with
      | nil =>
          rw [node]
          exact htag.word (by decide)
      | cons entry rest =>
          rw [node]
          · exact isPrintable_entries (entry :: rest) hkeys hvalues _ htag
          · simp

theorem isPrintable_items (items : List Shape) (hitems : ∀ s ∈ items, s.Named) (column : Nat)
    {p : Page} (hp : p.IsPrintable) : (p.items column items).IsPrintable := by
  cases items with
  | nil => exact hp
  | cons item rest =>
      obtain ⟨hitem, hrest⟩ := List.forall_mem_cons.1 hitems
      rw [Page.items]
      apply isPrintable_items rest hrest
      apply isPrintable_node item hitem
      exact (hp.indent column).mark (by decide)

theorem isPrintable_entries (entries : List (Shape × Shape)) (hkeys : ∀ e ∈ entries, e.1.Named)
    (hvalues : ∀ e ∈ entries, e.2.Named) (column : Nat) {p : Page} (hp : p.IsPrintable) :
    (p.entries column entries).IsPrintable := by
  cases entries with
  | nil => exact hp
  | cons entry rest =>
      obtain ⟨key, value⟩ := entry
      obtain ⟨hkey, hkeys⟩ := List.forall_mem_cons.1 hkeys
      obtain ⟨hvalue, hvalues⟩ := List.forall_mem_cons.1 hvalues
      have hindent := hp.indent column
      rw [Page.entries]
      apply isPrintable_entries rest hkeys hvalues
      apply isPrintable_node value hvalue
      split
      · exact (isPrintable_node key hkey _ hindent).close (by decide)
      · apply IsPrintable.mark _ (by decide)
        apply IsPrintable.indent
        exact isPrintable_node key hkey _ (hindent.mark (by decide))

end

end Page

/-! ### The tree of a graph -/

namespace Shape

variable {g : Graph} {depth : Nat} {α β : Type}

theorem printable_name? (s : Survey) (id : Nat) : ∀ name ∈ s.name? id, Printable name.toList := by
  intro name hname
  obtain ⟨n, -, rfl⟩ := Option.map_eq_some_iff.1 (Option.mem_def.1 hname)
  rw [String.toList_append]
  apply Printable.append (by decide)
  rw [String.toList_ofList]
  exact printable_decimalPad 3 (n + 1)

/-- Coming to a cell gives an alias with a printable name, or a printable name if there is one. -/
theorem Progress.reach_named {p q : Progress} {id : Nat} :
    (∀ again, p.reach id = (.inl again, q) → again.Named) ∧
      ∀ anchor, p.reach id = (.inr anchor, q) → ∀ name ∈ anchor, Printable name.toList := by
  have hname := printable_name? p.survey id
  rw [reach]
  constructor
  · intro again h
    split at h <;> cases h
    apply Named.again
    cases hfound : p.survey.name? id with
    | none => exact Printable.nil
    | some name => exact hname name hfound
  · intro anchor h
    split at h <;> cases h
    exact hname

theorem named_ofScalar (v : Scalar) : (ofScalar v).Named := by
  cases v <;> exact .scalar (by simp)

theorem forall_mem_thread {f : Progress → α → β × Progress} {P : β → Prop} {xs : List α}
    (hf : ∀ x ∈ xs, ∀ p, P (f p x).1) (p : Progress) : ∀ y ∈ (thread f p xs).1, P y := by
  induction xs generalizing p with
  | nil => simp [thread]
  | cons x rest ih =>
      obtain ⟨hx, hrest⟩ := List.forall_mem_cons.1 hf
      exact List.forall_mem_cons.2 ⟨hx p, ih hrest _⟩

mutual

theorem named_ofLabel (l : Label) (p : Progress) : (ofLabel p l).1.Named := by
  cases l with
  | scalar v => exact named_ofScalar v
  | date id _ | moment id _ =>
      rw [ofLabel]
      rcases hstep : p.reach id with ⟨again | anchor, q⟩
      · exact Progress.reach_named.1 again hstep
      · exact .scalar (Progress.reach_named.2 anchor hstep)
  | tuple id items =>
      cases items with
      | nil => exact .sequence (by simp) (by simp)
      | cons l rest =>
          rw [ofLabel]
          · rcases hstep : p.reach id with ⟨again | anchor, q⟩
            · exact Progress.reach_named.1 again hstep
            · exact .sequence (Progress.reach_named.2 anchor hstep) (named_ofLabels (l :: rest) q)
          · simp

theorem named_ofLabels (ls : List Label) (p : Progress) : ∀ s ∈ (ofLabels p ls).1, s.Named := by
  cases ls with
  | nil => simp [ofLabels]
  | cons l rest =>
      exact List.forall_mem_cons.2 ⟨named_ofLabel l p, named_ofLabels rest _⟩

end

theorem named_ofContents (hvalue : ∀ (v : Value) (p : Progress), (ofValue g depth p v).1.Named)
    {anchor : Option String} (hanchor : ∀ name ∈ anchor, Printable name.toList) (p : Progress)
    (c : Cell) : (ofContents g depth anchor p c).1.Named := by
  cases c with
  | mark => exact .sequence hanchor (by simp)
  | list items => exact .sequence hanchor (forall_mem_thread (fun v _ => hvalue v) p)
  | tuple items => exact .sequence hanchor (forall_mem_thread (fun v _ => hvalue v) p)
  | set items =>
      have hitems : ∀ s ∈ (thread ofLabel p items).1, s.Named :=
        forall_mem_thread (fun l _ => named_ofLabel l) p
      apply Named.mapping hanchor
      · exact List.forall_mem_map.2 hitems
      · exact List.forall_mem_map.2 fun _ _ => named_ofScalar .null
  | map entries =>
      have hentries : ∀ e ∈ (thread (ofEntry g depth) p entries).1, e.1.Named ∧ e.2.Named :=
        forall_mem_thread (fun e _ p => ⟨named_ofLabel e.1 p, hvalue e.2 _⟩) p
      exact .mapping hanchor (fun e he => (hentries e he).1) fun e he => (hentries e he).2

theorem named_ofValue (depth : Nat) (v : Value) (p : Progress) :
    (ofValue g depth p v).1.Named := by
  induction depth generalizing v p with
  | zero =>
      cases v with
      | leaf l => rw [ofValue]; exact named_ofLabel l p
      | ref id => rw [ofValue]; exact .sequence (by simp) (by simp)
  | succ depth ih =>
      cases v with
      | leaf l => rw [ofValue]; exact named_ofLabel l p
      | ref id =>
          rw [ofValue_ref]
          split
          · exact .sequence (by simp) (by simp)
          · rcases hstep : p.reach id with ⟨again | anchor, q⟩
            · exact Progress.reach_named.1 again hstep
            · exact named_ofContents ih (Progress.reach_named.2 anchor hstep) q (g.cell id)

end Shape

/-- **What is written is printable**, whatever is written. -/
theorem printable_of_write {g : Graph} {v : Value} {text : String} (h : write g v = .ok text) :
    Printable text.toList := by
  obtain ⟨shape, hshape, htext⟩ := bind_eq_ok_iff.1 h
  obtain ⟨survey, -, hvalue⟩ := bind_eq_ok_iff.1 hshape
  cases htext
  cases hvalue
  rw [Shape.render, String.toList_ofList]
  apply Printable.reverse
  apply Page.IsPrintable.indent
  exact Page.isPrintable_node _ (Shape.named_ofValue _ v _) _ Page.IsPrintable.start

end KubeAtlas.Yaml
