import KubeAtlas.Proofs.CommandLine.Echo
import KubeAtlas.Proofs.CommandLine.Selection
import KubeAtlas.Proofs.Config.Entry
import KubeAtlas.Proofs.Store.Answers
/-!
# What a search through stores lists

The stores are searched one after the other, each to its end, and the first whose zones cannot be
listed ends it all. `course` says which paths are found then, and in which world it ends; it does
not look at the stores after the one that fails. What is written are these paths, each with the name
of its store in front and as the output shows it (`search_of_isNamed`): all of it if every name can
be made text and every line is shown as it stands, and otherwise less (`search_course_iff`).
-/

namespace KubeAtlas

variable {σ : Type}

/-- A provider whose identifiers and names are text, whatever it answers and whenever it does. -/
structure Provider.IsTextual (p : Provider σ) : Prop where
  zones : ∀ w zones, (p.zones.perform w).1 = .ok zones → ∀ z ∈ zones, ∃ name, z.name = .str name
  clusters : ∀ endpoint w found, ((p.clusters endpoint).perform w).1 = .ok found →
    ∀ c ∈ found, (∃ id, c.id = .str id) ∧ ∃ name, c.name = .str name

namespace Provider.IsTextual

open Cluster (Index Report)
open Store Search

variable {p : Provider σ} {w : World σ} {script : List Outcome}

theorem isKeyed (hp : p.IsTextual) (h : answers p w = .ok script) :
    ∀ c ∈ script.flatMap Outcome.reports, c.IsKeyed := by
  rw [answers] at h
  rcases hzones : p.zones.perform (w.record (note .debug "Exoscale: start search"))
    with ⟨e | zones, v⟩
  · rw [hzones] at h
    cases h
  · rw [hzones] at h
    cases h
    intro c hc
    obtain ⟨o, ho, hc⟩ := List.mem_flatMap.1 hc
    obtain ⟨hzone, u, hanswer⟩ := asked_of_mem_outcomes ho
    obtain ⟨zone, hzone⟩ := hp.zones _ zones (by rw [hzones]) o.zone hzone
    rw [Outcome.reports] at hc
    split at hc
    · next found hfound =>
        obtain ⟨l, hl, rfl⟩ := List.mem_map.1 hc
        obtain ⟨⟨id, hid⟩, name, hname⟩ := hp.clusters _ u found (hanswer.trans hfound) l hl
        rw [Listing.inZone, hid, hname, hzone]
        exact ⟨⟨_, rfl⟩, _, rfl⟩
    · cases hc

theorem discover (hp : p.IsTextual) (h : answers p w = .ok script) :
    Store.discover p .empty w =
      ⟨(script.flatMap Outcome.reports).map fun c => .path c.path, none, .ended,
        Index.empty.addAll (script.flatMap Outcome.reports), concluded p w⟩ := by
  have htakes : Index.empty.Takes (script.flatMap Outcome.reports) :=
    Reached.initial.takes (by simp) (hp.isKeyed h)
  have hpass := discover_of_answers .empty h
  have hresults := hpass.results
  have hfailure := hpass.failure
  have hindex := hpass.index
  rw [Index.enterAll_of_takes htakes] at hresults hfailure hindex
  have hworld := hpass.world hfailure
  have hsearch := hpass.search
  generalize Store.discover p .empty w = pass at *
  obtain ⟨results, failure, search, index, world⟩ := pass
  subst hresults hfailure hindex hworld hsearch
  rfl

end Provider.IsTextual

namespace StoreEntry

variable {e : StoreEntry}

def HasShowablePrefix (e : StoreEntry) : Prop :=
  e.contextPrefix.isTruthy = true → e.contextPrefix.isShowable = true

def shownAs (e : StoreEntry) (path : String) : String :=
  if e.contextPrefix.isTruthy then e.contextPrefix.text ++ "/" ++ path else path

theorem displayPath_of_showable (h : e.HasShowablePrefix) (path : String) :
    e.displayPath path = .ok (e.shownAs path) := by
  rw [displayPath, shownAs]
  by_cases htruthy : e.contextPrefix.isTruthy = true
  · rw [if_pos htruthy, if_pos htruthy, textOf_eq_ok_iff.2 ⟨h htruthy, rfl⟩]
    rfl
  · rw [if_neg htruthy, if_neg htruthy]
    rfl

theorem displayPath_of_not_showable (h : ¬ e.HasShowablePrefix) (path : String) :
    e.displayPath path = .error (.document (.fault .number)) := by
  obtain ⟨htruthy, hlong⟩ := Classical.not_imp.1 h
  rw [displayPath, if_pos htruthy, textOf_eq_error_iff.2 ⟨hlong, rfl⟩]
  rfl

theorem mapM_displayPath (h : e.HasShowablePrefix) (paths : List String) :
    paths.mapM e.displayPath = .ok (paths.map e.shownAs) := by
  apply mapM_eq_ok_iff.2
  rw [List.forall₂_map_right_iff]
  exact List.forall₂_same.2 fun path _ => displayPath_of_showable h path

end StoreEntry

namespace CommandLine

open Store (Outcome)
open Store.Search (answers concluded)

/-! ### Lines -/

theorem toList_lines (texts : List String) :
    (lines texts).toList = texts.flatMap fun text => text.toList ++ ['\n'] := by
  rw [lines, String.toList_join, List.flatMap_map]
  simp

theorem lines_append (before after : List String) :
    lines (before ++ after) = lines before ++ lines after := by
  rw [lines, lines, lines, List.map_append, String.join_append]

/-- Two parts that leave nothing out together leave nothing out each. -/
theorem eq_of_append_eq_of_sublist {α : Type} {a b c d : List α} (hac : a.Sublist c)
    (hbd : b.Sublist d) (h : a ++ b = c ++ d) : a = c ∧ b = d := by
  have hlength := congrArg List.length h
  rw [List.length_append, List.length_append] at hlength
  have ha := hac.length_le
  have hb := hbd.length_le
  exact ⟨hac.eq_of_length (by omega), hbd.eq_of_length (by omega)⟩

theorem lines_echo_sublist (terminal : Bool) (texts : List String) :
    (lines (texts.map (echo terminal))).toList.Sublist (lines texts).toList := by
  rw [toList_lines, toList_lines]
  induction texts with
  | nil => exact List.Sublist.refl []
  | cons text rest ih =>
      exact ((echo_sublist terminal text).append (List.Sublist.refl ['\n'])).append ih

theorem lines_echo_eq_iff (terminal : Bool) (texts : List String) :
    lines (texts.map (echo terminal)) = lines texts ↔
      ∀ text ∈ texts, echo terminal text = text := by
  constructor
  · intro h
    induction texts with
    | nil => simp
    | cons text rest ih =>
        have hlists := congrArg String.toList h
        rw [List.map_cons, ← List.singleton_append, ← List.singleton_append (l := rest),
          lines_append, lines_append, String.toList_append, String.toList_append] at hlists
        obtain ⟨hfirst, hrest⟩ := eq_of_append_eq_of_sublist
          (lines_echo_sublist terminal [text]) (lines_echo_sublist terminal rest) hlists
        have hsame : echo terminal text = text := by
          rw [toList_lines, toList_lines] at hfirst
          exact String.toList_inj.1 (by simpa using hfirst)
        intro other hother
        rcases List.mem_cons.1 hother with rfl | hother
        · exact hsame
        · exact ih (String.toList_inj.1 hrest) other hother
  · intro h
    rw [List.map_congr_left h, List.map_id']

/-! ### The course of a search -/

theorem foundPaths_of_answers {p : Provider σ} {w : World σ} {script : List Outcome}
    (hp : p.IsTextual) (h : answers p w = .ok script) :
    foundPaths (Store.discover p .empty w) =
      .ok ((script.flatMap Outcome.reports).map Cluster.path) := by
  rw [foundPaths, hp.discover h]
  refine bind_eq_ok_iff.2 ⟨(script.flatMap Outcome.reports).map Cluster.path, ?_, rfl⟩
  apply mapM_eq_ok_iff.2
  rw [List.forall₂_map_left_iff, List.forall₂_map_right_iff]
  exact List.forall₂_same.2 fun c _ => rfl

theorem foundPaths_of_unanswered {p : Provider σ} {w : World σ} {e : Failure}
    (h : answers p w = .error e) :
    foundPaths (Store.discover p .empty w) = .error (.unavailable e) := by
  rw [foundPaths, Store.discover_of_unanswered .empty h]
  rfl

/-- What comes of a search through stores. -/
structure Course (σ : Type) where
  /-- The stores that were searched to their end, each with the paths in it, in order. -/
  found : List (Store × List String)
  /-- Whether there was no store whose zones could not be listed. -/
  complete : Bool
  world : World σ

namespace Course

def shown (c : Course σ) : List String := c.found.flatMap fun f => f.2.map f.1.entry.shownAs

def output (c : Course σ) : String := lines c.shown

def code (c : Course σ) : Nat := if c.complete then 0 else 1

def IsNamed (c : Course σ) : Prop := ∀ f ∈ c.found, ∀ path ∈ f.2, f.1.entry.HasShowablePrefix

def IsPlain (terminal : Bool) (c : Course σ) : Prop :=
  ∀ line ∈ c.shown, terminal = true ∨ ¬ HasStyle line.toList

/-- The course of a search in which another store comes first. -/
def after (s : Store) (paths : List String) (c : Course σ) : Course σ :=
  { c with found := (s, paths) :: c.found }

theorem shown_after (s : Store) (paths : List String) (c : Course σ) :
    (c.after s paths).shown = paths.map s.entry.shownAs ++ c.shown := rfl

theorem output_after (s : Store) (paths : List String) (c : Course σ) :
    (c.after s paths).output = lines (paths.map s.entry.shownAs) ++ c.output := by
  rw [output, shown_after, lines_append]
  rfl

theorem isNamed_after {s : Store} {paths : List String} {c : Course σ} :
    (c.after s paths).IsNamed ↔ (∀ path ∈ paths, s.entry.HasShowablePrefix) ∧ c.IsNamed :=
  List.forall_mem_cons

end Course

/-- Searches stores, up to the first whose zones cannot be listed. -/
def course (provide : Store → Provider σ) : List Store → World σ → Course σ
  | [], w => ⟨[], true, w⟩
  | s :: rest, w =>
    match answers (provide s) w with
    | .error _ => ⟨[], false, concluded (provide s) w⟩
    | .ok script =>
      (course provide rest (concluded (provide s) w)).after s
        ((script.flatMap Outcome.reports).map Cluster.path)

/-- How a command went: what it wrote, its exit code, and the world it left. -/
structure Went (ran : Result × World σ) (output : String) (code : Nat) (w : World σ) : Prop where
  output : ran.1.output = output
  code : ran.1.ending.code = code
  world : ran.2 = w

variable {provide : Store → Provider σ} {terminal : Bool} {s : Store} {rest stores : List Store}
variable {w : World σ}

theorem code_searchEnding (s : Store) (f : Failure) : (searchEnding s f).code = 1 := by
  rw [searchEnding]
  split
  · split <;> rfl
  · rfl

theorem course_answered {script : List Outcome} (h : answers (provide s) w = .ok script) :
    course provide (s :: rest) w =
      (course provide rest (concluded (provide s) w)).after s
        ((script.flatMap Outcome.reports).map Cluster.path) := by
  rw [course, h]

theorem course_unanswered {e : Failure} (h : answers (provide s) w = .error e) :
    course provide (s :: rest) w = ⟨[], false, concluded (provide s) w⟩ := by
  rw [course, h]

theorem search_unanswered {e : Failure} (h : answers (provide s) w = .error e) :
    search provide terminal (s :: rest) w =
      (⟨"", searchEnding s (.unavailable e)⟩, concluded (provide s) w) := by
  rw [search, foundPaths_of_unanswered h, Store.discover_of_unanswered .empty h]

section Answered

variable {script : List Outcome} {paths : List String} (hp : (provide s).IsTextual)
  (h : answers (provide s) w = .ok script)
  (hpaths : (script.flatMap Outcome.reports).map Cluster.path = paths)
include hp h hpaths

theorem search_shown {shown : List String} (hshown : paths.mapM s.entry.displayPath = .ok shown) :
    search provide terminal (s :: rest) w =
      ((search provide terminal rest (concluded (provide s) w)).1.after
        (lines (shown.map (echo terminal))),
      (search provide terminal rest (concluded (provide s) w)).2) := by
  subst hpaths
  rcases hrest : search provide terminal rest (concluded (provide s) w) with ⟨r, v⟩
  have hpass := hp.discover h
  have hfound := foundPaths_of_answers hp h
  rw [hpass] at hfound
  simp only [search, hpass, hfound, hshown, hrest]

/-- At a path that cannot be shown a search stops, and nothing of the store is written. -/
theorem search_unshown {f : Failure} (hfails : paths.mapM s.entry.displayPath = .error f) :
    search provide terminal (s :: rest) w = (⟨"", .crash f⟩, concluded (provide s) w) := by
  subst hpaths
  have hpass := hp.discover h
  have hfound := foundPaths_of_answers hp h
  rw [hpass] at hfound
  simp only [search, hpass, hfound, hfails]

end Answered

/-- The paths of a store that comes first: all can be shown, or the search ends at the first. -/
theorem mapM_displayPath_cases (s : Store) (paths : List String) :
    paths.mapM s.entry.displayPath = .ok (paths.map s.entry.shownAs) ∧
        (∀ path ∈ paths, s.entry.HasShowablePrefix) ∨
      (∃ f, paths.mapM s.entry.displayPath = .error f) ∧ paths ≠ [] ∧
        ¬ s.entry.HasShowablePrefix := by
  by_cases hfront : s.entry.HasShowablePrefix
  · exact .inl ⟨StoreEntry.mapM_displayPath hfront paths, fun _ _ => hfront⟩
  · cases paths with
    | nil => exact .inl ⟨rfl, by simp⟩
    | cons path rest =>
        have hfails := StoreEntry.displayPath_of_not_showable hfront path
        refine .inr ⟨⟨.document (.fault .number), ?_⟩, by simp, hfront⟩
        rw [List.mapM_cons, hfails]
        rfl

theorem search_sublist (htext : ∀ s, (provide s).IsTextual) (stores : List Store) (w : World σ) :
    (search provide terminal stores w).1.output.toList.Sublist
      (course provide stores w).output.toList := by
  induction stores generalizing w with
  | nil => exact List.Sublist.refl _
  | cons s rest ih =>
      cases hanswers : answers (provide s) w with
      | error e =>
          rw [search_unanswered hanswers]
          exact List.nil_sublist _
      | ok script =>
          rw [course_answered hanswers]
          rcases mapM_displayPath_cases s ((script.flatMap Outcome.reports).map Cluster.path) with
            ⟨hshown, -⟩ | ⟨⟨f, hfails⟩, -⟩
          · rw [search_shown (htext s) hanswers rfl hshown]
            show (lines _ ++ _).toList.Sublist _
            rw [Course.output_after, String.toList_append, String.toList_append]
            exact (lines_echo_sublist terminal _).append (ih _)
          · rw [search_unshown (htext s) hanswers rfl hfails]
            exact List.nil_sublist _

/-- If every name can be made text, a search writes what it finds as the output shows it. -/
theorem search_of_isNamed (htext : ∀ s, (provide s).IsTextual) (stores : List Store) (w : World σ)
    (h : (course provide stores w).IsNamed) :
    Went (search provide terminal stores w)
      (lines ((course provide stores w).shown.map (echo terminal)))
      (course provide stores w).code (course provide stores w).world := by
  induction stores generalizing w with
  | nil => exact ⟨rfl, rfl, rfl⟩
  | cons s rest ih =>
      cases hanswers : answers (provide s) w with
      | error e =>
          rw [search_unanswered hanswers, course_unanswered hanswers]
          exact ⟨rfl, (code_searchEnding s (.unavailable e)).trans (if_neg Bool.false_ne_true).symm,
            rfl⟩
      | ok script =>
          rw [course_answered hanswers] at h
          obtain ⟨hfirst, hrest⟩ := Course.isNamed_after.1 h
          have hlater := ih _ hrest
          rw [course_answered hanswers]
          rcases mapM_displayPath_cases s ((script.flatMap Outcome.reports).map Cluster.path) with
            ⟨hshown, -⟩ | ⟨-, hne, hfront⟩
          · rw [search_shown (htext s) hanswers rfl hshown]
            refine ⟨?_, hlater.code, hlater.world⟩
            show lines _ ++ _ = _
            rw [hlater.output, Course.shown_after, List.map_append, lines_append]
          · obtain ⟨path, hpath⟩ := List.exists_mem_of_ne_nil _ hne
            exact absurd (hfirst path hpath) hfront

/-- A search that writes all that it finds has made every name text: where it cannot, it stops. -/
theorem isNamed_of_output (htext : ∀ s, (provide s).IsTextual) (stores : List Store) (w : World σ)
    (h : (search provide terminal stores w).1.output = (course provide stores w).output) :
    (course provide stores w).IsNamed := by
  induction stores generalizing w with
  | nil => simp [course, Course.IsNamed]
  | cons s rest ih =>
      cases hanswers : answers (provide s) w with
      | error e => simp [course_unanswered hanswers, Course.IsNamed]
      | ok script =>
          rw [course_answered hanswers] at h ⊢
          have hlists := congrArg String.toList h
          rw [Course.output_after, String.toList_append] at hlists
          rcases mapM_displayPath_cases s ((script.flatMap Outcome.reports).map Cluster.path) with
            ⟨hshown, hfront⟩ | ⟨⟨f, hfails⟩, hne, -⟩
          · rw [search_shown (htext s) hanswers rfl hshown] at hlists
            change (lines _ ++ _).toList = _ at hlists
            rw [String.toList_append] at hlists
            have hrest := (eq_of_append_eq_of_sublist (lines_echo_sublist terminal _)
              (search_sublist htext rest _) hlists).2
            exact Course.isNamed_after.2 ⟨hfront, ih _ (String.toList_inj.1 hrest)⟩
          · -- The search has stopped at a path, so that nothing of this store was written.
            rw [search_unshown (htext s) hanswers rfl hfails] at hlists
            obtain ⟨path, others, hpaths⟩ := List.exists_cons_of_ne_nil hne
            rw [hpaths, toList_lines] at hlists
            simp at hlists

theorem search_output_iff (htext : ∀ s, (provide s).IsTextual) (stores : List Store)
    (w : World σ) :
    (search provide terminal stores w).1.output = (course provide stores w).output ↔
      (course provide stores w).IsNamed ∧ (course provide stores w).IsPlain terminal := by
  have hplain : lines ((course provide stores w).shown.map (echo terminal)) =
      (course provide stores w).output ↔ (course provide stores w).IsPlain terminal := by
    rw [Course.output, lines_echo_eq_iff]
    exact forall₂_congr fun line _ => echo_eq_self_iff terminal line
  constructor
  · intro h
    have hnamed := isNamed_of_output htext stores w h
    rw [(search_of_isNamed htext stores w hnamed).output] at h
    exact ⟨hnamed, hplain.1 h⟩
  · rintro ⟨hnamed, hshown⟩
    rw [(search_of_isNamed htext stores w hnamed).output]
    exact hplain.2 hshown

/-- **What comes of a search through stores.** It writes all that is found, ends as it should and
leaves the world after its last request, exactly if every name can be made text and every line is
shown as it stands. -/
theorem search_course_iff (htext : ∀ s, (provide s).IsTextual) (stores : List Store)
    (w : World σ) :
    Went (search provide terminal stores w) (course provide stores w).output
        (course provide stores w).code (course provide stores w).world ↔
      (course provide stores w).IsNamed ∧ (course provide stores w).IsPlain terminal := by
  rw [← search_output_iff htext stores w]
  constructor
  · intro h
    exact h.output
  · intro h
    have hwent : Went (search provide terminal stores w) _ _ _ :=
      search_of_isNamed htext stores w (isNamed_of_output htext stores w h)
    exact ⟨h, hwent.code, hwent.world⟩

end CommandLine
end KubeAtlas
