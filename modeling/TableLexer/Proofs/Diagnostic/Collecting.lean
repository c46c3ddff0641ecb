import Mathlib.Data.String.Basic
import TableLexer.Diagnostic.Collector
/-!
Collected events.  Paths are ordered by their parts, and a collector keeps its records in that order, so
that each path has one record.  What a record holds are the first events of its path, and a marker if
there were more.
-/

namespace TableLexer

namespace PathPart

/-- The text of a part that has one. -/
def text : PathPart → String
  | root | here | parent => ""
  | name text => text

theorem compare_eq (p q : PathPart) :
    compare p q = compareLex (compareOn rank) (compareOn text) p q := by
  cases p <;> cases q <;> rfl

instance : Std.TransOrd PathPart := by
  have hcompare : (compare : PathPart → PathPart → Ordering) =
      compareLex (compareOn rank) (compareOn text) := by
    funext p q
    exact compare_eq p q
  rw [Std.TransOrd, hcompare]
  infer_instance

instance : Std.LawfulEqOrd PathPart where
  eq_of_compare {p q} heq := by
    rw [compare_eq, compareLex_eq_eq, compareOn, compareOn, Std.LawfulEqCmp.compare_eq_iff_eq,
      Std.LawfulEqCmp.compare_eq_iff_eq] at heq
    cases p <;> cases q <;> simp_all [rank, text]

end PathPart

namespace Path

theorem compareParts_eq (ps qs : List PathPart) :
    compareParts ps qs = ps.compareLex compare qs := by
  induction ps generalizing qs with
  | nil => cases qs <;> rfl
  | cons p ps ih =>
      cases qs with
      | nil => rfl
      | cons q qs => rw [compareParts, List.compareLex_cons_cons, ih]

theorem compare_eq (p q : Path) : compare p q = p.parts.compareLex compare q.parts :=
  compareParts_eq p.parts q.parts

instance : Std.TransOrd Path where
  eq_swap {p q} := by
    rw [compare_eq, compare_eq]
    exact Std.OrientedCmp.eq_swap
  isLE_trans {p q r} hpq hqr := by
    rw [compare_eq] at hpq hqr ⊢
    exact Std.TransCmp.isLE_trans hpq hqr

/-- Paths are told apart by their parts. -/
theorem compare_eq_iff (p q : Path) : compare p q = .eq ↔ p.parts = q.parts := by
  rw [compare_eq, Std.LawfulEqCmp.compare_eq_iff_eq]

/-- Paths in their order, each once. -/
def Ascending (paths : List Path) : Prop :=
  paths.Pairwise fun p q => compare p q = .lt

theorem parts_ne_of_lt {p q : Path} (hlt : compare p q = .lt) : q.parts ≠ p.parts := by
  intro hparts
  rw [(compare_eq_iff p q).mpr hparts.symm] at hlt
  cases hlt

end Path

namespace FileRecord

/-- What a record keeps of all the events of a path: the first ones up to the limit, and the marker if
there are more. -/
def bounded (events : List Event) : List Event :=
  events.take limits.eventsPerFile ++
    if limits.eventsPerFile < events.length then [limitMarker] else []

theorem length_bounded (events : List Event) :
    (bounded events).length = min events.length (limits.eventsPerFile + 1) := by
  rw [bounded, List.length_append, List.length_take]
  split <;> simp <;> omega

/-- A record that takes in an event keeps what it should of one event more. -/
theorem toList_receive {r : FileRecord} {events : List Event} (hevents : r.events.toList = bounded events)
    (e : Event) : (r.receive e).events.toList = bounded (events ++ [e]) := by
  have hsize : r.events.size = min events.length (limits.eventsPerFile + 1) := by
    rw [← length_bounded, ← hevents, Array.length_toList]
  rcases Nat.lt_trichotomy events.length limits.eventsPerFile with hroom | hfull | hover
  · rw [receive, if_pos (by omega), Array.toList_push, hevents, bounded, bounded,
      List.take_of_length_le (Nat.le_of_lt hroom), if_neg (by omega),
      List.take_of_length_le (by simp; omega), if_neg (by simp; omega), List.append_nil,
      List.append_nil]
  · rw [receive, if_neg (by omega), if_pos (by omega), Array.toList_push, hevents, bounded, bounded,
      if_neg (by omega), List.append_nil, if_pos (by simp [hfull]),
      List.take_append_of_le_length (Nat.le_of_eq hfull.symm)]
  · rw [receive, if_neg (by omega), if_neg (by omega), hevents, bounded, bounded, if_pos hover,
      if_pos (by simp; omega), List.take_append_of_le_length (Nat.le_of_lt hover)]

theorem path_receive (r : FileRecord) (e : Event) : (r.receive e).path = r.path := by
  unfold receive
  split
  · rfl
  · split <;> rfl

end FileRecord

namespace Collector

/-- Records in the order of their paths, each path once. -/
def Sorted (records : List FileRecord) : Prop :=
  records.Pairwise fun r r' => compare r.path r'.path = .lt

variable {change : FileRecord → FileRecord} {records : List FileRecord} {path : Path}

theorem sorted_iff_ascending :
    Sorted records ↔ Path.Ascending (records.map FileRecord.path) := by
  rw [Path.Ascending, List.pairwise_map, Sorted]

/-- The paths of the records change as paths alone do. -/
theorem map_path_update (hchange : ∀ r, (change r).path = r.path) :
    (update path change records).map FileRecord.path =
      insertPath path (records.map FileRecord.path) := by
  induction records with
  | nil => rw [update, List.map_singleton, hchange, List.map_nil, insertPath]
  | cons first records ih =>
      rw [update, List.map_cons, insertPath]
      split
      · rw [List.map_cons, hchange, List.map_cons]
      · rw [List.map_cons, hchange]
      · rw [List.map_cons, ih]

/-- A path joins others in order if none of them has its parts. -/
theorem mem_insertPath_iff {paths : List Path} {q : Path} (hascending : Path.Ascending paths) :
    q ∈ insertPath path paths ↔
      q ∈ paths ∨ q = path ∧ ∀ r ∈ paths, r.parts ≠ path.parts := by
  induction paths with
  | nil => simp [insertPath]
  | cons first paths ih =>
      obtain ⟨hfirst, hrest⟩ := List.pairwise_cons.mp hascending
      rw [insertPath]
      split
      next hlt =>
        have hfresh : ∀ r ∈ first :: paths, r.parts ≠ path.parts := by
          refine List.forall_mem_cons.mpr ⟨Path.parts_ne_of_lt hlt, fun r hmem => ?_⟩
          exact Path.parts_ne_of_lt (Std.TransCmp.lt_trans hlt (hfirst r hmem))
        rw [List.mem_cons, or_comm, and_iff_left hfresh]
      next heq =>
        have hparts : first.parts = path.parts := ((Path.compare_eq_iff path first).mp heq).symm
        simp [hparts]
      next hgt =>
        have hparts : first.parts ≠ path.parts :=
          (Path.parts_ne_of_lt (Std.OrientedCmp.lt_of_gt hgt)).symm
        rw [List.mem_cons, ih hrest, List.mem_cons, List.forall_mem_cons, or_assoc]
        simp only [ne_eq, hparts, not_false_eq_true, true_and]

theorem ascending_insertPath {paths : List Path} (hascending : Path.Ascending paths) :
    Path.Ascending (insertPath path paths) := by
  induction paths with
  | nil => exact List.pairwise_singleton _ _
  | cons first paths ih =>
      obtain ⟨hfirst, hrest⟩ := List.pairwise_cons.mp hascending
      rw [insertPath]
      split
      next hlt =>
        refine List.pairwise_cons.mpr ⟨List.forall_mem_cons.mpr ⟨hlt, fun r hmem => ?_⟩, hascending⟩
        exact Std.TransCmp.lt_trans hlt (hfirst r hmem)
      next => exact hascending
      next hgt =>
        refine List.pairwise_cons.mpr ⟨fun r hmem => ?_, ih hrest⟩
        rcases (mem_insertPath_iff hrest).mp hmem with hmem | ⟨rfl, -⟩
        · exact hfirst r hmem
        · exact Std.OrientedCmp.lt_of_gt hgt

theorem sorted_update (hchange : ∀ r, (change r).path = r.path) (hsorted : Sorted records) :
    Sorted (update path change records) := by
  rw [sorted_iff_ascending, map_path_update hchange]
  exact ascending_insertPath (sorted_iff_ascending.mp hsorted)

/-- The record of the changed path is changed, or opened if there was none. -/
theorem find?_update_of_eq {p : Path} (hchange : ∀ r, (change r).path = r.path)
    (hsorted : Sorted records) (heq : compare p path = .eq) :
    (update path change records).find? (fun r => compare p r.path = .eq) =
      some (change ((records.find? fun r => compare p r.path = .eq).getD ⟨path, #[]⟩)) := by
  have hsame : ∀ r : FileRecord, compare p r.path = compare path r.path :=
    fun r => Std.TransCmp.congr_left heq
  simp only [hsame]
  induction records with
  | nil => simp [update, hchange]
  | cons first records ih =>
      obtain ⟨hfirst, hrest⟩ := List.pairwise_cons.mp hsorted
      rw [update]
      split
      next hlt =>
        have hnone : (first :: records).find? (fun r => compare path r.path = .eq) = none := by
          refine List.find?_eq_none.mpr (List.forall_mem_cons.mpr ⟨by simp [hlt], fun r hmem => ?_⟩)
          simp [Std.TransCmp.lt_trans hlt (hfirst r hmem)]
        rw [hnone]
        simp [hchange]
      next heq => simp [hchange, heq]
      next hgt => simpa [List.find?_cons, hgt] using ih hrest

/-- The records of other paths stay as they are. -/
theorem find?_update_of_ne {p : Path} (hchange : ∀ r, (change r).path = r.path)
    (hne : compare p path ≠ .eq) :
    (update path change records).find? (fun r => compare p r.path = .eq) =
      records.find? fun r => compare p r.path = .eq := by
  induction records with
  | nil => simp [update, hchange, hne]
  | cons first records ih =>
      rw [update]
      split
      next hlt => simp [List.find?_cons, hchange, hne]
      next heq =>
        have hother : compare p first.path ≠ .eq := by
          rwa [← Std.TransCmp.congr_right heq]
        simp [hchange, hother]
      next hgt => rw [List.find?_cons, List.find?_cons, ih]

/-- A collector that keeps, for every path, what it should of the events that `recorded` gives for the
path. -/
structure Keeps (c : Collector) (recorded : Path → List Event) : Prop where
  sorted : Sorted c.records
  events_eq : ∀ p, c.events p = FileRecord.bounded (recorded p)

theorem keeps_empty : Collector.empty.Keeps fun _ => [] where
  sorted := .nil
  events_eq _ := rfl

/-- Recording an event adds it to the events of its path and of no other. -/
theorem Keeps.record {c : Collector} {recorded : Path → List Event} (hkeeps : c.Keeps recorded)
    (path : Path) (e : Event) :
    (c.record path e).Keeps fun p => recorded p ++ if p.parts = path.parts then [e] else [] where
  sorted := sorted_update (fun r => r.path_receive e) hkeeps.sorted
  events_eq p := by
    have hevents := hkeeps.events_eq p
    rw [events, recordOf] at hevents ⊢
    rw [Collector.record]
    by_cases hsame : p.parts = path.parts
    · rw [find?_update_of_eq (fun r => r.path_receive e) hkeeps.sorted
        ((Path.compare_eq_iff p path).mpr hsame), Option.getD_some, if_pos hsame]
      apply FileRecord.toList_receive
      cases hfound : c.records.find? fun r => compare p r.path = .eq with
      | none => rwa [hfound] at hevents
      | some r => rwa [hfound] at hevents
    · rw [find?_update_of_ne (fun r => r.path_receive e)
        (fun heq => hsame ((Path.compare_eq_iff p path).mp heq)), if_neg hsame, List.append_nil,
        hevents]

/-- Files at work have no part in the records. -/
theorem Keeps.startFile {c : Collector} {recorded : Path → List Event} (hkeeps : c.Keeps recorded)
    (path : Path) : (c.startFile path).Keeps recorded :=
  ⟨hkeeps.sorted, hkeeps.events_eq⟩

end Collector

end TableLexer
