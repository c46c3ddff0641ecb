import Mathlib.Algebra.GroupWithZero.Nat
import Mathlib.Data.List.Dedup
import Mathlib.Data.List.DropRight
import Mathlib.Data.List.Induction
import Mathlib.Data.List.Sort
import TableLexer.Proofs.Diagnostic.Collecting
/-!
Histories of a collector.  A collector is asked to record events, to start files and to forget everything,
in any order.  What it knows of a path are the first events that were recorded of this path since it last
forgot everything, whatever became of other paths in between.  Its records stand in the order of paths, each
under the spelling that came first.
-/

namespace TableLexer

/-- Lists in a strict order that have the same members are equal. -/
theorem eq_of_pairwise_lt {α : Type} {cmp : α → α → Ordering} [Std.TransCmp cmp] {l l' : List α}
    (hl : l.Pairwise fun a b => cmp a b = .lt) (hl' : l'.Pairwise fun a b => cmp a b = .lt)
    (hmem : ∀ a, a ∈ l ↔ a ∈ l') : l = l' := by
  have hirrefl : Std.Irrefl fun a b => cmp a b = .lt :=
    ⟨fun a hlt => by cases hlt.symm.trans (Std.ReflCmp.compare_self : cmp a a = .eq)⟩
  have hantisymm : Std.Antisymm fun a b => cmp a b = .lt :=
    ⟨fun a b hlt hgt => absurd hgt (Std.OrientedCmp.not_lt_of_lt hlt)⟩
  exact hl.eq_of_mem_iff hl' hmem

namespace Path

/-- How a path was spelled when it came first among some paths. -/
def spelling? (paths : List Path) (p : Path) : Option Path :=
  paths.find? fun q => q.parts = p.parts

/-- The different ones of some paths in their order, each as it was spelled first. -/
def different (paths : List Path) : List Path :=
  (paths.filter fun p => spelling? paths p = some p).dedup.mergeSort fun p q => (compare p q).isLE

variable {paths : List Path} {p q : Path}

theorem parts_of_spelling? (hspelling : spelling? paths p = some q) : q.parts = p.parts := by
  simpa using List.find?_some hspelling

/-- Paths of the same parts have one spelling. -/
theorem spelling?_congr (hparts : p.parts = q.parts) : spelling? paths p = spelling? paths q := by
  rw [spelling?, hparts, spelling?]

theorem mem_different_iff : p ∈ different paths ↔ spelling? paths p = some p := by
  rw [different, List.mem_mergeSort, List.mem_dedup, List.mem_filter, decide_eq_true_iff,
    and_iff_right_of_imp]
  exact List.mem_of_find?_eq_some

theorem ascending_different (paths : List Path) : Ascending (different paths) := by
  have hle : (different paths).Pairwise fun p q => (compare p q).isLE = true :=
    List.pairwise_mergeSort (fun _ _ _ => Std.TransCmp.isLE_trans)
      (fun p q => by cases h : compare p q <;> simp [Std.OrientedCmp.eq_swap (a := q), h]) _
  have hne : (different paths).Pairwise (· ≠ ·) :=
    (List.mergeSort_perm _ _).nodup_iff.mpr (List.nodup_dedup _)
  refine (hle.and hne).imp_of_mem fun {p q} hp hq ⟨hle, hne⟩ => ?_
  cases hcompare : compare p q with
  | lt => rfl
  | eq =>
      rw [mem_different_iff] at hp hq
      rw [spelling?_congr ((compare_eq_iff p q).mp hcompare), hq] at hp
      exact absurd (Option.some.inj hp).symm hne
  | gt => simp [hcompare] at hle

@[simp] theorem different_nil : different [] = [] := by
  simp [different]

/-- No parts are lost when paths are put in order. -/
theorem mem_map_parts_different_iff {parts : List PathPart} :
    parts ∈ (different paths).map Path.parts ↔ parts ∈ paths.map Path.parts := by
  rw [List.mem_map, List.mem_map]
  constructor
  · rintro ⟨p, hmem, rfl⟩
    exact ⟨p, List.mem_of_find?_eq_some (mem_different_iff.mp hmem), rfl⟩
  · rintro ⟨p, hmem, rfl⟩
    cases hspelling : spelling? paths p with
    | none => simpa using List.find?_eq_none.mp hspelling p hmem
    | some q =>
        have hparts := parts_of_spelling? hspelling
        exact ⟨q, mem_different_iff.mpr ((spelling?_congr hparts).trans hspelling), hparts⟩

theorem spelling?_eq_none_iff :
    spelling? paths p = none ↔ ∀ q ∈ different paths, q.parts ≠ p.parts := by
  have hparts : p.parts ∈ (different paths).map Path.parts ↔ p.parts ∈ paths.map Path.parts :=
    mem_map_parts_different_iff
  rw [List.mem_map, List.mem_map] at hparts
  rw [spelling?, List.find?_eq_none]
  simpa using not_congr hparts.symm

/-- A path that comes later does not change how an earlier one is spelled. -/
theorem spelling?_concat : spelling? (paths ++ [q]) p =
    (spelling? paths p).or (if q.parts = p.parts then some q else none) := by
  rw [spelling?, List.find?_append, List.find?_singleton, spelling?]
  simp

/-- One more path joins the different ones in order, unless it is there in some spelling. -/
theorem insertPath_different (paths : List Path) (path : Path) :
    Collector.insertPath path (different paths) = different (paths ++ [path]) := by
  refine eq_of_pairwise_lt (Collector.ascending_insertPath (ascending_different paths))
    (ascending_different _) fun p => ?_
  rw [Collector.mem_insertPath_iff (ascending_different paths), ← spelling?_eq_none_iff,
    mem_different_iff, mem_different_iff, spelling?_concat]
  cases hspelling : spelling? paths p with
  | none =>
      by_cases hparts : path.parts = p.parts
      · rw [spelling?_congr hparts, hspelling]
        simp [hparts, eq_comm]
      · have hne : p ≠ path := fun heq => hparts (heq ▸ rfl)
        simp [hparts, hne]
  | some q =>
      have hne : ¬ (p = path ∧ spelling? paths path = none) := by
        rintro ⟨rfl, hnone⟩
        rw [hspelling] at hnone
        cases hnone
      rw [or_iff_left hne, Option.some_or]

theorem foldl_insertPath_different (paths others : List Path) :
    others.foldl (fun paths path => Collector.insertPath path paths) (different paths) =
      different (paths ++ others) := by
  induction others generalizing paths with
  | nil => rw [List.foldl_nil, List.append_nil]
  | cons path others ih =>
      rw [List.foldl_cons, insertPath_different, ih, List.append_assoc, List.singleton_append]

/-- Some of the parts of paths stand in one order, however the paths were given. -/
theorem filter_map_parts_different_congr {others : List Path} {test : List PathPart → Bool}
    (hsame : ∀ parts, test parts = true →
      (parts ∈ paths.map Path.parts ↔ parts ∈ others.map Path.parts)) :
    ((different paths).map Path.parts).filter test =
      ((different others).map Path.parts).filter test := by
  have hascending (paths : List Path) : (((different paths).map Path.parts).filter test).Pairwise
      fun parts parts' => parts.compareLex compare parts' = .lt := by
    refine (List.pairwise_map.mpr ?_).filter _
    exact (ascending_different paths).imp fun {p q} hlt => (Path.compare_eq p q).symm.trans hlt
  refine eq_of_pairwise_lt (hascending paths) (hascending others) fun parts => ?_
  rw [List.mem_filter, List.mem_filter, mem_map_parts_different_iff, mem_map_parts_different_iff]
  exact and_congr_left fun htest => hsame parts htest

end Path

/-- Something that is asked of a collector. -/
inductive CollectorCall where
  | record (path : Path) (e : Event)
  | startFile (path : Path)
  | clear
deriving DecidableEq

namespace CollectorCall

/-- The event that a call records of the path with some parts. -/
def eventOf? (parts : List PathPart) : CollectorCall → Option Event
  | record path e => if parts = path.parts then some e else none
  | startFile _ | clear => none

/-- The path that a call records an event of. -/
def recordedPath? : CollectorCall → Option Path
  | record path _ => some path
  | startFile _ | clear => none

/-- The path of the file that a call starts. -/
def startedPath? : CollectorCall → Option Path
  | startFile path => some path
  | record _ _ | clear => none

/-- The path that a call names, be it for an event or for a file that starts. -/
def namedPath? : CollectorCall → Option Path
  | record path _ | startFile path => some path
  | clear => none

/-- Whether a call has to do with the events of the path with some parts. -/
def concerns (parts : List PathPart) : CollectorCall → Bool
  | record path _ => parts = path.parts
  | startFile _ => false
  | clear => true

/-- The calls after the last one that clears the collector. -/
def sinceClear (calls : List CollectorCall) : List CollectorCall :=
  calls.rtakeWhile fun c => c ≠ .clear

/-- The events that were recorded of a path since the collector was cleared. -/
def recordedOf (calls : List CollectorCall) (p : Path) : List Event :=
  (sinceClear calls).filterMap (eventOf? p.parts)

/-- The paths that events were recorded of since the collector was cleared: in order, each once, and as it
was spelled first. -/
def recordedPaths (calls : List CollectorCall) : List Path :=
  Path.different ((sinceClear calls).filterMap recordedPath?)

/-- The paths that were named since the collector was cleared, for an event or for a file that starts: in
order, each once, and as it was spelled first. -/
def namedPaths (calls : List CollectorCall) : List Path :=
  Path.different ((sinceClear calls).filterMap namedPath?)

theorem sinceClear_concat_clear (calls : List CollectorCall) :
    sinceClear (calls ++ [.clear]) = [] := by
  rw [sinceClear, List.rtakeWhile_concat_neg]
  simp

theorem sinceClear_concat {c : CollectorCall} (hclear : c ≠ .clear) (calls : List CollectorCall) :
    sinceClear (calls ++ [c]) = sinceClear calls ++ [c] := by
  rw [sinceClear, List.rtakeWhile_concat_pos, sinceClear]
  simpa using hclear

/-- Calls that have nothing to do with a path can be left out before the others are looked at. -/
theorem sinceClear_filter_concerns (parts : List PathPart) (calls : List CollectorCall) :
    sinceClear (calls.filter (concerns parts)) = (sinceClear calls).filter (concerns parts) := by
  induction calls using List.reverseRecOn with
  | nil => rfl
  | append_singleton calls c ih =>
      rw [List.filter_append]
      by_cases hclear : c = .clear
      · rw [hclear, List.filter_cons_of_pos rfl, List.filter_nil, sinceClear_concat_clear,
          sinceClear_concat_clear, List.filter_nil]
      · rw [sinceClear_concat hclear, List.filter_append]
        cases hconcerns : concerns parts c with
        | true => rw [List.filter_cons_of_pos hconcerns, List.filter_nil, sinceClear_concat hclear, ih]
        | false =>
            rw [List.filter_cons_of_neg (by simp [hconcerns]), List.filter_nil, List.append_nil,
              List.append_nil, ih]

variable {recent : List CollectorCall} {parts : List PathPart}

/-- A path is named by the calls that record its events and by those that start its file. -/
theorem mem_named_iff : parts ∈ (recent.filterMap namedPath?).map Path.parts ↔
    parts ∈ (recent.filterMap recordedPath?).map Path.parts ∨
      parts ∈ (recent.filterMap startedPath?).map Path.parts := by
  induction recent with
  | nil => simp
  | cons c recent ih =>
      cases c with
      | record path e => simp_all [namedPath?, recordedPath?, startedPath?, or_assoc]
      | startFile path => simp_all [namedPath?, recordedPath?, startedPath?, or_left_comm]
      | clear => simp_all [namedPath?, recordedPath?, startedPath?]

theorem mem_recorded_of_ne_nil (hrecorded : recent.filterMap (eventOf? parts) ≠ []) :
    parts ∈ (recent.filterMap recordedPath?).map Path.parts := by
  obtain ⟨e, he⟩ := List.exists_mem_of_ne_nil _ hrecorded
  obtain ⟨c, hmem, hevent⟩ := List.mem_filterMap.mp he
  cases c with
  | record path e =>
      rw [eventOf?] at hevent
      split at hevent
      next hparts =>
        exact List.mem_map.mpr ⟨path, List.mem_filterMap.mpr ⟨_, hmem, rfl⟩, hparts.symm⟩
      next => cases hevent
  | startFile path => cases hevent
  | clear => cases hevent

theorem recordedOf_filter_concerns (calls : List CollectorCall) (p : Path) :
    recordedOf (calls.filter (concerns p.parts)) p = recordedOf calls p := by
  rw [recordedOf, sinceClear_filter_concerns, List.filterMap_filter, recordedOf]
  congr 1
  funext c
  cases c with
  | record path e =>
      by_cases hparts : p.parts = path.parts <;> simp [concerns, eventOf?, hparts]
  | startFile path => rfl
  | clear => rfl

end CollectorCall

namespace Collector

open CollectorCall

/-- The collector after a call. -/
def call (c : Collector) : CollectorCall → Collector
  | .record path e => c.record path e
  | .startFile path => c.startFile path
  | .clear => .empty

/-- A new collector after some calls. -/
def afterCalls (calls : List CollectorCall) : Collector := calls.foldl call .empty

variable {c : Collector} {recent : List CollectorCall}

/-- What a collector knows after some calls, none of which clears it: the first events of every path, the
paths with events, and the files that started. -/
structure Tracks (c : Collector) (recent : List CollectorCall) : Prop where
  keeps : c.Keeps fun p => recent.filterMap (eventOf? p.parts)
  paths_eq : c.records.map FileRecord.path = Path.different (recent.filterMap recordedPath?)
  atWork_eq : c.atWork = Path.different (recent.filterMap startedPath?)

theorem tracks_empty : Collector.empty.Tracks [] :=
  ⟨keeps_empty, Path.different_nil.symm, Path.different_nil.symm⟩

theorem Tracks.record (htracks : c.Tracks recent) (path : Path) (e : Event) :
    (c.record path e).Tracks (recent ++ [.record path e]) where
  keeps := by
    have hrecorded (p : Path) : (recent ++ [CollectorCall.record path e]).filterMap (eventOf? p.parts) =
        recent.filterMap (eventOf? p.parts) ++ if p.parts = path.parts then [e] else [] := by
      rw [List.filterMap_append]
      by_cases hparts : p.parts = path.parts <;> simp [eventOf?, hparts]
    simp only [hrecorded]
    exact htracks.keeps.record path e
  paths_eq := by
    rw [Collector.record, map_path_update fun r => r.path_receive e, htracks.paths_eq,
      Path.insertPath_different, List.filterMap_append]
    rfl
  atWork_eq := by
    rw [List.filterMap_append]
    exact htracks.atWork_eq.trans (congrArg Path.different (List.append_nil _).symm)

theorem Tracks.startFile (htracks : c.Tracks recent) (path : Path) :
    (c.startFile path).Tracks (recent ++ [.startFile path]) where
  keeps := by
    have hrecorded (p : Path) : (recent ++ [CollectorCall.startFile path]).filterMap (eventOf? p.parts) =
        recent.filterMap (eventOf? p.parts) := by
      rw [List.filterMap_append]
      exact List.append_nil _
    simp only [hrecorded]
    exact htracks.keeps.startFile path
  paths_eq := by
    rw [List.filterMap_append]
    exact htracks.paths_eq.trans (congrArg Path.different (List.append_nil _).symm)
  atWork_eq := by
    rw [Collector.startFile, htracks.atWork_eq, Path.insertPath_different, List.filterMap_append]
    rfl

/-- After every history the collector knows what was asked of it since it was cleared. -/
theorem tracks_afterCalls (calls : List CollectorCall) :
    (afterCalls calls).Tracks (sinceClear calls) := by
  induction calls using List.reverseRecOn with
  | nil => exact tracks_empty
  | append_singleton calls c ih =>
      rw [afterCalls, List.foldl_concat, ← afterCalls]
      cases c with
      | record path e =>
          rw [sinceClear_concat (by simp)]
          exact ih.record path e
      | startFile path =>
          rw [sinceClear_concat (by simp)]
          exact ih.startFile path
      | clear =>
          rw [sinceClear_concat_clear]
          exact tracks_empty

/-- The record of a path with events is found under its path. -/
theorem recordOf_of_mem (hsorted : Sorted c.records) {r : FileRecord} (hmem : r ∈ c.records) :
    c.recordOf r.path = r := by
  obtain ⟨before, rest, hrecords⟩ := List.append_of_mem hmem
  rw [Sorted, hrecords, List.pairwise_append] at hsorted
  rw [recordOf, hrecords, List.find?_append, List.find?_eq_none.mpr, Option.none_or,
    List.find?_cons_of_pos, Option.getD_some]
  · simp
  · intro r' hmem'
    simp [Std.OrientedCmp.gt_of_lt (hsorted.2.2 r' hmem' r List.mem_cons_self)]

theorem map_events_records (hsorted : Sorted c.records) :
    (c.records.map fun r => r.events.toList) = (c.records.map FileRecord.path).map c.events := by
  rw [List.map_map]
  refine List.map_congr_left fun r hmem => ?_
  rw [Function.comp_apply, events, recordOf_of_mem hsorted hmem]

/-- The records with events and the named paths with events are the same, and stand in the same order. -/
theorem filter_map_events (calls : List CollectorCall) :
    ((afterCalls calls).records.map fun r => r.events.toList).filter (· ≠ []) =
      ((namedPaths calls).map (afterCalls calls).events).filter (· ≠ []) := by
  obtain ⟨hkeeps, hpaths, -⟩ := tracks_afterCalls calls
  let held (parts : List PathPart) : List Event :=
    FileRecord.bounded ((sinceClear calls).filterMap (eventOf? parts))
  have hevents : (afterCalls calls).events = held ∘ Path.parts := funext hkeeps.events_eq
  rw [map_events_records hkeeps.sorted, hpaths, hevents, ← List.map_map, ← List.map_map,
    List.filter_map (f := held), List.filter_map (f := held), namedPaths]
  congr 1
  -- A file that only started is among the named paths and not among the records, but it has no events.
  refine Path.filter_map_parts_different_congr fun parts hheld => ?_
  rw [mem_named_iff]
  refine ⟨.inl, fun _ => mem_recorded_of_ne_nil fun hnone => ?_⟩
  simp [held, hnone, FileRecord.bounded] at hheld

/-- What is added up over the records is added up over the named paths. -/
theorem sum_records {count : List Event → Nat} (hcount : count [] = 0) (calls : List CollectorCall) :
    ((afterCalls calls).records.map fun r => count r.events.toList).foldr (· + ·) 0 =
      ((namedPaths calls).map fun p => count ((afterCalls calls).events p)).sum := by
  have hfilter (lists : List (List Event)) :
      (lists.map count).sum = ((lists.filter (· ≠ [])).map count).sum := by
    induction lists with
    | nil => rfl
    | cons events lists ih =>
        cases events with
        | nil => simpa [hcount] using ih
        | cons e events => simpa using ih
  calc ((afterCalls calls).records.map fun r => count r.events.toList).sum
      = (((afterCalls calls).records.map fun r => r.events.toList).map count).sum := by
        rw [List.map_map]; rfl
    _ = (((namedPaths calls).map (afterCalls calls).events).map count).sum := by
        rw [hfilter, filter_map_events, ← hfilter]
    _ = ((namedPaths calls).map fun p => count ((afterCalls calls).events p)).sum := by
        rw [List.map_map]; rfl

/-- A collector keeps the first events of every path, and says so if there were more.  For each path it
holds the first of the events that were recorded of this path since it was cleared, up to the limit and
unchanged, and after them one marker exactly if there were more; calls about other paths make no
difference to that.  The errors and the warnings of a path are those among the events held, and all paths
together have as many events as the collector counts. -/
theorem events_afterCalls (calls : List CollectorCall) :
    (∀ p, (afterCalls calls).events p = FileRecord.bounded (recordedOf calls p) ∧
      ((afterCalls calls).events p).length =
        min (recordedOf calls p).length (limits.eventsPerFile + 1) ∧
      (afterCalls calls).errors p =
        ((afterCalls calls).events p).filter (fun e => e.level = .error) ∧
      (afterCalls calls).warnings p =
        ((afterCalls calls).events p).filter (fun e => e.level = .warning) ∧
      (afterCalls (calls.filter (concerns p.parts))).events p = (afterCalls calls).events p ∧
      ((afterCalls calls).events p = [] ∨ ∃ q ∈ namedPaths calls, q.parts = p.parts)) ∧
    FileRecord.limitMarker.level = .warning ∧ FileRecord.limitMarker.code.text = "W003" ∧
    (afterCalls calls).eventCount =
      ((namedPaths calls).map fun p => ((afterCalls calls).events p).length).sum := by
  have hevents (calls : List CollectorCall) (p : Path) :
      (afterCalls calls).events p = FileRecord.bounded (recordedOf calls p) :=
    (tracks_afterCalls calls).keeps.events_eq p
  refine ⟨fun p => ⟨hevents calls p, ?_, rfl, rfl, ?_, ?_⟩, rfl, rfl, sum_records rfl calls⟩
  · rw [hevents, FileRecord.length_bounded]
  · rw [hevents, hevents, recordedOf_filter_concerns]
  · by_cases hnone : recordedOf calls p = []
    · left
      rw [hevents, hnone]
      rfl
    · right
      have hparts := mem_named_iff.mpr (.inl (mem_recorded_of_ne_nil hnone))
      exact List.mem_map.mp (Path.mem_map_parts_different_iff.mpr hparts)

end Collector

end TableLexer
