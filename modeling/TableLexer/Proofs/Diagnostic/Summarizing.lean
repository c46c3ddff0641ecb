import TableLexer.Proofs.Diagnostic.Recording
/-!
Summaries.  The records and the files that started are kept apart, and either may know a path that the other
does not.  A summary counts every path once, and tells each one by its events: it failed, it was warned
about, or it succeeded.
-/

namespace TableLexer

namespace Path

variable {paths others : List Path}

/-- How many different paths there are does not depend on how they are spelled, or on how often. -/
theorem length_different_congr
    (hsame : ∀ parts, parts ∈ paths.map Path.parts ↔ parts ∈ others.map Path.parts) :
    (different paths).length = (different others).length := by
  have hparts := @filter_map_parts_different_congr paths others (fun _ => true)
    fun parts _ => hsame parts
  simpa using congrArg List.length hparts

/-- Every path fails, or is warned about without failing, or does neither. -/
theorem length_eq_countP_add (fails warns : Path → Prop) [DecidablePred fails] [DecidablePred warns]
    (paths : List Path) :
    paths.length = paths.countP (fun p => ¬ fails p ∧ ¬ warns p) + paths.countP (fun p => fails p) +
      paths.countP (fun p => ¬ fails p ∧ warns p) := by
  induction paths with
  | nil => rfl
  | cons p paths ih =>
      rw [List.length_cons, ih]
      by_cases hfails : fails p
      · simp [hfails]; omega
      · by_cases hwarns : warns p <;> simp [hfails, hwarns] <;> omega

end Path

namespace Collector

open CollectorCall

/-- A file that started and a path with events are counted together. -/
theorem files_summary_afterCalls (calls : List CollectorCall) :
    (afterCalls calls).summary.files = (namedPaths calls).length := by
  obtain ⟨-, hpaths, hatWork⟩ := tracks_afterCalls calls
  have hfold (records : List FileRecord) (paths : List Path) :
      records.foldl (fun paths r => insertPath r.path paths) paths =
        (records.map FileRecord.path).foldl (fun paths path => insertPath path paths) paths := by
    rw [List.foldl_map]
  simp only [summary]
  rw [hfold, hpaths, hatWork, Path.foldl_insertPath_different]
  refine Path.length_different_congr fun parts => ?_
  rw [List.map_append, List.mem_append, Path.mem_map_parts_different_iff, mem_named_iff, or_comm]

/-- What is counted among the records is counted among the named paths. -/
theorem countP_records {test : List Event → Bool} (htest : test [] = false)
    (calls : List CollectorCall) :
    (afterCalls calls).records.countP (fun r => test r.events.toList) =
      (namedPaths calls).countP fun p => test ((afterCalls calls).events p) := by
  have hfilter (lists : List (List Event)) :
      lists.countP test = (lists.filter (· ≠ [])).countP test := by
    rw [List.countP_filter]
    refine List.countP_congr fun events _ => ?_
    cases events <;> simp [htest]
  calc (afterCalls calls).records.countP (fun r => test r.events.toList)
      = ((afterCalls calls).records.map fun r => r.events.toList).countP test := by
        rw [List.countP_map]; rfl
    _ = ((namedPaths calls).map (afterCalls calls).events).countP test := by
        rw [hfilter, filter_map_events, ← hfilter]
    _ = (namedPaths calls).countP fun p => test ((afterCalls calls).events p) := by
        rw [List.countP_map]; rfl

/-- A path failed if it has an error. -/
theorem failed_summary_afterCalls (calls : List CollectorCall) :
    (afterCalls calls).summary.failed =
      (namedPaths calls).countP fun p => (afterCalls calls).errors p ≠ [] := by
  have hcount := @countP_records (fun events => !(events.filter Event.isError).isEmpty) rfl calls
  refine hcount.trans (List.countP_congr fun p _ => ?_)
  simp [errors, FileRecord.errors, events]

/-- A path was warned about if it has a warning and no error. -/
theorem warned_summary_afterCalls (calls : List CollectorCall) :
    (afterCalls calls).summary.warned = (namedPaths calls).countP fun p =>
      (afterCalls calls).errors p = [] ∧ (afterCalls calls).warnings p ≠ [] := by
  have hcount := @countP_records (fun events => (events.filter Event.isError).isEmpty &&
    !(events.filter Event.isWarning).isEmpty) rfl calls
  refine hcount.trans (List.countP_congr fun p _ => ?_)
  simp [errors, FileRecord.errors, warnings, FileRecord.warnings, events]

/-- The critical errors are looked for record by record, and each one keeps the spelling of its record. -/
theorem critical_afterCalls (calls : List CollectorCall) :
    (afterCalls calls).critical = (recordedPaths calls).flatMap fun p =>
      (((afterCalls calls).errors p).filter fun e => e.code.halts).map fun e => (p, e) := by
  obtain ⟨hkeeps, hpaths, -⟩ := tracks_afterCalls calls
  rw [critical, recordedPaths, ← hpaths, List.flatMap_map]
  refine List.flatMap_congr fun r hmem => ?_
  rw [errors, recordOf_of_mem hkeeps.sorted hmem, FileRecord.errors, List.filter_filter]
  simp only [Bool.and_comm]

/-- A summary parts the files.  Every path that was named since the collector was cleared, for an event or
for a file that started, is counted once: as failed if it has an error, as warned about if it has a warning
and no error, and as succeeded otherwise, so that the files that succeeded are what is left of all files.
Errors and warnings are those of all paths together, and the critical errors are, path by path and in the
order in which they were recorded, the errors whose code asks to stop. -/
theorem summary_afterCalls (calls : List CollectorCall) :
    let c := afterCalls calls
    let paths := namedPaths calls
    c.summary.failed ≤ c.summary.files ∧ c.summary.warned ≤ c.summary.files - c.summary.failed ∧
    c.summary.files = paths.length ∧
    c.summary.failed = paths.countP (fun p => c.errors p ≠ []) ∧
    c.summary.warned = paths.countP (fun p => c.errors p = [] ∧ c.warnings p ≠ []) ∧
    c.summary.succeeded = paths.countP (fun p => c.errors p = [] ∧ c.warnings p = []) ∧
    c.summary.succeeded + c.summary.failed + c.summary.warned = c.summary.files ∧
    c.summary.errors = (paths.map fun p => (c.errors p).length).sum ∧
    c.summary.warnings = (paths.map fun p => (c.warnings p).length).sum ∧
    c.critical = (recordedPaths calls).flatMap fun p =>
      ((c.errors p).filter fun e => e.code.halts).map fun e => (p, e) := by
  intro c paths
  have hfiles : c.summary.files = paths.length := files_summary_afterCalls calls
  have hfailed : c.summary.failed = paths.countP fun p => c.errors p ≠ [] :=
    failed_summary_afterCalls calls
  have hwarned : c.summary.warned = paths.countP fun p => c.errors p = [] ∧ c.warnings p ≠ [] :=
    warned_summary_afterCalls calls
  have hrest : c.summary.succeeded = c.summary.files - c.summary.failed - c.summary.warned := rfl
  have hparted := Path.length_eq_countP_add (fun p => c.errors p ≠ []) (fun p => c.warnings p ≠ []) paths
  simp only [ne_eq, not_not] at hparted hfailed hwarned
  have hsucceeded : c.summary.succeeded =
      paths.countP fun p => c.errors p = [] ∧ c.warnings p = [] := by omega
  refine ⟨by omega, by omega, hfiles, by simpa using hfailed, by simpa using hwarned, hsucceeded,
    by omega, ?_, ?_, critical_afterCalls calls⟩
  · exact @sum_records (fun events => (events.filter Event.isError).length) rfl calls
  · exact @sum_records (fun events => (events.filter Event.isWarning).length) rfl calls

end Collector

end TableLexer
