import TableLexer.Diagnostic.Event
import TableLexer.Limits
import TableLexer.Path
/-!
A record of the errors and warnings of every file, for a report in the end.  Files are told apart
by the parts of their paths, kept in the order of paths, and shown as they were first spelled.
-/

namespace TableLexer

/-- The events of one file, oldest first. -/
structure FileRecord where
  path : Path
  events : Array Event
deriving Repr

namespace FileRecord

/-- What stands for the events that a record has no room for. -/
def limitMarker : Event where
  level := .warning
  code := .eventLimit
  message := "Too many events for file (limit: " ++ toString limits.eventsPerFile ++ ")"

/-- Takes in an event.  The first event beyond the limit leaves a marker, the others nothing. -/
def receive (r : FileRecord) (e : Event) : FileRecord :=
  if r.events.size < limits.eventsPerFile then { r with events := r.events.push e }
  else if r.events.size = limits.eventsPerFile then { r with events := r.events.push limitMarker }
  else r

def errors (r : FileRecord) : List Event := r.events.toList.filter Event.isError

def warnings (r : FileRecord) : List Event := r.events.toList.filter Event.isWarning

end FileRecord

/-- The records of all files, and the files that were at work, each in the order of paths. -/
structure Collector where
  records : List FileRecord
  atWork : List Path
deriving Repr

namespace Collector

def empty : Collector := ⟨[], []⟩

/-- Changes the record of a path, which is opened in its place if there is none. -/
def update (path : Path) (change : FileRecord → FileRecord) :
    List FileRecord → List FileRecord
  | [] => [change ⟨path, #[]⟩]
  | r :: rest =>
    match compare path r.path with
    | .lt => change ⟨path, #[]⟩ :: r :: rest
    | .eq => change r :: rest
    | .gt => r :: update path change rest

/-- Adds a path to paths in order, unless it is there. -/
def insertPath (path : Path) : List Path → List Path
  | [] => [path]
  | p :: rest =>
    match compare path p with
    | .lt => path :: p :: rest
    | .eq => p :: rest
    | .gt => p :: insertPath path rest

def record (c : Collector) (path : Path) (e : Event) : Collector :=
  { c with records := update path (fun r => r.receive e) c.records }

/-- Records that a file is at work, even if it never has an event. -/
def startFile (c : Collector) (path : Path) : Collector :=
  { c with atWork := insertPath path c.atWork }

/-- The record of a path, which is empty if the path has no event. -/
def recordOf (c : Collector) (path : Path) : FileRecord :=
  (c.records.find? fun r => compare path r.path = .eq).getD ⟨path, #[]⟩

def events (c : Collector) (path : Path) : List Event := (c.recordOf path).events.toList

def errors (c : Collector) (path : Path) : List Event := (c.recordOf path).errors

def warnings (c : Collector) (path : Path) : List Event := (c.recordOf path).warnings

def eventCount (c : Collector) : Nat :=
  (c.records.map fun r => r.events.size).foldr (· + ·) 0

/-- The errors after which work has to stop, file by file. -/
def critical (c : Collector) : List (Path × Event) :=
  c.records.flatMap fun r =>
    (r.events.toList.filter fun e => e.isError && e.code.halts).map fun e => (r.path, e)

/-- How many files there were, and how they fared. -/
structure Summary where
  files : Nat
  succeeded : Nat
  failed : Nat
  warned : Nat
  errors : Nat
  warnings : Nat
deriving DecidableEq, Repr

/-- The summary of all files.  A file failed if it has an error, and it was warned about if it has
a warning but no error; every other file succeeded. -/
def summary (c : Collector) : Summary :=
  let files := (c.records.foldl (fun paths r => insertPath r.path paths) c.atWork).length
  let failed := c.records.countP fun r => !r.errors.isEmpty
  let warned := c.records.countP fun r => r.errors.isEmpty && !r.warnings.isEmpty
  { files, failed, warned
    succeeded := files - failed - warned
    errors := (c.records.map fun r => r.errors.length).foldr (· + ·) 0
    warnings := (c.records.map fun r => r.warnings.length).foldr (· + ·) 0 }

/-- The details that a report leaves out, since it names the file anyway. -/
def hiddenDetails : List String := ["file", Event.filePathName, Event.fileIdName]

/-- One event of a report, with its place and its details. -/
def eventText (label : String) (path : Path) (e : Event) : String :=
  let place :=
    match e.span with
    | some span => " --> " ++ path.text ++ ":" ++ span.start.text
    | none => ""
  let shown := e.details.filter fun (name, _) => !hiddenDetails.contains name
  label ++ "[" ++ e.code.text ++ "]: " ++ e.message ++ place ++ "\n" ++
    String.join (shown.map fun (name, value) => "  = " ++ name ++ ": " ++ value ++ "\n")

def errorText (path : Path) (e : Event) : String :=
  let advised := if e.code.action = Code.noAction then "" else "  = help: " ++ e.code.action ++ "\n"
  eventText "error" path e ++ "  = severity: " ++ e.code.severity.word ++ ", category: " ++
    e.code.category ++ "\n" ++ advised

/-- The part of a report about one file: its errors, then its warnings. -/
def fileText (r : FileRecord) : String :=
  if r.events.isEmpty then ""
  else
    "Checking " ++ r.path.text ++ "...\n" ++ String.join (r.errors.map (errorText r.path)) ++
      String.join (r.warnings.map (eventText "warning" r.path)) ++ "\n"

/-- A report about all files, with the totals in the end.  It is empty if there is nothing to
report. -/
def report (c : Collector) : String :=
  let s := c.summary
  String.join (c.records.map fileText) ++
    (if s.errors = 0 then "" else "Total errors: " ++ toString s.errors ++ "\n") ++
    (if s.warnings = 0 then "" else "Total warnings: " ++ toString s.warnings ++ "\n")

end Collector

end TableLexer
