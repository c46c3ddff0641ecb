import TableLexer.Diagnostic.Code
import TableLexer.Diagnostic.Level
import TableLexer.Json
import TableLexer.Source
import TableLexer.Text.Layout
/-!
Events: what the program has to say, with the place it is about and named details.
-/

namespace TableLexer

/-- Named details in the order of their names, each name once. -/
abbrev Details : Type := List (String × String)

namespace Details

/-- Gives a name a value; an earlier value of the same name is replaced. -/
def put (details : Details) (name value : String) : Details :=
  match details with
  | [] => [(name, value)]
  | (n, v) :: rest =>
    if name < n then (name, value) :: (n, v) :: rest
    else if name = n then (name, value) :: rest
    else (n, v) :: put rest name value

end Details

/-- Something that happened.  The time of an event is not part of it; whoever writes it adds it. -/
structure Event where
  level : Level
  code : Code
  message : String
  span : Option Span := none
  details : Details := []
deriving DecidableEq, Repr

namespace Event

def withDetail (e : Event) (name value : String) : Event :=
  { e with details := e.details.put name value }

/-- The name of the detail that holds the path of the file at work. -/
def filePathName : String := "file_path"

/-- The name of the detail that holds the number of the file at work. -/
def fileIdName : String := "file_id"

def isError (e : Event) : Bool := e.level = .error

def isWarning (e : Event) : Bool := e.level = .warning

def isInfo (e : Event) : Bool := e.level = .info

def line (e : Event) : String :=
  "[" ++ e.level.word ++ "] " ++ e.code.text ++ " - " ++ e.message ++
    (match e.span with
      | some span => " at " ++ span.start.text
      | none => "")

/-- An event on several lines, with everything that is known about its code. -/
def report (e : Event) : String :=
  let known :=
    if e.isError then
      "\n  Recoverable: " ++ Text.ofBool e.code.isRecoverable ++
        "\n  Requires halt: " ++ Text.ofBool e.code.halts
    else ""
  let described :=
    if e.code.description = Code.noDescription then ""
    else "\n  Description: " ++ e.code.description
  let advised :=
    if e.code.action = Code.noAction then ""
    else "\n  Recommended action: " ++ e.code.action
  let detailed :=
    if e.details.isEmpty then ""
    else
      "\n  Context:" ++
        String.join (e.details.map fun (name, value) => "\n    " ++ name ++ ": " ++ value)
  e.line ++ "\n  Category: " ++ e.code.category ++ "\n  Severity: " ++ e.code.severity.word ++
    known ++ described ++ advised ++ detailed

/-- An event as a JSON object, its members in the order of their names.  `time` is when it
happened. -/
def toJson (time : String) (e : Event) : Json :=
  let details :=
    if e.details.isEmpty then []
    else [("context", Json.object (e.details.map fun (name, value) => (name, .string value)))]
  let metadata :=
    if e.isError then
      [("error_metadata", Json.object [
        ("description", .string e.code.description),
        ("recommended_action", .string e.code.action),
        ("recoverable", .boolean e.code.isRecoverable),
        ("requires_halt", .boolean e.code.halts)])]
    else []
  let place :=
    match e.span with
    | some span =>
      [("span", Json.object [
        ("end_column", .number span.stop.column),
        ("end_line", .number span.stop.line),
        ("start_column", .number span.start.column),
        ("start_line", .number span.start.line)])]
    | none => []
  .object ([("category", .string e.code.category), ("code", .string e.code.text)] ++ details ++
    metadata ++ [("level", .string e.level.word), ("message", .string e.message),
      ("severity", .string e.code.severity.word)] ++ place ++ [("timestamp", .string time)])

end Event

end TableLexer
