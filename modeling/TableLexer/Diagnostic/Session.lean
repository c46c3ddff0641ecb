import TableLexer.Diagnostic.Collector
import TableLexer.Diagnostic.Notice
import TableLexer.Preferences
/-!
A logging session: it turns notices into events, hands them to the service behind its threshold, and
collects the errors and warnings of the file at work.
-/

namespace TableLexer

/-- A text with at most as many characters as a message may have.  A longer one ends in dots. -/
def clip (text : String) : String :=
  if text.length ≤ limits.messageLength then text
  else String.ofList (text.toList.take (limits.messageLength - 3) ++ ['.', '.', '.'])

structure FileContext where
  path : Path
  id : Nat
deriving DecidableEq, Repr

/-- The state of logging.  `received` are the events that the service let through since they were
last taken; `elapsed` is how a time that a computation took is written. -/
structure Session where
  preferences : Preferences.Logging
  threshold : Level
  elapsed : String
  context : Option FileContext := none
  collector : Collector := .empty
  received : Array Event := #[]

namespace Session

/-- The event of a notice.  Long details are clipped, and so is the message of an error or a
warning; the file at work is added last, over details of the same names. -/
def eventOf (s : Session) (n : Notice) : Event :=
  let message :=
    match n.level with
    | .error | .warning => clip n.message
    | .info | .debug => n.message
  let stated : Details :=
    n.details.foldl (fun (ds : Details) (d : String × String) => ds.put d.1 (clip d.2)) []
  let details : Details := if n.timed then stated.put "duration_ms" s.elapsed else stated
  let event : Event := { level := n.level, code := n.code, message, span := n.span, details }
  match s.context with
  | some file =>
    if s.preferences.fileContext then
      (event.withDetail Event.filePathName file.path.text).withDetail Event.fileIdName
        (toString file.id)
    else event
  | none => event

/-- Hands an event to the service. -/
def deliver (s : Session) (e : Event) : Session :=
  if s.threshold.passes e.level then { s with received := s.received.push e } else s

/-- Collects an error or a warning for the file at work. -/
def collect (s : Session) (e : Event) : Session :=
  match s.context with
  | some file =>
    if e.isError || e.isWarning then
      { s with collector := s.collector.record file.path e }
    else s
  | none => s

/-- Turns a notice into an event, delivers it, and collects it if it belongs to a file. -/
def emit (s : Session) (n : Notice) : Session :=
  let e := s.eventOf n
  (s.deliver e).collect e

def wantsDebug (s : Session) : Bool :=
  s.preferences.threshold.passes .debug

/-- Emits a notice; a debug notice that nobody wants is dropped before it becomes an event. -/
def post (s : Session) (n : Notice) : Session :=
  if n.level = .debug ∧ s.wantsDebug = false then s else s.emit n

def postAll (s : Session) (notices : List Notice) : Session :=
  notices.foldl post s

/-- Runs a computation that has notices to post. -/
def run {α : Type} (s : Session) (x : Logged α) : α × Session :=
  (x.value, s.postAll x.notices)

def enter (s : Session) (path : Path) (id : Nat) : Session :=
  { s with context := some ⟨path, id⟩, collector := s.collector.startFile path }

def leave (s : Session) : Session :=
  { s with context := none }

def clearCollected (s : Session) : Session :=
  { s with collector := .empty }

/-- The events received since they were last taken, and the session without them. -/
def takeReceived (s : Session) : List Event × Session :=
  (s.received.toList, { s with received := #[] })

end Session

end TableLexer
