import TableLexer.Diagnostic.Session
/-!
The console: acts of a program are turned into output, one after another.  Events go to the same
console; errors take the channel for errors.
-/

namespace TableLexer.CommandLine

inductive Channel where
  | standard
  | errors
deriving DecidableEq, Repr

structure Output where
  channel : Channel
  text : String
deriving DecidableEq, Repr

/-- What a program does that others can see. -/
inductive Act where
  | post (notice : Notice)
  | print (text : String)
  | complain (text : String)
  | enter (path : Path) (id : Nat)
  | leave
  | report
  | forget
deriving DecidableEq, Repr

/-- A session of logging with its console.  `time` is how the present time is written. -/
structure Console where
  session : Session
  time : String

namespace Console

/-- A console whose session follows preferences. -/
def ofPreferences (p : Preferences.Logging) (time elapsed : String) : Console :=
  ⟨{ preferences := p, threshold := p.threshold, elapsed }, time⟩

def eventOutput (c : Console) (e : Event) : Output :=
  let line := if c.session.preferences.structured then (e.toJson c.time).compact else e.line
  ⟨if e.isError then .errors else .standard, line ++ "\n"⟩

/-- The output of the events that were received since the last time. -/
def flush (c : Console) : List Output × Console :=
  let (events, session) := c.session.takeReceived
  let outputs := if c.session.preferences.console then events.map c.eventOutput else []
  (outputs, { c with session })

/-- The report about the files, where it is wanted. -/
def reportText (c : Console) : String :=
  if c.session.preferences.fileReports then c.session.collector.report else ""

/-- The output of one act. -/
def perform (c : Console) : Act → List Output × Console
  | .post notice => flush { c with session := c.session.post notice }
  | .print text => ([⟨.standard, text⟩], c)
  | .complain text => ([⟨.errors, text⟩], c)
  | .enter path id => ([], { c with session := c.session.enter path id })
  | .leave => ([], { c with session := c.session.leave })
  | .report => ([⟨.errors, c.reportText⟩], c)
  | .forget => ([], { c with session := c.session.clearCollected })

def performAll (c : Console) (acts : List Act) : List Output × Console :=
  let (outputs, c) := acts.foldl
    (fun (outputs, c) act =>
      let (more, c) := perform c act
      (more.foldl Array.push outputs, c))
    ((#[] : Array Output), c)
  (outputs.toList, c)

end Console

end TableLexer.CommandLine
