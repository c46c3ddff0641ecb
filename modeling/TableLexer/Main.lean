import Std.Time.DateTime.Timestamp
import TableLexer.CommandLine.Invocation
import TableLexer.Moment
/-!
The program.  It answers inquiries from the file system, feeds lines of input to a dialogue, and
writes the output.
-/

namespace TableLexer.CommandLine

def programName : String := "smallc_lexer"

/-- Why a path cannot be read, by what the operating system says. -/
def unreachableOf : IO.Error → Unreachable
  | .inappropriateType _ _ _ => .throughFile
  | .invalidArgument _ code _ => if code = 22 then .zeroCharacter else .nameTooLong
  | _ => .missing

/-- What the file system answers about a path. -/
def lookUp (path : Path) : IO FileAnswer :=
  try
    let location ← IO.FS.realPath path.text
    if ← location.isDir then return .directory
    return .file ⟨location.toString⟩ (← IO.FS.readBinFile location)
  catch _ =>
    try
      return .file path (← IO.FS.readBinFile path.text)
    catch e =>
      return .unreachable (unreachableOf e)

/-- The value of an inquiry, answered by the file system. -/
def conduct {α : Type} : Inquiry α → IO α
  | .done value => return value
  | .ask path next => do
    let answer ← lookUp path
    conduct (next answer)

/-- The value of an inquiry, and how long it took in writing. -/
def conductTimed {α : Type} (x : Inquiry α) : IO (α × String) := do
  let began ← IO.monoNanosNow
  let value ← conduct x
  let ended ← IO.monoNanosNow
  return (value, Hundredths.text (Hundredths.roundHalfEven (ended - began) 10000))

def now : IO String := do
  let time ← Std.Time.Timestamp.now
  let nanoseconds := time.toNanosecondsSinceUnixEpoch.toInt.toNat
  return Moment.text (nanoseconds / 1000000000) (nanoseconds % 1000000000)

def write (outputs : List Output) : IO Unit := do
  let standard ← IO.getStdout
  let errors ← IO.getStderr
  for output in outputs do
    match output.channel with
    | .standard => standard.putStr output.text
    | .errors => errors.putStr output.text
  standard.flush
  errors.flush

/-- Performs acts on a console. -/
def display (c : Console) (acts : List Act) (elapsed : String) : IO Console := do
  let (outputs, c) :=
    { c with session := { c.session with elapsed }, time := ← now }.performAll acts
  write outputs
  return c

/-- Feeds a dialogue until it or the input has ended. -/
partial def converseOn (p : Pipeline) (waiting : Dialogue) (c : Console) : IO Unit := do
  let line ← (← IO.getStdin).getLine
  if line = "" then
    let _ ← display c (waiting.conclude p) ""
  else
    let ((acts, next), elapsed) ←
      conductTimed (waiting.feed p c.session.wantsDebug (Dialogue.withoutEnding line))
    let c ← display c acts elapsed
    match next with
    | some waiting => converseOn p waiting c
    | none => return ()

/-- The variables of the environment that matter. -/
def environment : IO Environment := do
  let bindings ← Environment.names.filterMapM fun name => do
    return (← IO.getEnv name).map fun value => (name, value)
  return ⟨bindings⟩

end TableLexer.CommandLine

open TableLexer TableLexer.CommandLine in
def main (arguments : List String) : IO UInt32 := do
  let (turn, elapsed) ←
    conductTimed (Invocation.begin (← environment) programName arguments)
  let c ← display (Console.ofPreferences turn.logging "" "") turn.acts elapsed
  match turn.phase with
  | .finished exitCode => return exitCode.toUInt32
  | .waiting pipeline dialogue =>
    converseOn pipeline dialogue c
    return 0
