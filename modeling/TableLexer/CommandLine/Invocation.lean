import TableLexer.CommandLine.Dialogue
import TableLexer.CommandLine.Options
/-!
One invocation of the program: from the arguments to the output and the exit code.
-/

namespace TableLexer.CommandLine

/-- How an invocation goes on: it is finished with an exit code, or it waits for input. -/
inductive Phase where
  | finished (exitCode : Nat)
  | waiting (pipeline : Pipeline) (dialogue : Dialogue)

/-- What an invocation does until it is finished or waits for input, and how it logs. -/
structure Turn where
  logging : Preferences.Logging
  acts : List Act
  phase : Phase

namespace Invocation

/-- The exit code of an invocation that did what it was asked for. -/
def success : Nat := 0

/-- The exit code of an invocation with errors in a program or a table. -/
def failure : Nat := 1

/-- The exit code of an invocation that could not start. -/
def misuse : Nat := 2

def setupNotices : List Notice := [
  .success .setupDone "Global logging system initialized" [],
  .debug "Lexical limits initialized" [
    ("max_token_count", toString limits.tokens),
    ("max_lexeme_length", toString limits.lexemeLength)]]

def processProgram (p : Pipeline) (tracing : Bool) (path : Path) (answer : FileAnswer) :
    List Act × Nat :=
  let (run, _) := p.processFile tracing path answer .initial
  let before :=
    [.print ("Processing file: " ++ path.text ++ "\n"), .enter path 0] ++
      run.notices.map .post ++ [.leave]
  match run.value with
  | .ok result =>
    (before ++ [.print (responseText result.response), .print (tokensText result), .report],
      if 0 < result.errorCount then failure else success)
  | .error e =>
    (before ++ [.complain ("\nFAILED: " ++ e.message ++ "\n"), .report], failure)

/-- Loads the tables, and then processes the program or begins a dialogue. -/
def run (p : Preferences) (program : Option Path) : Inquiry Turn := do
  let tracing := p.logging.threshold.passes .debug
  let tables ← Pipeline.load p
  let before := (setupNotices ++ tables.notices).map Act.post
  match tables.value with
  | .error e =>
    let complaint :=
      "Cannot load tables from " ++ p.tables.directory.text ++ ": " ++ e.message ++ "\n"
    return ⟨p.logging, before ++ [.complain complaint, .report], .finished failure⟩
  | .ok pipeline =>
    match program with
    | some path =>
      let (acts, exitCode) := processProgram pipeline tracing path (← .about path)
      return ⟨p.logging, before ++ acts, .finished exitCode⟩
    | none => return ⟨p.logging, before ++ Dialogue.opening, .waiting pipeline .path⟩

def preferencesOf (env : Environment) (o : Options) :
    Inquiry (Except Preferences.Fault Preferences) := do
  let chosen ←
    match o.preferences with
    | some path => (Preferences.ofFile env path) <$> .about path
    | none => pure (.ok (.ofEnvironment env))
  match chosen, o.tables with
  | .ok p, some directory => return .ok { p with tables := { p.tables with directory } }
  | _, _ => return chosen

/-- Begins an invocation.  `program` is what the program is called. -/
def begin (env : Environment) (program : String) (arguments : List String) : Inquiry Turn := do
  let logging := Preferences.Logging.ofEnvironment env
  match Options.ofArguments arguments with
  | .error e =>
    let complaint := asLines ["Error: " ++ e.message, usageText program]
    return ⟨logging, [.complain complaint], .finished misuse⟩
  | .ok options =>
    if options.help then
      return ⟨logging, [.print (helpText program)], .finished success⟩
    else
      match ← preferencesOf env options with
      | .error e =>
        return ⟨logging, [.complain (asLine ("Error: " ++ e.message))], .finished misuse⟩
      | .ok p => run p options.program

/-- Feeds lines of input to a dialogue, and then the end of the input. -/
def converse (view : FileView) (p : Pipeline) (tracing : Bool) (waiting : Dialogue) (c : Console) :
    List String → List Output
  | [] => (c.performAll (waiting.conclude p)).1
  | line :: lines =>
    let (acts, next) := (waiting.feed p tracing line).answered view
    let (outputs, c) := c.performAll acts
    match next with
    | some waiting => outputs ++ converse view p tracing waiting c lines
    | none => outputs

/-- A whole invocation whose input is known: its output and its exit code. -/
def complete (env : Environment) (view : FileView) (program : String) (arguments : List String)
    (input time elapsed : String) : List Output × Nat :=
  let turn := (begin env program arguments).answered view
  let (outputs, c) := (Console.ofPreferences turn.logging time elapsed).performAll turn.acts
  match turn.phase with
  | .finished exitCode => (outputs, exitCode)
  | .waiting pipeline dialogue =>
    (outputs ++ converse view pipeline c.session.wantsDebug dialogue c (Dialogue.linesOf input),
      success)

end Invocation

end TableLexer.CommandLine
