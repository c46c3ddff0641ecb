import TableLexer.CommandLine.Console
import TableLexer.CommandLine.Stepping
/-!
The dialogue of an interactive session: it asks for the path of a program, steps through the program,
and asks again.
-/

namespace TableLexer.CommandLine

/-- What a dialogue waits for: a path, or something while it steps through a program. -/
inductive Dialogue where
  | path
  | stepping (waiting : Stepping)

namespace Dialogue

def say (utterances : List Utterance) : List Act := utterances.map fun u => .print u.text

def opening : List Act := say [.commands, .pathQuestion]

/-- What follows a program that has been stepped through. -/
def closing : List Act := [.report, .forget] ++ say [.pathQuestion]

/-- Goes on after a step: either something is waited for, or the program is done with. -/
def after (step : List Utterance × Option Stepping) : List Act × Option Dialogue :=
  match step with
  | (shown, some waiting) => (say shown, some (.stepping waiting))
  | (shown, none) => (say shown ++ closing, some .path)

/-- Opens a program and begins to step through it. -/
def openProgram (p : Pipeline) (tracing : Bool) (path : Path) (answer : FileAnswer) :
    List Act × Option Dialogue :=
  let (file, opened) := p.preprocessor.openFile .closed path answer
  match file.value with
  | .error e => (file.notices.map .post ++ say [.failure e, .pathQuestion], some .path)
  | .ok () =>
    let (pass, _) := p.preprocessor.process tracing opened
    let before := (file.notices ++ pass.notices).map .post
    match pass.value with
    | .error e => (before ++ say [.failure e, .pathQuestion], some .path)
    | .ok response =>
      let (acts, next) := after (Stepping.begin p.lexer response.text)
      (before ++ say [.response response] ++ acts, next)

/-- Goes on with a line of input; nothing is waited for after the dialogue has ended. -/
def feed (p : Pipeline) (tracing : Bool) (waiting : Dialogue) (line : String) :
    Inquiry (List Act × Option Dialogue) :=
  match waiting with
  | .path =>
    if line.toLower = "q" then return ([], none)
    else openProgram p tracing ⟨line⟩ <$> .about ⟨line⟩
  | .stepping step => return after (step.feed p.lexer line)

def conclude (p : Pipeline) (waiting : Dialogue) : List Act :=
  match waiting with
  | .path => []
  | .stepping step => say (step.conclude p.lexer) ++ closing

/-- A line of input without its ending. -/
def withoutEnding (line : String) : String :=
  String.ofList (line.toList.reverse.dropWhile fun c => c = '\r' ∨ c = '\n').reverse

def linesOf (input : String) : List String :=
  let pieces := Text.cut '\n' input
  (if pieces.getLast? = some "" then pieces.dropLast else pieces).map withoutEnding

end Dialogue

end TableLexer.CommandLine
