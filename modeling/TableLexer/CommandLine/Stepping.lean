import TableLexer.CommandLine.Listing
/-!
Stepping through a program: the items of a program are shown one at a time, and after each of them a
command says how to go on.  Whatever the commands are, the items shown are the first ones of the
program, in order.
-/

namespace TableLexer.CommandLine

/-- What is said during a dialogue. -/
inductive Utterance where
  | commands
  | pathQuestion
  | failure (e : PreprocessorError)
  | response (r : Preprocessor.Response)
  | beginning
  | item (i : Lexer.Item)
  | quitQuestion
  | restQuestion
  | answerReminder
deriving DecidableEq, Repr

namespace Utterance

/-- An item on its own line.  Of a bad one not even the lexeme is shown. -/
def itemText : Lexer.Item → String
  | .token t => asLine (goodTokenText t)
  | .bad _ | .unrecognized _ => asLine "Invalid token"

/-- An utterance in words.  Questions wait for their answer on the same line. -/
def text : Utterance → String
  | commands => commandsText
  | pathQuestion => "Enter a path to the program you want to analyze or q to quit> "
  | failure e => asLine e.message
  | response r => responseText r
  | beginning => asLine "Starting analysis..."
  | item i => itemText i
  | quitQuestion => "Are you sure you want to quit? (y/n)> "
  | restQuestion => "Are you sure you want to analyze the rest of the file? (y/n)> "
  | answerReminder => "Please answer with (y/n)> "

end Utterance

/-- What stepping waits for: a command, or the answer to one of two questions. -/
inductive Stepping where
  | command (s : Lexer.State)
  | quitting (s : Lexer.State)
  | rushing (s : Lexer.State)

namespace Stepping

def state : Stepping → Lexer.State
  | command s | quitting s | rushing s => s

/-- All items still to come, after those of `shown`, the last of which comes first. -/
def remainingFrom (l : Lexer) (shown : List Utterance) (s : Lexer.State) : List Utterance :=
  if s.hasNext then
    match _ : l.item s with
    | (some item, reached) => remainingFrom l (.item item :: shown) reached
    | (none, _) => shown.reverse
  else shown.reverse
termination_by s.rest.length
decreasing_by
  rename_i taken
  have read := l.length_rest_item_lt s
  rw [taken] at read
  exact read (Option.some_ne_none _)

def remaining (l : Lexer) (s : Lexer.State) : List Utterance := remainingFrom l [] s

/-- Shows the next item, if there is one, and waits for a command after it. -/
def proceed (l : Lexer) (s : Lexer.State) : List Utterance × Option Stepping :=
  if s.hasNext then
    match l.item s with
    | (some item, reached) => ([.item item], some (.command reached))
    | (none, _) => ([], none)
  else ([], none)

def begin (l : Lexer) (text : String) : List Utterance × Option Stepping :=
  let (shown, next) := proceed l (.ofText text)
  (.beginning :: shown, next)

/-- Goes on with a line of input.  Capital letters count as small ones. -/
def feed (l : Lexer) (waiting : Stepping) (line : String) : List Utterance × Option Stepping :=
  match waiting, line.toLower with
  | .command s, "q" => ([.quitQuestion], some (.quitting s))
  | .command s, "r" => ([.restQuestion], some (.rushing s))
  | .command s, "h" =>
    let (shown, next) := proceed l s
    (.commands :: shown, next)
  | .command s, _ => proceed l s
  | .quitting _, "y" => ([], none)
  | .rushing s, "y" => (remaining l s, none)
  | .quitting s, "n" | .rushing s, "n" => proceed l s
  | .quitting _, _ | .rushing _, _ => ([.answerReminder], some waiting)

/-- Goes on when the input has ended: no question is answered with yes, and no command comes any
more, so the rest is shown. -/
def conclude (l : Lexer) (waiting : Stepping) : List Utterance := remaining l waiting.state

/-- Steps through a program with lines of input, until the program or the input has ended. -/
def run (l : Lexer) (shown : List Utterance) (next : Option Stepping) :
    List String → List Utterance
  | [] =>
    match next with
    | some waiting => shown ++ conclude l waiting
    | none => shown
  | line :: lines =>
    match next with
    | some waiting =>
      let (more, next) := feed l waiting line
      run l (shown ++ more) next lines
    | none => shown

end Stepping

end TableLexer.CommandLine
