import TableLexer.Lexer.Tokenize
import TableLexer.Loading
/-!
Pipelines: a preprocessor, and a lexer that tokenizes the text which the preprocessor lets pass.
-/

namespace TableLexer

/-- Why a pipeline cannot be set up, or gives up on a program. -/
inductive PipelineError where
  | fileProcessing (e : FileError)
  | preprocessing (e : PreprocessorError)
  | lexicalAnalysis (e : LexerError)
deriving DecidableEq, Repr

namespace PipelineError

def message : PipelineError → String
  | fileProcessing e => "File processing failed: " ++ e.message
  | preprocessing e => "Preprocessing failed: " ++ e.message
  | lexicalAnalysis e => "Lexical analysis failed: " ++ e.message

def code : PipelineError → Code
  | fileProcessing e => e.code
  | preprocessing e => e.code
  | lexicalAnalysis e => e.code

end PipelineError

/-- Both passes over a program. -/
structure Pipeline where
  preprocessor : Preprocessor
  lexer : Lexer

structure Pipeline.State where
  preprocessor : Preprocessor.State
  lexer : Lexer.State

namespace Pipeline

def State.initial : State := ⟨.closed, .empty⟩

/-- Everything that a program gave. -/
structure Result where
  response : Preprocessor.Response
  tokens : TokenStream
  metrics : Metrics

namespace Result

/-- Number of errors: those of the preprocessor, and the bad tokens. -/
def errorCount (r : Result) : Nat := r.response.errors.length + r.tokens.badCount

/-- Whether there are neither errors nor warnings. -/
def isClean (r : Result) : Bool := r.errorCount == 0 && !r.response.hasWarnings

end Result

def doneNotice (source : String) (r : Result) : Notice :=
  .timedSuccess .processed "Program processed" [
    ("source", source),
    ("tokens", toString r.tokens.size),
    ("warnings", toString r.response.warnings.length),
    ("errors", toString r.errorCount)]

/-- Both passes over the program that is open; it is closed after the first one, however that ends.
`source` is what the program is called. -/
def processOpen (p : Pipeline) (tracing : Bool) (source : String) (s : State) :
    Logged (Except PipelineError Result) × State :=
  let (first, opened) := p.preprocessor.process tracing s.preprocessor
  let closed := { s with preprocessor := opened.close.2 }
  match first.value with
  | .error e => (⟨.error (.preprocessing e), first.notices⟩, closed)
  | .ok response =>
    let (second, reached) := p.lexer.tokenize response.text
    let done := { closed with lexer := reached }
    match second.value with
    | .error e => (⟨.error (.lexicalAnalysis e), first.notices ++ second.notices⟩, done)
    | .ok tokens =>
      let result : Result := ⟨response, tokens, reached.metrics⟩
      (⟨.ok result, first.notices ++ second.notices ++ [doneNotice source result]⟩, done)

def processText (p : Pipeline) (tracing : Bool) (text : String) (s : State) :
    Logged (Except PipelineError Result) × State :=
  p.processOpen tracing "<source>" { s with preprocessor := .ofText text }

/-- Both passes over a program file.  If the file cannot be read, the state stays as it is. -/
def processFile (p : Pipeline) (tracing : Bool) (path : Path) (answer : FileAnswer) (s : State) :
    Logged (Except PipelineError Result) × State :=
  let start := Notice.info "Starting program processing" [("file", path.text)]
  let (file, opened) := p.preprocessor.openFile s.preprocessor path answer
  let before := start :: file.notices
  match file.value with
  | .error e => (⟨.error (.preprocessing e), before⟩, { s with preprocessor := opened })
  | .ok () =>
    let (both, done) := p.processOpen tracing path.text { s with preprocessor := opened }
    (⟨both.value, before ++ both.notices⟩, done)

def failureNotice (directory : Path) (e : PipelineError) : Notice :=
  .error .setupFailed "Pipeline initialization failed"
    [("table_dir", directory.text), ("cause", e.message)] none

/-- Loads the tables of both passes.  The lexer's are left alone if the preprocessor's is of no
use. -/
def loadTables (p : Preferences) : Inquiry (Logged (Except PipelineError Pipeline)) := do
  let first ← Preprocessor.load p.tables.preprocessorPath p.preprocessing p.files
  match first.value with
  | .error e => return ⟨.error (.preprocessing e), first.notices⟩
  | .ok preprocessor =>
    let second ← Lexer.load p.tables.lexicalPath p.tables.keywordsPath p.lexical
    match second.value with
    | .error e => return ⟨.error (.lexicalAnalysis e), first.notices ++ second.notices⟩
    | .ok lexer => return ⟨.ok ⟨preprocessor, lexer⟩, first.notices ++ second.notices⟩

/-- Sets up a pipeline, and says so if that fails. -/
def load (p : Preferences) : Inquiry (Logged (Except PipelineError Pipeline)) :=
  (Logged.reporting (failureNotice p.tables.directory)) <$> loadTables p

end Pipeline

end TableLexer
