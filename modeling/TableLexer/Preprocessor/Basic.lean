import TableLexer.Automaton.TableFile
import TableLexer.Preprocessor.Segment
import TableLexer.ProgramFile
import TableLexer.Text.Literal
/-!
Preprocessors: a pass over a program that keeps the segments of one category, reports those of
another, and leaves out the rest.
-/

namespace TableLexer

/-- Why a preprocessor cannot be built, or does not work. -/
inductive PreprocessorError where
  | emptyMachine
  | notOpen
  | file (e : FileError)
deriving DecidableEq, Repr

namespace PreprocessorError

def message : PreprocessorError → String
  | emptyMachine => "Preprocessor state machine has no states"
  | notOpen => "No program is open"
  | file e => e.message

def code : PreprocessorError → Code
  | emptyMachine => .emptyMachine
  | notOpen => .notOpen
  | file e => e.code

end PreprocessorError

/-- What a preprocessor works with.  Segments begin in the state `entry` of the machine. -/
structure Preprocessor where
  machine : Machine
  entry : Nat
  preferences : Preferences.Preprocessing
  files : Preferences.Files

/-- The open program of a preprocessor, if one is open: what of it is still to read. -/
structure Preprocessor.State where
  unread : Option String
deriving DecidableEq, Repr

namespace Preprocessor

def ofMachine (machine : Machine) (preferences : Preferences.Preprocessing)
    (files : Preferences.Files) : Except PreprocessorError Preprocessor :=
  match machine.entry with
  | some entry => .ok { machine, entry, preferences, files }
  | none => .error .emptyMachine

/-- What becomes of a segment. -/
inductive Role where
  | error
  | passed
  | warning
  | dropped
deriving DecidableEq, Repr

/-- The role of a segment, by its category.  The category that passes goes before the one that is
warned about. -/
def role (p : Preferences.Preprocessing) (t : Token) : Role :=
  match t.category with
  | none => .error
  | some category =>
    if category = p.passthroughCategory then .passed
    else if category = p.warningCategory then .warning
    else .dropped

/-- What a pass over a program gives: the text that passed, and the segments that are warnings or
errors. -/
structure Response where
  text : String
  warnings : List (Located Token)
  errors : List (Located Token)
deriving DecidableEq, Repr

namespace Response

def empty : Response := ⟨"", [], []⟩

def hasWarnings (r : Response) : Bool := !r.warnings.isEmpty

def hasErrors (r : Response) : Bool := !r.errors.isEmpty

end Response

def ofRole (p : Preferences.Preprocessing) (r : Role) (segments : List (Located Token)) :
    List (Located Token) :=
  segments.filter fun t => role p t.value = r

def respond (p : Preferences.Preprocessing) (segments : List (Located Token)) : Response where
  text := String.join ((ofRole p .passed segments).map fun t => t.value.lexeme)
  warnings := ofRole p .warning segments
  errors := ofRole p .error segments

def traceNotice (t : Located Token) : Notice :=
  .debug "Preprocessor token" [
    ("lexeme", Literal.ofText t.value.lexeme),
    ("category", t.value.category.getD "<bad>")]

/-- What is said about a segment because of its role. -/
def roleNotice? (p : Preferences.Preprocessing) (t : Located Token) : Option Notice :=
  let details := [("lexeme", Literal.ofText t.value.lexeme)]
  match role p t.value with
  | .error => some (.error .segmentError "Preprocessor error token" details (some t.span))
  | .warning =>
    some (.warning .segmentWarning "Preprocessor warning token" details (some t.span))
  | .passed | .dropped => none

/-- Everything that is said about a segment; it is traced only where that is wanted. -/
def segmentNotices (p : Preferences.Preprocessing) (tracing : Bool) (t : Located Token) :
    List Notice :=
  (if tracing then [traceNotice t] else []) ++ (roleNotice? p t).toList

def doneNotice (r : Response) (dropped : Nat) : Notice :=
  .success .preprocessed "Preprocessing completed" [
    ("chars", toString r.text.length),
    ("warnings", toString r.warnings.length),
    ("errors", toString r.errors.length),
    ("dropped", toString dropped)]

def processText (p : Preprocessor) (tracing : Bool) (text : String) : Logged Response :=
  let segments := p.machine.segments p.entry text
  let response := respond p.preferences segments
  let dropped := (ofRole p.preferences .dropped segments).length
  ⟨response,
    segments.flatMap (segmentNotices p.preferences tracing) ++ [doneNotice response dropped]⟩

namespace State

def closed : State := ⟨none⟩

def ofText (text : String) : State := ⟨some text⟩

def isOpen (s : State) : Bool := s.unread.isSome

/-- Whether an open program has characters still to read. -/
def hasNext (s : State) : Bool :=
  match s.unread with
  | some text => text ≠ ""
  | none => false

/-- Closes the program; the truth value tells whether one was open. -/
def close (s : State) : Bool × State := (s.isOpen, closed)

end State

/-- Opens a program file.  If that fails, the state stays as it is. -/
def openFile (p : Preprocessor) (s : State) (path : Path) (answer : FileAnswer) :
    Logged (Except PreprocessorError Unit) × State :=
  let file := ProgramFile.load p.files path answer
  match file.value with
  | .ok program => (⟨.ok (), file.notices⟩, .ofText program.source)
  | .error e => (⟨.error (.file e), file.notices⟩, s)

/-- Passes over what is still to read of the open program. -/
def process (p : Preprocessor) (tracing : Bool) (s : State) :
    Logged (Except PreprocessorError Response) × State :=
  match s.unread with
  | some text => ((p.processText tracing text).map .ok, .ofText "")
  | none =>
    let e := PreprocessorError.notOpen
    (⟨.error e, [.error e.code e.message [] none]⟩, s)

end Preprocessor

end TableLexer
