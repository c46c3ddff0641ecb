import TableLexer.Automaton.Table
import TableLexer.FileTree
/-!
Tables in files.  A table that cannot be read, or that exceeds a limit, is an error; a program that
has to go on without it goes on with an empty machine.
-/

namespace TableLexer

namespace TableFile

/-- Why the text of a table cannot be had. -/
inductive Fault where
  | unreadable (why : String)
  | tooLarge (size : Nat)
deriving DecidableEq, Repr

/-- What a table is called whose path leads to something else than a file. -/
def notRegular : String := "not a regular file"

/-- The text of a table.  The size is judged before the bytes are. -/
def text (answer : FileAnswer) : Except Fault String :=
  match answer with
  | .unreachable why => .error (.unreadable why.message)
  | .directory => .error (.unreadable notRegular)
  | .file _ content =>
    if limits.tableSize < content.size then .error (.tooLarge content.size)
    else
      match String.fromUTF8? content with
      | some text => .ok text
      | none => .error (.unreadable notUtf8)

def Fault.ofTransitions (path : Path) : Fault → TableError
  | unreadable why => .unreadable path why
  | tooLarge size => .tooLarge path size limits.tableSize

def Fault.ofKeywords (path : Path) : Fault → TableError
  | unreadable why => .keywordsUnreadable path why
  | tooLarge size => .tooLarge path size limits.tableSize

/-- What is said about a table that is not used because of an error. -/
def refusal (path : Path) (e : TableError) : Notice :=
  .error e.code e.message [("table", path.text)] none

/-- The value that was loaded, or a stand-in for it after a notice of the error. -/
def orStandIn {α : Type} (path : Path) (standIn : α) (x : Logged (Except TableError α)) :
    Logged α :=
  match x.value with
  | .ok value => ⟨value, x.notices⟩
  | .error e => ⟨standIn, x.notices ++ [refusal path e]⟩

end TableFile

namespace Machine

def loadedNotice (path : Path) (x : Table.Loaded) : Notice :=
  .success .tableLoaded "Transition table loaded" [
    ("table", path.text),
    ("states", toString x.machine.size),
    ("symbols", toString x.machine.alphabet.length),
    ("dangling_transitions", toString x.report.danglingTransitions),
    ("absent_columns", toString x.report.absentColumns)]

def load (path : Path) (answer : FileAnswer) : Logged (Except TableError Machine) :=
  match TableFile.text answer with
  | .error fault => .quiet (.error (fault.ofTransitions path))
  | .ok text =>
    (Table.parse text).andThen fun x =>
      if limits.states < x.machine.size then .quiet (.error (.tooManyStates x.machine.size))
      else ⟨.ok x.machine, [loadedNotice path x]⟩

def loadOrEmpty (path : Path) (answer : FileAnswer) : Logged Machine :=
  TableFile.orStandIn path .empty (load path answer)

end Machine

end TableLexer
