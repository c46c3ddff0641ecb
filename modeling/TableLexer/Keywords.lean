import Std.Data.HashMap.Basic
import TableLexer.Automaton.TableFile
/-!
Keyword tables.  A keyword is a lexeme with a category of its own; the table renames tokens that the
automaton has taken for identifiers, and takes no part in the traversal.
-/

namespace TableLexer

/-- The category of every keyword. -/
structure Keywords where
  entries : Std.HashMap String String

namespace Keywords

def empty : Keywords := ⟨∅⟩

def get? (k : Keywords) (lexeme : String) : Option String := k.entries[lexeme]?

def size (k : Keywords) : Nat := k.entries.size

/-- Adds a keyword.  A lexeme that is a keyword already keeps its category; the truth value tells
whether the table has changed. -/
def insert (k : Keywords) (lexeme category : String) : Bool × Keywords :=
  if k.entries.contains lexeme then (false, k) else (true, ⟨k.entries.insert lexeme category⟩)

/-- The category of a token after the table was asked.  Only identifiers are renamed. -/
def resolve (k : Keywords) (category lexeme identifierCategory : String) : String :=
  if category = identifierCategory then (k.get? lexeme).getD category else category

/-- The keyword that a line of a table names, with its category; none if one of the two is missing.
Further cells are not looked at. -/
def entryOf? (line : String) : Option (String × String) :=
  match Text.cut ',' line with
  | lexeme :: category :: _ => if lexeme = "" ∨ category = "" then none else some (lexeme, category)
  | _ => none

/-- Takes in one line of a table; the notices are collected last first. -/
def addLine (x : Keywords × List Notice) (line : String) : Keywords × List Notice :=
  match entryOf? line with
  | none => (x.1, .debug "Keyword line skipped" [("line", line)] :: x.2)
  | some (lexeme, category) =>
    match x.1.insert lexeme category with
    | (true, k) => (k, x.2)
    | (false, k) => (k, .debug "Duplicate keyword ignored" [("lexeme", lexeme)] :: x.2)

/-- Reads a table.  Empty lines are passed over, and of several lines for one lexeme the first
counts. -/
def parse (text : String) : Logged Keywords :=
  let (k, notices) := ((Text.lines text).filter (· ≠ "")).foldl addLine (empty, [])
  ⟨k, notices.reverse⟩

def loadedNotice (path : Path) (k : Keywords) : Notice :=
  .success .keywordsLoaded "Keyword table loaded"
    [("table", path.text), ("keywords", toString k.size)]

def load (path : Path) (answer : FileAnswer) : Logged (Except TableError Keywords) :=
  match TableFile.text answer with
  | .error fault => .quiet (.error (fault.ofKeywords path))
  | .ok text =>
    (parse text).andThen fun k =>
      if limits.keywords < k.size then .quiet (.error (.tooManyKeywords k.size))
      else ⟨.ok k, [loadedNotice path k]⟩

def loadOrEmpty (path : Path) (answer : FileAnswer) : Logged Keywords :=
  TableFile.orStandIn path .empty (load path answer)

end Keywords

end TableLexer
