import Std.Data.HashSet.Basic
import TableLexer.Automaton.Machine
import TableLexer.Diagnostic.Notice
import TableLexer.Text.HexSymbol
import TableLexer.Text.Lines
/-!
Transition tables.  A table is a text of rows with cells between commas.  The header row names the
symbol of every column from the third on; each other row is a state with its name, the category it
accepts and its destination for every column.  Reading never fails: what cannot be used is left out
and counted in a report.
-/

namespace TableLexer.Table

/-- The first cell of the header row. -/
def headerMarker : String := "Valid Chars"

/-- Number of cells before the first symbol. -/
def labelColumns : Nat := 2

/-- The rows of a table.  Of rows with the same first cell only the first is kept; `repeated` lists
the first cells of the others, and `lineCount` counts all rows. -/
structure Rows where
  lineCount : Nat
  header : Option (List String)
  states : List (List String)
  repeated : List String
deriving Repr

/-- The first cell of a row. -/
def label (cells : List String) : String := cells.headD ""

/-- Keeps the rows whose first cell was not seen before, in order, and collects the first cells of
the others.  Both lists grow at the front. -/
def keepFirst (seen : Std.HashSet String) (kept : List (List String)) (repeated : List String) :
    List (List String) → List (List String) × List String
  | [] => (kept.reverse, repeated.reverse)
  | cells :: rest =>
    if seen.contains (label cells) then keepFirst seen kept (label cells :: repeated) rest
    else keepFirst (seen.insert (label cells)) (cells :: kept) repeated rest

/-- The rows of a text.  Empty lines are no rows. -/
def rowsOf (text : String) : Rows :=
  let cells := ((Text.lines text).filter (· ≠ "")).map (Text.cut ',')
  let (kept, repeated) := keepFirst ∅ [] [] cells
  { lineCount := cells.length
    header := kept.find? fun cells => label cells = headerMarker
    states := kept.filter fun cells => label cells ≠ headerMarker
    repeated }

/-- The columns of a header: the distinct symbols in their order, the class of every column that has
one, and the cells that name no single-byte symbol, with their places. -/
structure Columns where
  alphabet : List Char
  classes : List (Option Nat)
  absent : List (Nat × String)
deriving Repr

/-- The symbol of a header cell, if it is a single-byte character. -/
def symbol? (cell : String) : Option Char :=
  (HexSymbol.ofCell? cell).filter fun c => c.toNat < Machine.alphabetSize

/-- Columns with one more cell, where classes and absent cells grow at the front.  A symbol that
occurs again shares the class of its first column. -/
def addColumn (columns : Columns) (place : Nat) (cell : String) : Columns :=
  match symbol? cell with
  | none => { columns with
      classes := none :: columns.classes, absent := (place, cell) :: columns.absent }
  | some c =>
    match columns.alphabet.idxOf? c with
    | some symbolClass => { columns with classes := some symbolClass :: columns.classes }
    | none => { columns with
        alphabet := columns.alphabet ++ [c]
        classes := some columns.alphabet.length :: columns.classes }

def columnsOf (header : List String) : Columns :=
  let columns := (header.zipIdx.drop labelColumns).foldl
    (fun columns (cell, place) => addColumn columns place cell) ⟨[], [], []⟩
  { columns with classes := columns.classes.reverse, absent := columns.absent.reverse }

/-- A state that is being filled from its row: how many destinations came after another one on the
same class, and which named no state. -/
structure Filled where
  state : State
  shadowed : Nat
  dangling : List String
deriving Repr

/-- Takes one cell into a state.  A cell without a destination, or in a column without a class, has
no effect. -/
def fillCell (stateId? : String → Option Nat) (f : Filled) (symbolClass : Option Nat)
    (cell : String) : Filled :=
  match symbolClass with
  | none => f
  | some symbolClass =>
    if cell = "" then f
    else
      match stateId? cell with
      | none => { f with dangling := cell :: f.dangling }
      | some target =>
        match f.state.lead? symbolClass target with
        | some state => { f with state }
        | none => { f with shadowed := f.shadowed + 1 }

/-- The state of a row before it leads anywhere. -/
def bareState (classes : Nat) (cells : List String) : State :=
  .bare (label cells) ((cells[1]?).filter (· ≠ "")) classes

def fillRow (stateId? : String → Option Nat) (columns : Columns) (cells : List String) : Filled :=
  let filled := ((cells.drop labelColumns).zip columns.classes).foldl
    (fun f (cell, symbolClass) => fillCell stateId? f symbolClass cell)
    ⟨bareState columns.alphabet.length cells, 0, []⟩
  { filled with dangling := filled.dangling.reverse }

/-- What was found while a table was read. -/
structure Report where
  rows : Nat := 0
  states : Nat := 0
  repeatedRows : Nat := 0
  absentColumns : Nat := 0
  danglingTransitions : Nat := 0
  shadowedTransitions : Nat := 0
  missingHeader : Bool := false
deriving DecidableEq, Repr

/-- Whether nothing was left out. -/
def Report.isClean (r : Report) : Bool :=
  r.repeatedRows = 0 && r.absentColumns = 0 && r.danglingTransitions = 0 &&
    r.shadowedTransitions = 0 && !r.missingHeader

def Report.warnings (r : Report) : List Notice :=
  (if r.missingHeader then
    [.warning .columnsIgnored
      "Transition table has no header row; states have no transitions" [] none]
  else []) ++
  (if r.absentColumns = 0 then []
  else [.warning .columnsIgnored "Header columns ignored"
    [("count", toString r.absentColumns)] none]) ++
  (if r.repeatedRows = 0 then []
  else [.warning .rowsIgnored "Duplicate table rows ignored"
    [("count", toString r.repeatedRows)] none]) ++
  (if r.danglingTransitions = 0 ∧ r.shadowedTransitions = 0 then []
  else [.warning .transitionsDropped "Transitions dropped"
    [("dangling", toString r.danglingTransitions),
      ("shadowed", toString r.shadowedTransitions)] none])

/-- A machine with the report about the table that it was read from. -/
structure Loaded where
  machine : Machine
  report : Report

def fillRows (rows : Rows) (columns : Columns) : List Filled :=
  let index := Machine.indexOf (rows.states.map label)
  rows.states.map (fillRow (fun name => index[name]?) columns)

/-- The machine of the rows of a table, with its report and the notices of reading. -/
def load (rows : Rows) : Logged Loaded :=
  let columns := columnsOf (rows.header.getD [])
  let filled := fillRows rows columns
  let report : Report := {
    rows := rows.lineCount
    states := rows.states.length
    repeatedRows := rows.repeated.length
    absentColumns := columns.absent.length
    danglingTransitions := (filled.map fun f => f.dangling.length).foldr (· + ·) 0
    shadowedTransitions := (filled.map Filled.shadowed).foldr (· + ·) 0
    missingHeader := rows.header.isNone }
  let machine := Machine.ofStates columns.alphabet (filled.map Filled.state)
  let details :=
    rows.repeated.map (fun name => Notice.debug "Duplicate table row ignored" [("row", name)]) ++
    columns.absent.map (fun (place, cell) =>
      .debug "Header column ignored" [("column", toString place), ("cell", cell)]) ++
    filled.flatMap (fun f => f.dangling.map fun target =>
      .debug "Dangling transition dropped" [("state", f.state.name), ("destination", target)])
  ⟨⟨machine, report⟩, details ++ report.warnings⟩

/-- The text of a table with given rows of cells. -/
def write (rows : List (List String)) : String :=
  String.join (rows.map fun cells => ",".intercalate cells ++ "\n")

def parse (text : String) : Logged Loaded := load (rowsOf text)

end TableLexer.Table
