import TableLexer.Setting
/-!
What may be added to the sections of a document.  Sections may be opened on the way to others and
filled later, but each is defined once, and what was written as a value is never extended.
-/

namespace TableLexer.Toml

open Setting (Entries)

/-- Changes the entries at the end of the way that a header names.  Sections that are missing on the
way are implied by the header; a value on the way stops it, and of a list of sections the last one
is meant. -/
def onHeaderWay (change : Entries → Option Entries) : List String → Entries → Option Entries
  | [], entries => change entries
  | step :: way, entries =>
    match entries.get? step with
    | none => (onHeaderWay change way {}).map fun inner =>
        entries.insert step (.section .implied inner)
    | some (.section .braces _) => none
    | some (.section form inner) => (onHeaderWay change way inner).map fun inner =>
        entries.insert step (.section form inner)
    | some (.sections earlier last) => (onHeaderWay change way last).map fun last =>
        entries.insert step (.sections earlier last)
    | some _ => none

/-- Adds an entry at the end of the way that a dotted key names.  The way must not lead through a
section in braces or one with a header of its own, and the entry has to be new.  Only a section that
`isOpen` takes in an entry: the one the key stands in, or one that dotted keys made. -/
def enter (name : String) (content : Setting) : List String → Bool → Entries → Option Entries
  | [], isOpen, entries =>
    if isOpen && !entries.contains name then some (entries.insert name content) else none
  | step :: way, _, entries =>
    match entries.get? step with
    | none => (enter name content way true {}).map fun inner =>
        entries.insert step (.section .dotted inner)
    | some (.section .dotted inner) => (enter name content way true inner).map fun inner =>
        entries.insert step (.section .dotted inner)
    | some (.section .implied inner) => (enter name content way false inner).map fun inner =>
        entries.insert step (.section .implied inner)
    | some (.sections earlier last) => (enter name content way false last).map fun last =>
        entries.insert step (.sections earlier last)
    | some _ => none

/-- Adds an entry with a dotted key to the section that the key stands in. -/
def addEntry (path : List String) (content : Setting) (entries : Entries) : Option Entries :=
  path.getLast?.bind fun name => enter name content path.dropLast true entries

/-- Opens the section of a header with the given last key: a new one, or one that only other headers
have implied. -/
def openSection (name : String) (entries : Entries) : Option Entries :=
  match entries.get? name with
  | none => some (entries.insert name (.section .header {}))
  | some (.section .implied inner) => some (entries.insert name (.section .header inner))
  | some _ => none

/-- Opens one more section in a list of sections. -/
def openElement (name : String) (entries : Entries) : Option Entries :=
  match entries.get? name with
  | none => some (entries.insert name (.sections [] {}))
  | some (.sections earlier last) =>
    some (entries.insert name (.sections (.section .header last :: earlier) {}))
  | some _ => none

end TableLexer.Toml
