import Std.Data.TreeMap.Raw.Basic
/-!
Settings: the values that a preferences document gives to names.  Sections are read field by field,
so that a field which is left out keeps its default, and one of the wrong kind makes the whole
section invalid.
-/

namespace TableLexer

/-- How a section is written: in braces, under its own header, on the way to the header of another
section, or on the way through a dotted key.  What may be added to a section depends on it; what the
section stands for does not. -/
inductive SectionForm where
  | braces
  | header
  | implied
  | dotted
deriving DecidableEq, Repr

/-- A value of a preferences document.  Numbers with a fraction and dates are values that no field
takes, so only their kind is kept.  A list of sections with headers is told from a list in brackets,
because its last section can grow; the sections before that one come newest first. -/
inductive Setting where
  | string (value : String)
  | integer (value : Int)
  | boolean (value : Bool)
  | decimal
  | moment
  | list (items : List Setting)
  | sections (earlier : List Setting) (last : Std.TreeMap.Raw String Setting)
  | section (form : SectionForm) (entries : Std.TreeMap.Raw String Setting)
deriving Inhabited

namespace Setting

/-- The named values of a section. -/
abbrev Entries : Type := Std.TreeMap.Raw String Setting

def string? : Setting → Option String
  | .string s => some s
  | _ => none

def boolean? : Setting → Option Bool
  | .boolean b => some b
  | _ => none

/-- A number that is not negative. -/
def natural? : Setting → Option Nat
  | .integer (.ofNat n) => some n
  | _ => none

/-- The items of a list of either kind, in order. -/
def items? : Setting → Option (List Setting)
  | .list items => some items
  | .sections earlier last => some (Setting.section .header last :: earlier).reverse
  | _ => none

def strings? (s : Setting) : Option (List String) :=
  s.items?.bind fun items => items.mapM string?

/-- What a value holds for a field: by name in a section, by position in a list.  A date counts as a
section that has none of the fields.  The outer option tells whether the value has fields at all,
the inner one whether this one is there. -/
def field? (name : String) (index : Nat) (s : Setting) : Option (Option Setting) :=
  match s with
  | .section _ entries => some (entries.get? name)
  | .moment => some none
  | _ => s.items?.map fun items => items[index]?

/-- Reads a field that may be left out. -/
def optional {α : Type} (s : Setting) (name : String) (index : Nat) (read : Setting → Option α)
    (default : α) : Option α :=
  match s.field? name index with
  | none => none
  | some none => some default
  | some (some value) => read value

/-- Reads a field that has to be there. -/
def required {α : Type} (s : Setting) (name : String) (index : Nat) (read : Setting → Option α) :
    Option α :=
  match s.field? name index with
  | some (some value) => read value
  | _ => none

/-- Whether a value is a list or a section without content. -/
def isVoid : Setting → Bool
  | .list items => items.isEmpty
  | .section _ entries => entries.isEmpty
  | _ => false

/-- Reads one of several named choices: its name as a string, or a section whose only entry is the
name of the choice and has no content. -/
def choice? {α : Type} (choices : List (String × α)) : Setting → Option α
  | .string name => choices.lookup name
  | .section _ entries =>
    match entries.toList with
    | [(name, content)] => if content.isVoid then choices.lookup name else none
    | _ => none
  | _ => none

end Setting

end TableLexer
