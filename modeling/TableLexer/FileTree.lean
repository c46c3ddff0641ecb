import TableLexer.Path
/-!
What a file system answers about a path, and a tree of files that gives such answers.  Programs,
tables and preferences are read through answers only, so whatever depends on files is a function
of them.
-/

namespace TableLexer

/-- Why a path leads nowhere. -/
inductive Unreachable where
  | missing
  | throughFile
  | nameTooLong
  | zeroCharacter
deriving DecidableEq, Repr

/-- The words of the operating system for a path that leads nowhere. -/
def Unreachable.message : Unreachable → String
  | missing => "No such file or directory (os error 2)"
  | throughFile => "Not a directory (os error 20)"
  | nameTooLong => "File name too long (os error 36)"
  | zeroCharacter => "file name contained an unexpected NUL byte"

/-- What a file system answers about a path.  A file comes with its one absolute path. -/
inductive FileAnswer where
  | unreachable (why : Unreachable)
  | directory
  | file (location : Path) (content : ByteArray)

def FileView : Type := Path → FileAnswer

/-- Why the text of a file cannot be had, in words. -/
def notUtf8 : String := "stream did not contain valid UTF-8"

/-- What a directory says when it is read like a file. -/
def readsDirectory : String := "Is a directory (os error 21)"

inductive FileTree.Entry where
  | directory
  | file (content : ByteArray)

/-- A working directory with everything below it.  Entries are named by the names on the way to
them; `location` is the absolute path of the working directory itself. -/
structure FileTree where
  location : Path
  entries : List (List String × FileTree.Entry)

namespace FileTree

def empty (location : Path) : FileTree := ⟨location, []⟩

/-- Where a walk has come: below the working directory, by the names on the way in reverse, or
outside of it, where nothing is known but that directories lead up. -/
inductive Place where
  | inside (names : List String)
  | outside
deriving DecidableEq, Repr

/-- The entry at the end of a way, in reverse. -/
def entryAt? (tree : FileTree) (names : List String) : Option Entry :=
  if names.isEmpty then some .directory
  else
    let way := names.reverse
    match tree.entries.find? fun (name, _) => name == way with
    | some (_, entry) => some entry
    | none =>
      if tree.entries.any fun (name, _) => way.isPrefixOf name then some .directory else none

/-- Whether a walk can go on from a place. -/
def enterable (tree : FileTree) : Place → Except Unreachable Unit
  | .outside => .ok ()
  | .inside names =>
    match tree.entryAt? names with
    | some .directory => .ok ()
    | some (.file _) => .error .throughFile
    | none => .error .missing

/-- Longest name of an entry, in bytes. -/
def longestName : Nat := 255

/-- Longest path, in bytes. -/
def longestPath : Nat := 4095

/-- One step of a walk.  Every step, even one that stays, needs a directory to start from, and a
name that is too long is refused before it is looked up. -/
def step (tree : FileTree) (place : Place) (piece : String) : Except Unreachable Place := do
  tree.enterable place
  if piece = "" ∨ piece = "." then return place
  if piece = ".." then
    match place with
    | .outside => return .outside
    | .inside [] => return .outside
    | .inside (_ :: up) => return .inside up
  if longestName < piece.utf8ByteSize then throw .nameTooLong
  match place with
  | .outside => throw .missing
  | .inside names => return .inside (piece :: names)

/-- What the tree answers about a path.  An absolute path leads outside. -/
def answer (tree : FileTree) (path : Path) : FileAnswer :=
  if path.text = "" then .unreachable .missing
  else if path.text.contains '\x00' then .unreachable .zeroCharacter
  else if longestPath < path.text.utf8ByteSize then .unreachable .nameTooLong
  else
    let start := if path.isAbsolute then Place.outside else .inside []
    match (Text.cut '/' path.text).foldlM tree.step start with
    | .error why => .unreachable why
    | .ok .outside => .directory
    | .ok (.inside names) =>
      match tree.entryAt? names with
      | none => .unreachable .missing
      | some .directory => .directory
      | some (.file content) => .file (names.reverse.foldl Path.join tree.location) content

/-- A tree with one more entry, named by a relative path. -/
def put (tree : FileTree) (path : Path) (entry : Entry) : FileTree :=
  let names := path.parts.filterMap fun
    | .name n => some n
    | _ => none
  { tree with entries := tree.entries ++ [(names, entry)] }

end FileTree

end TableLexer
