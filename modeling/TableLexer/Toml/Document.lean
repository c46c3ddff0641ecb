import TableLexer.Toml.Scalar
import TableLexer.Toml.Section
/-!
TOML documents.  A document is read statement by statement, and every statement adds to the sections
read so far.  A document that breaks a rule stands for nothing.

Loops over items and entries take a bound on the number of their steps.  Every step reads at least
one character, so the number of characters of the document is enough for each of them.
-/

namespace TableLexer.Toml

open Setting (Entries)

/-- Skips spaces, line endings and comments, from the inside of a comment or not.  A comment has to
end in a line ending. -/
def blankFrom (inComment : Bool) : List Char → Option (List Char)
  | [] => if inComment then none else some []
  | '\n' :: rest => blankFrom false rest
  | '\r' :: '\n' :: rest => blankFrom false rest
  | c :: rest =>
    if inComment then (if isText c then blankFrom true rest else none)
    else if c = '#' then blankFrom true rest
    else if isSpace c then blankFrom false rest
    else some (c :: rest)

/-- Skips whatever may stand between the items of a list. -/
def blank : Reader Unit := fun cs => (blankFrom false cs).map fun rest => ((), rest)

/-- Reads the items of a list after its opening bracket, and gives them after those that are `done`,
the newest of which is first.  A comma may follow the last item. -/
def items (value : Reader Setting) (done : List Setting) : Nat → Reader (List Setting)
  | 0 => failure
  | more + 1 => do
    blank
    if (← next?) = some ']' then
      exactly ']'
      return done.reverse
    let item ← value
    blank
    if (← next?) = some ',' then
      exactly ','
      items value (item :: done) more
    else
      exactly ']'
      return (item :: done).reverse

/-- Reads the entries of a section in braces, which stand on one line, after `entries`. -/
def inlineEntries (value : Reader Setting) (entries : Entries) : Nat → Reader Entries
  | 0 => failure
  | more + 1 => do
    let path ← key
    exactly '='
    spaces
    let content ← value
    spaces
    let entries ← addEntry path content entries
    if (← next?) = some ',' then
      exactly ','
      inlineEntries value entries more
    else
      exactly '\x7d'
      return entries

/-- Reads a section in braces after the opening brace. -/
def inlineSection (value : Reader Setting) (most : Nat) : Reader Setting := do
  spaces
  if (← next?) = some '\x7d' then
    exactly '\x7d'
    return .section .braces {}
  return .section .braces (← inlineEntries value {} most)

/-- Reads a value in which lists and sections nest at most to a depth, each of at most `most`
parts. -/
def value (most : Nat) : Nat → Reader Setting
  | 0 => do
    match ← next? with
    | some '[' => failure
    | some '\x7b' => failure
    | some '"' => return .string (← string)
    | some '\'' => return .string (← string)
    | _ => scalar
  | depth + 1 => do
    match ← next? with
    | some '[' =>
      exactly '['
      return .list (← items (value most depth) [] most)
    | some '\x7b' =>
      exactly '\x7b'
      inlineSection (value most depth) most
    | some '"' => return .string (← string)
    | some '\'' => return .string (← string)
    | _ => scalar

/-- A document that is being read: the entries so far, and the way to the section that the next
entries go to. -/
structure Unfinished where
  entries : Entries
  way : List String

def header (doc : Unfinished) : Reader Unfinished := do
  exactly '['
  let element := (← next?) = some '['
  if element then exactly '['
  let way ← key
  exactly ']'
  if element then exactly ']'
  lineEnd
  match way.getLast? with
  | none => failure
  | some last =>
    let change := if element then openElement last else openSection last
    let entries ← onHeaderWay change way.dropLast doc.entries
    return ⟨entries, way⟩

def entry (most : Nat) (doc : Unfinished) : Reader Unfinished := do
  let path ← key
  exactly '='
  spaces
  let content ← value most deepest
  lineEnd
  let entries ← onHeaderWay (addEntry path content) doc.way doc.entries
  return { doc with entries }

def statement (most : Nat) (doc : Unfinished) : Reader Unfinished := do
  match ← next? with
  | some '#' => lineEnd; return doc
  | some '[' => header doc
  | some '\n' => lineEnd; return doc
  | some '\r' => lineEnd; return doc
  | _ => entry most doc

/-- Reads at most `more` statements up to the end of the text. -/
def statements (most : Nat) (doc : Unfinished) : Nat → List Char → Option Unfinished
  | 0, _ => none
  | more + 1, cs =>
    match cs.dropWhile isSpace with
    | [] => some doc
    | rest => (statement most doc rest).bind fun (doc, rest) => statements most doc more rest

/-- The setting that a document stands for.  A byte order mark before the text is skipped. -/
def parse? (text : String) : Option Setting :=
  let cs := match text.toList with
    | '\ufeff' :: rest => rest
    | cs => cs
  let most := cs.length + 1
  (statements most ⟨{}, []⟩ most cs).map fun doc => .section .header doc.entries

end TableLexer.Toml
