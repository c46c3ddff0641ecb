import TableLexer.Text.HexSymbol
/-!
Characters, strings and keys of a TOML document.  A reader takes the characters still to read and
gives back what it read with the characters after it, or nothing if they do not begin as they
should.
-/

namespace TableLexer.Toml

abbrev Reader (α : Type) : Type := StateT (List Char) Option α

/-- Whether a character may stand in a comment or a string: a tab, or any character that is neither
below the space nor the delete character. -/
def isText (c : Char) : Bool :=
  c = '\t' || (0x20 ≤ c.toNat && c.toNat ≠ 0x7F)

def isSpace (c : Char) : Bool :=
  c = ' ' || c = '\t'

/-- Reads the longest run of characters of a kind. -/
def run (kind : Char → Bool) : Reader (List Char) := fun cs =>
  some (cs.takeWhile kind, cs.dropWhile kind)

def spaces : Reader Unit := do
  let _ ← run isSpace

/-- The next character, which is not read yet. -/
def next? : Reader (Option Char) := fun cs => some (cs.head?, cs)

def exactly (c : Char) : Reader Unit := fun
  | d :: rest => if d = c then some ((), rest) else none
  | [] => none

/-- The rest after a line ending: a line feed, or a carriage return and a line feed. -/
def afterNewline? : List Char → Option (List Char)
  | '\n' :: rest => some rest
  | '\r' :: '\n' :: rest => some rest
  | _ => none

def comment : Reader Unit := do
  exactly '#'
  let _ ← run isText

/-- Reads what may follow on a line after a statement: spaces, a comment and the line ending, which
may be missing at the end of the document. -/
def lineEnd : Reader Unit := do
  spaces
  if (← next?) = some '#' then comment
  fun cs =>
    if cs.isEmpty then some ((), [])
    else (afterNewline? cs).map fun rest => ((), rest)

/-- The character that a short escape stands for. -/
def shortEscape? : Char → Option Char
  | 'b' => some '\x08'
  | 't' => some '\t'
  | 'n' => some '\n'
  | 'f' => some '\x0c'
  | 'r' => some '\r'
  | '"' => some '"'
  | '\\' => some '\\'
  | _ => none

/-- The character with a number in hexadecimal digits. -/
def numbered? (digits : List Char) : Option Char :=
  (HexSymbol.valueFrom 0 digits).bind HexSymbol.scalar?

/-- The rest of a string in double quotes, after `read`, last character first. -/
def basicRest (read : List Char) : List Char → Option (List Char × List Char)
  | '"' :: rest => some (read.reverse, rest)
  | '\\' :: 'u' :: a :: b :: c :: d :: rest =>
    (numbered? [a, b, c, d]).bind fun x => basicRest (x :: read) rest
  | '\\' :: 'U' :: a :: b :: c :: d :: e :: f :: g :: h :: rest =>
    (numbered? [a, b, c, d, e, f, g, h]).bind fun x => basicRest (x :: read) rest
  | '\\' :: c :: rest => (shortEscape? c).bind fun x => basicRest (x :: read) rest
  | c :: rest => if isText c then basicRest (c :: read) rest else none
  | [] => none

/-- The rest of a string in single quotes: no escapes, one line. -/
def literalRest (read : List Char) : List Char → Option (List Char × List Char)
  | '\'' :: rest => some (read.reverse, rest)
  | c :: rest => if isText c then literalRest (c :: read) rest else none
  | [] => none

/-- How the next character of a string over several lines is taken: as text, or after a backslash
that ends its line, first up to the line ending and then up to the next visible character. -/
inductive LineMode where
  | text
  | toEnding
  | toVisible
deriving DecidableEq

/-- The rest of a string in three double quotes.  One or two quotes just before the three that
close it belong to it. -/
def longBasicRest (mode : LineMode) (read : List Char) : List Char → Option (List Char × List Char)
  | '\r' :: '\n' :: rest =>
    match mode with
    | .text => longBasicRest .text ('\n' :: read) rest
    | _ => longBasicRest .toVisible read rest
  | '\n' :: rest =>
    match mode with
    | .text => longBasicRest .text ('\n' :: read) rest
    | _ => longBasicRest .toVisible read rest
  | '"' :: '"' :: '"' :: '"' :: '"' :: rest =>
    if mode = .toEnding then none else some (('"' :: '"' :: read).reverse, rest)
  | '"' :: '"' :: '"' :: '"' :: rest =>
    if mode = .toEnding then none else some (('"' :: read).reverse, rest)
  | '"' :: '"' :: '"' :: rest => if mode = .toEnding then none else some (read.reverse, rest)
  | '\\' :: 'u' :: a :: b :: c :: d :: rest =>
    if mode = .toEnding then none
    else (numbered? [a, b, c, d]).bind fun x => longBasicRest .text (x :: read) rest
  | '\\' :: 'U' :: a :: b :: c :: d :: e :: f :: g :: h :: rest =>
    if mode = .toEnding then none
    else (numbered? [a, b, c, d, e, f, g, h]).bind fun x => longBasicRest .text (x :: read) rest
  | '\\' :: c :: rest =>
    if mode = .toEnding then none
    else
      match shortEscape? c with
      | some x => longBasicRest .text (x :: read) rest
      | none =>
        if c = '\n' then longBasicRest .toVisible read rest
        else if c = '\r' ∧ rest.head? = some '\n' then longBasicRest .toEnding read rest
        else if isSpace c then longBasicRest .toEnding read rest
        else none
  | c :: rest =>
    if mode ≠ .text ∧ isSpace c then longBasicRest mode read rest
    else if mode ≠ .toEnding ∧ isText c then longBasicRest .text (c :: read) rest
    else none
  | [] => none

/-- The rest of a string in three single quotes. -/
def longLiteralRest (read : List Char) : List Char → Option (List Char × List Char)
  | '\r' :: '\n' :: rest => longLiteralRest ('\n' :: read) rest
  | '\n' :: rest => longLiteralRest ('\n' :: read) rest
  | '\'' :: '\'' :: '\'' :: '\'' :: '\'' :: rest => some (('\'' :: '\'' :: read).reverse, rest)
  | '\'' :: '\'' :: '\'' :: '\'' :: rest => some (('\'' :: read).reverse, rest)
  | '\'' :: '\'' :: '\'' :: rest => some (read.reverse, rest)
  | c :: rest => if isText c then longLiteralRest (c :: read) rest else none
  | [] => none

/-- A text without the line ending that it may begin with. -/
def withoutFirstNewline (cs : List Char) : List Char :=
  (afterNewline? cs).getD cs

/-- Reads a string of one of the four kinds. -/
def string : Reader String := fun cs =>
  let found := match cs with
    | '"' :: '"' :: '"' :: rest => longBasicRest .text [] (withoutFirstNewline rest)
    | '"' :: rest => basicRest [] rest
    | '\'' :: '\'' :: '\'' :: rest => longLiteralRest [] (withoutFirstNewline rest)
    | '\'' :: rest => literalRest [] rest
    | _ => none
  found.map fun (text, rest) => (String.ofList text, rest)

/-- Whether a character may stand in a key without quotes. -/
def isBare (c : Char) : Bool :=
  c.isAlphanum || c = '_' || c = '-'

/-- Reads one part of a key: bare, or a string of one line. -/
def keyPart : Reader String := fun cs =>
  match cs with
  | '"' :: rest => (basicRest [] rest).map fun (text, rest) => (String.ofList text, rest)
  | '\'' :: rest => (literalRest [] rest).map fun (text, rest) => (String.ofList text, rest)
  | _ =>
    let (word, rest) := (cs.takeWhile isBare, cs.dropWhile isBare)
    if word.isEmpty then none else some (String.ofList word, rest)

/-- How deep keys and values may nest. -/
def deepest : Nat := 79

/-- Reads up to `more` parts of a key, divided by dots, with the spaces around them. -/
def keyParts : Nat → Reader (List String)
  | 0 => failure
  | more + 1 => do
    spaces
    let part ← keyPart
    spaces
    if (← next?) = some '.' then
      exactly '.'
      return part :: (← keyParts more)
    else return [part]

/-- Reads a key with the spaces around it, as the list of its parts. -/
def key : Reader (List String) := keyParts deepest

end TableLexer.Toml
