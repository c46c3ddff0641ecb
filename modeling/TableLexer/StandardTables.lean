import TableLexer.Automaton.Table
/-!
The standard tables: the tokens of a small dialect of C, its keywords, and the segments that its
preprocessor tells apart.  A state is written as its name, the category that it accepts, and its
destination for every symbol, where the empty text stands for no category and no destination.
-/

namespace TableLexer.StandardTables

/-- The symbols of both tables: the tab, the two line endings, and the printable ASCII characters. -/
def symbols : List Char := ['\t', '\n', '\r'] ++ (List.range' 0x20 95).map Char.ofNat

/-- A hexadecimal digit in upper case. -/
def upperDigit (n : Nat) : Char :=
  if n < 10 then Char.ofNat ('0'.toNat + n) else Char.ofNat ('A'.toNat + (n - 10))

/-- The header cell of a symbol.  A comma would end the cell and blanks would not show, so these are
written as escapes. -/
def symbolCell (c : Char) : String :=
  if c = ',' ∨ c ≤ ' ' then
    String.ofList ['0', 'x', upperDigit (c.toNat / 16), upperDigit (c.toNat % 16)]
  else String.singleton c

structure Row where
  name : String
  accepted : String
  destination : Char → String

def Row.cells (row : Row) : List String :=
  row.name :: row.accepted :: symbols.map row.destination

/-- The text of a table with given states. -/
def write (rows : List Row) : String :=
  let header := [Table.headerMarker, "Accepted"] ++ symbols.map symbolCell
  Table.write (header :: rows.map Row.cells)

def nowhere : Char → String := fun _ => ""

/-- A destination on one symbol. -/
def on (symbol : Char) (target : String) : Char → String :=
  fun c => if c = symbol then target else ""

/-- Destinations on single symbols, and one for all others. -/
def onElse (targets : List (Char × String)) (other : String) : Char → String :=
  fun c => (targets.lookup c).getD other

def onDigit (target : String) : Char → String :=
  fun c => if c.isDigit then target else ""

/-- Where the lexer goes from its entry state.  White space leads back to it. -/
def lexicalStart (c : Char) : String :=
  if c = '\t' ∨ c = '\n' ∨ c = '\r' ∨ c = ' ' then "Start"
  else if c.isAlpha ∨ c = '_' then "Identifier"
  else if c.isDigit then "Integer"
  else
    match c with
    | '!' => "Not"
    | '"' => "String Body"
    | '%' | '*' | '+' | '-' => "Arithmetic"
    | '&' => "Ampersand"
    | '\'' => "Char Open"
    | '(' | ')' | '[' | ']' | '\x7b' | '\x7d' => "Bracket"
    | ',' | ';' => "Punctuation"
    | '.' => "Dot"
    | '/' => "Slash"
    | '<' | '>' => "Relational"
    | '=' => "Assign"
    | '|' => "Bar"
    | _ => ""

def lexicalRows : List Row := [
  ⟨"Start", "", lexicalStart⟩,
  ⟨"Identifier", "Identifier", fun c => if c.isAlphanum ∨ c = '_' then "Identifier" else ""⟩,
  ⟨"Integer", "Integer Literal",
    fun c => if c.isDigit then "Integer" else if c = '.' then "Fraction" else ""⟩,
  ⟨"Fraction", "", onDigit "Float"⟩,
  ⟨"Float", "Float Literal", onDigit "Float"⟩,
  ⟨"Dot", "Member Operator", onDigit "Float"⟩,
  ⟨"String Body", "",
    onElse [('\n', ""), ('\r', ""), ('"', "String End"), ('\\', "String Escape")] "String Body"⟩,
  ⟨"String Escape", "", onElse [('\n', ""), ('\r', "")] "String Body"⟩,
  ⟨"String End", "String Literal", nowhere⟩,
  ⟨"Char Open", "",
    onElse [('\n', ""), ('\r', ""), ('\'', ""), ('\\', "Char Escape")] "Char Body"⟩,
  ⟨"Char Escape", "", onElse [('\n', ""), ('\r', "")] "Char Body"⟩,
  ⟨"Char Body", "", on '\'' "Char End"⟩,
  ⟨"Char End", "Character Literal", nowhere⟩,
  ⟨"Slash", "Arithmetic Operator",
    onElse [('*', "Block Comment"), ('/', "Line Comment"), ('=', "Compound Assign")] ""⟩,
  ⟨"Line Comment", "", onElse [('\n', "Line Comment End")] "Line Comment"⟩,
  ⟨"Line Comment End", "Line Comment", nowhere⟩,
  ⟨"Block Comment", "", onElse [('*', "Block Comment Star")] "Block Comment"⟩,
  ⟨"Block Comment Star", "",
    onElse [('*', "Block Comment Star"), ('/', "Block Comment End")] "Block Comment"⟩,
  ⟨"Block Comment End", "Block Comment", nowhere⟩,
  ⟨"Assign", "Assignment Operator", on '=' "Relational End"⟩,
  ⟨"Relational", "Relational Operator", on '=' "Relational End"⟩,
  ⟨"Relational End", "Relational Operator", nowhere⟩,
  ⟨"Not", "Logical Operator", on '=' "Relational End"⟩,
  ⟨"Arithmetic", "Arithmetic Operator", on '=' "Compound Assign"⟩,
  ⟨"Compound Assign", "Assignment Operator", nowhere⟩,
  ⟨"Ampersand", "", on '&' "Logical End"⟩,
  ⟨"Bar", "", on '|' "Logical End"⟩,
  ⟨"Logical End", "Logical Operator", nowhere⟩,
  ⟨"Punctuation", "Punctuation", nowhere⟩,
  ⟨"Bracket", "Bracket", nowhere⟩]

def lexical : String := write lexicalRows

def preprocessorRows : List Row := [
  ⟨"Start", "", onElse [('#', "Directive"), ('?', "Question"), ('\\', "Backslash")] "Add"⟩,
  ⟨"Add", "Add", nowhere⟩,
  ⟨"Backslash", "", onElse [('\n', "Continuation")] "Escape"⟩,
  ⟨"Escape", "Add", nowhere⟩,
  ⟨"Continuation", "Continuation", nowhere⟩,
  ⟨"Directive", "", onElse [('\n', "Directive End")] "Directive"⟩,
  ⟨"Directive End", "Directive", nowhere⟩,
  ⟨"Question", "Add", on '?' "Trigraph"⟩,
  ⟨"Trigraph", "", onElse [('<', "Brace Trigraph"), ('>', "Brace Trigraph")] "Add"⟩,
  ⟨"Brace Trigraph", "Brace", nowhere⟩]

def preprocessor : String := write preprocessorRows

/-- The keywords.  The category of each is its own name with a capital letter. -/
def keywordList : List String := [
  "auto", "break", "case", "char", "const", "continue", "default", "do", "double", "else", "enum",
  "extern", "float", "for", "goto", "if", "int", "long", "register", "return", "short", "signed",
  "sizeof", "static", "struct", "switch", "typedef", "union", "unsigned", "void", "volatile",
  "while"]

/-- The table of keywords. -/
def keywords : String := Table.write (keywordList.map fun word => [word, word.capitalize])

end TableLexer.StandardTables
