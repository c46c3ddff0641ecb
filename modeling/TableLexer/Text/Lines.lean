/-!
Lines of a text.  A line ends with a line feed or with a carriage return and a line feed, and the
last one may end with the text.  The ending is no part of the line, and a text that ends with an
ending has no further empty line.
-/

namespace TableLexer.Text

/-- A line that was read up to its line feed, last character first, without the carriage return
that may stand before the line feed. -/
def dropReturn : List Char → List Char
  | '\r' :: line => line
  | line => line

/-- The lines of the characters still to read, when `line` holds the current line and `done` the
lines before it, both last first. -/
def linesFrom (line : List Char) (done : List (List Char)) : List Char → List (List Char)
  | [] => if line.isEmpty then done.reverse else (line.reverse :: done).reverse
  | c :: rest =>
    if c = '\n' then linesFrom [] ((dropReturn line).reverse :: done) rest
    else linesFrom (c :: line) done rest

/-- The lines of a text, in order and without their endings. -/
def lines (text : String) : List String :=
  (linesFrom [] [] text.toList).map String.ofList

def lineCount (text : String) : Nat :=
  (linesFrom [] [] text.toList).length

theorem lineCount_eq_length_lines (text : String) : lineCount text = (lines text).length := by
  simp [lineCount, lines]

/-- The pieces of a text between the separators, the empty ones included: one more than there are
separators. -/
def splitFrom (separator : Char) (piece : List Char) (done : List (List Char)) :
    List Char → List (List Char)
  | [] => (piece.reverse :: done).reverse
  | c :: rest =>
    if c = separator then splitFrom separator [] (piece.reverse :: done) rest
    else splitFrom separator (c :: piece) done rest

def cut (separator : Char) (text : String) : List String :=
  (splitFrom separator [] [] text.toList).map String.ofList

end TableLexer.Text
