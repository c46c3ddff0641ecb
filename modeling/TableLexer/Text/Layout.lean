/-!
Small pieces of output: truth values in words, and texts in columns.
-/

namespace TableLexer.Text

def ofBool (b : Bool) : String := if b then "true" else "false"

/-- Spaces that fill a text up to a width; none if it is as wide already. -/
def filling (width : Nat) (text : String) : String :=
  String.ofList (List.replicate (width - text.length) ' ')

/-- A text at the left of a column. -/
def padRight (width : Nat) (text : String) : String := text ++ filling width text

/-- A text at the right of a column. -/
def padLeft (width : Nat) (text : String) : String := filling width text ++ text

end TableLexer.Text
