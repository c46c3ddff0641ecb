/-!
White space of a text, by the `White_Space` property of the Unicode character database.
-/

namespace TableLexer.Text

/-- The ranges of code points with the property, in ascending order. -/
def blankRanges : List (Nat × Nat) :=
  [(0x9, 0xD), (0x20, 0x20), (0x85, 0x85), (0xA0, 0xA0), (0x1680, 0x1680), (0x2000, 0x200A),
    (0x2028, 0x2029), (0x202F, 0x202F), (0x205F, 0x205F), (0x3000, 0x3000)]

def isBlank (c : Char) : Bool :=
  blankRanges.any fun (first, last) => first ≤ c.toNat && c.toNat ≤ last

def allBlank (text : String) : Bool :=
  text.toList.all isBlank

def trimBlank (text : String) : String :=
  String.ofList ((text.toList.dropWhile isBlank).reverse.dropWhile isBlank).reverse

example : isBlank '\t' ∧ isBlank ' ' ∧ isBlank '\u00a0' ∧ isBlank '\u3000' := by decide

/-- The zero width space and the byte order mark do not have the property. -/
example : isBlank '\u200b' = false ∧ isBlank '\ufeff' = false := by decide

end TableLexer.Text
