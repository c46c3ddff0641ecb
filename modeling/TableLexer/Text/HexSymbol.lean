/-!
Symbols written as hexadecimal escapes, such as `0x20` for a space.  Every marker `0x` is taken
out of the cell and what is left is read in base sixteen.
-/

namespace TableLexer.HexSymbol

/-- A cell without its markers, read from the left: `0x0x20` and `200x` both leave `20`.  The
characters kept so far come last first. -/
def withoutMarkers (kept : List Char) : List Char → List Char
  | '0' :: 'x' :: rest => withoutMarkers kept rest
  | c :: rest => withoutMarkers (c :: kept) rest
  | [] => kept.reverse

/-- The value of a hexadecimal digit of either case. -/
def digit? (c : Char) : Option Nat :=
  if '0' ≤ c ∧ c ≤ '9' then some (c.toNat - '0'.toNat)
  else if 'a' ≤ c ∧ c ≤ 'f' then some (c.toNat - 'a'.toNat + 10)
  else if 'A' ≤ c ∧ c ≤ 'F' then some (c.toNat - 'A'.toNat + 10)
  else none

/-- The number that hexadecimal digits write after a number already read. -/
def valueFrom (read : Nat) : List Char → Option Nat
  | [] => some read
  | c :: rest => (digit? c).bind fun d => valueFrom (16 * read + d) rest

/-- A number in base sixteen: at least one digit, after an optional plus sign. -/
def value? : List Char → Option Nat
  | [] => none
  | ['+'] => none
  | '+' :: digits => valueFrom 0 digits
  | digits => valueFrom 0 digits

/-- The character with a given number, if the number is a Unicode scalar value. -/
def scalar? (n : Nat) : Option Char :=
  if n.isValidChar then some (Char.ofNat n) else none

/-- The character that an escape writes; none if the rest is empty, not hexadecimal or not the
number of a character. -/
def decode? (cell : String) : Option Char :=
  (value? (withoutMarkers [] cell.toList)).bind scalar?

/-- Whether a cell contains a marker. -/
def hasMarker : List Char → Bool
  | '0' :: 'x' :: _ => true
  | _ :: rest => hasMarker rest
  | [] => false

/-- The symbol of a header cell: an escape if the cell contains a marker, and its first character
otherwise. -/
def ofCell? (cell : String) : Option Char :=
  if hasMarker cell.toList then decode? cell else cell.toList.head?

end TableLexer.HexSymbol
