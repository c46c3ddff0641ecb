import TableLexer.Setting
import TableLexer.Toml.Text
/-!
Words of a TOML document that stand for a single value: truth values, whole numbers, numbers with a
fraction, dates and times.
-/

namespace TableLexer.Toml

/-- Digits with single underscores between them, after the digits `read`, last digit first. -/
def digitsAfter? (isDigit : Char → Bool) (read : List Char) : List Char → Option (List Char)
  | [] => none
  | [c] => if isDigit c then some (c :: read).reverse else none
  | c :: '_' :: rest => if isDigit c then digitsAfter? isDigit (c :: read) rest else none
  | c :: rest => if isDigit c then digitsAfter? isDigit (c :: read) rest else none

/-- Digits with single underscores between them, without the underscores; none if there is no digit
or an underscore stands anywhere else. -/
def digits? (isDigit : Char → Bool) : List Char → Option (List Char) := digitsAfter? isDigit []

/-- A word without its sign, and whether the sign is a minus. -/
def unsigned : List Char → Bool × List Char
  | '-' :: rest => (true, rest)
  | '+' :: rest => (false, rest)
  | rest => (false, rest)

/-- The digits of a decimal number that does not begin with a needless zero. -/
def decimalDigits? (word : List Char) : Option (List Char) :=
  match digits? Char.isDigit word with
  | some ('0' :: _ :: _) => none
  | found => found

/-- The number that digits write in a base. -/
def inBase (base : Nat) (ds : List Char) : Nat :=
  ds.foldl (fun n d => base * n + (HexSymbol.digit? d).getD 0) 0

/-- Digits without the zeros in front. -/
def significant (ds : List Char) : List Char := ds.dropWhile (· = '0')

/-- The whole number that digits write in a base, if it fits into 64 bits with a sign.  In no base
does a number of more than 64 significant digits fit. -/
def whole? (base : Nat) (negative : Bool) (ds : List Char) : Option Int :=
  if 64 < (significant ds).length then none
  else
    let magnitude : Int := inBase base (significant ds)
    let n := if negative then -magnitude else magnitude
    if -Int.pow 2 63 ≤ n ∧ n < Int.pow 2 63 then some n else none

/-- A whole number: decimal with an optional sign, or in another base with its prefix. -/
def integer? (word : List Char) : Option Int :=
  match word with
  | '0' :: 'x' :: rest =>
    (digits? (fun c => (HexSymbol.digit? c).isSome) rest).bind (whole? 16 false)
  | '0' :: 'o' :: rest => (digits? (fun c => '0' ≤ c && c ≤ '7') rest).bind (whole? 8 false)
  | '0' :: 'b' :: rest => (digits? (fun c => c = '0' || c = '1') rest).bind (whole? 2 false)
  | _ =>
    let (negative, magnitude) := unsigned word
    (decimalDigits? magnitude).bind (whole? 10 negative)

/-- The smallest number that no double comes near: half a unit above the largest double. -/
def beyondDouble : Nat := 1 <<< 1024 - 1 <<< 970

/-- Whether a positive decimal number, `ds` times ten to the power `e`, is too large for a double.
For a number with 309 digits before the point these digits decide. -/
def overflows (ds : List Char) (e : Int) : Bool :=
  let size : Int := (significant ds).length + e
  if (significant ds).isEmpty ∨ size < 309 then false
  else if 309 < size then true
  else decide (beyondDouble ≤ inBase 10 ((significant ds ++ List.replicate 309 '0').take 309))

/-- The size of an exponent.  Once its digits have come to 65536 or more, the rest of them does not
count. -/
def exponentSize (ds : List Char) : Nat :=
  ds.foldl (fun n d => if n < 65536 then 10 * n + (HexSymbol.digit? d).getD 0 else n) 0

/-- Whether a word is a number with a fraction, an exponent or both, within the range of a
double. -/
def isDecimal (word : List Char) : Bool :=
  let (negative, magnitude) := unsigned word
  if magnitude = ['i', 'n', 'f'] ∨ magnitude = ['n', 'a', 'n'] then true
  else
    let isMark := fun c => c = 'e' || c = 'E'
    let mantissa := magnitude.takeWhile fun c => !isMark c
    let exponent := magnitude.dropWhile fun c => !isMark c
    let whole := mantissa.takeWhile (· ≠ '.')
    let fraction := mantissa.dropWhile (· ≠ '.')
    let wholeDigits := decimalDigits? whole
    let fractionDigits := match fraction with
      | [] => some []
      | _ :: rest => digits? Char.isDigit rest
    let exponentValue : Option Int := match exponent with
      | [] => some 0
      | _ :: rest =>
        let (below, ds) := unsigned rest
        (digits? Char.isDigit ds).map fun ds =>
          let n : Int := exponentSize ds
          if below then -n else n
    match wholeDigits, fractionDigits, exponentValue with
    | some a, some b, some e =>
      !(fraction.isEmpty && exponent.isEmpty) &&
        (negative || !overflows (a ++ b) (e - b.length))
    | _, _, _ => false

/-- A number of exactly two digits within bounds. -/
def twoDigits? (least greatest : Nat) : List Char → Option (Nat × List Char)
  | a :: b :: rest =>
    let n := 10 * (a.toNat - '0'.toNat) + (b.toNat - '0'.toNat)
    if a.isDigit ∧ b.isDigit ∧ least ≤ n ∧ n ≤ greatest then some (n, rest) else none
  | _ => none

def lastDay (year month : Nat) : Nat :=
  if month = 2 then
    if year % 4 = 0 ∧ (year % 100 ≠ 0 ∨ year % 400 = 0) then 29 else 28
  else if month = 4 ∨ month = 6 ∨ month = 9 ∨ month = 11 then 30 else 31

/-- The rest after a date of the calendar. -/
def afterDate? (word : List Char) : Option (List Char) :=
  match word with
  | a :: b :: c :: d :: '-' :: rest =>
    if a.isDigit ∧ b.isDigit ∧ c.isDigit ∧ d.isDigit then
      match twoDigits? 1 12 rest with
      | some (month, '-' :: rest) =>
        (twoDigits? 1 (lastDay (inBase 10 [a, b, c, d]) month) rest).map Prod.snd
      | _ => none
    else none
  | _ => none

/-- The rest after a time of the day; a minute may have a leap second. -/
def afterTime? (word : List Char) : Option (List Char) :=
  match twoDigits? 0 23 word with
  | some (_, ':' :: rest) =>
    match twoDigits? 0 59 rest with
    | some (_, ':' :: rest) =>
      match twoDigits? 0 60 rest with
      | some (_, '.' :: rest) =>
        if (rest.takeWhile Char.isDigit).isEmpty then none else some (rest.dropWhile Char.isDigit)
      | some (_, rest) => some rest
      | none => none
    | _ => none
  | _ => none

/-- Whether a word is the distance of a clock from universal time. -/
def isOffset (word : List Char) : Bool :=
  match word with
  | ['Z'] => true
  | ['z'] => true
  | sign :: rest =>
    if sign = '+' ∨ sign = '-' then
      match twoDigits? 0 23 rest with
      | some (_, ':' :: rest) => (twoDigits? 0 59 rest).any fun (_, rest) => rest.isEmpty
      | _ => false
    else false
  | [] => false

/-- Whether a word is a date, a time, or both with an optional offset. -/
def isMoment (word : List Char) : Bool :=
  match afterDate? word with
  | some [] => true
  | some (mark :: rest) =>
    if mark = 'T' ∨ mark = 't' ∨ mark = ' ' then
      match afterTime? rest with
      | some [] => true
      | some offset => isOffset offset
      | none => false
    else false
  | none =>
    match afterTime? word with
    | some [] => true
    | _ => false

def scalarOf? (word : List Char) : Option Setting :=
  if word = ['t', 'r', 'u', 'e'] then some (.boolean true)
  else if word = ['f', 'a', 'l', 's', 'e'] then some (.boolean false)
  else if isMoment word then some .moment
  else if isDecimal word then some .decimal
  else (integer? word).map .integer

def isWord (c : Char) : Bool :=
  c.isAlphanum || c = '+' || c = '-' || c = '_' || c = '.' || c = ':'

/-- Reads a word and takes its value.  A date takes in the time after a space. -/
def scalar : Reader Setting := do
  let word ← run isWord
  let rest ← get
  match afterDate? word, rest with
  | some [], ' ' :: c :: _ =>
    if c.isDigit then
      exactly ' '
      let time ← run isWord
      scalarOf? (word ++ ' ' :: time)
    else scalarOf? word
  | _, _ => scalarOf? word

end TableLexer.Toml
