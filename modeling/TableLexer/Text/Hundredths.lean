/-!
Numbers with two decimals, rounded from exact quotients.
-/

namespace TableLexer.Hundredths

/-- A quotient rounded to the nearest whole number, a half to the even neighbour. -/
def roundHalfEven (numerator denominator : Nat) : Nat :=
  let q := numerator / denominator
  let twice := 2 * (numerator % denominator)
  if twice < denominator then q
  else if denominator < twice then q + 1
  else if q % 2 = 0 then q else q + 1

/-- A number of hundredths with its two decimals. -/
def text (n : Nat) : String :=
  let part := n % 100
  toString (n / 100) ++ "." ++ (if part < 10 then "0" else "") ++ toString part

end TableLexer.Hundredths
