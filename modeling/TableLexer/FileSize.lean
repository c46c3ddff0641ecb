import TableLexer.Text.Hundredths
/-!
Sizes of files as people read them: in bytes, or in a larger unit with two decimals.
-/

namespace TableLexer.FileSize

/-- A size to 53 significant binary digits, the precision in which units are divided. -/
def significant (size : Nat) : Nat :=
  if size < 1 <<< 53 then size
  else
    let unit := 1 <<< (Nat.log2 size - 52)
    Hundredths.roundHalfEven size unit * unit

/-- The units above the byte, each 1024 times the one before. -/
def units : List String := ["KB", "MB", "GB"]

/-- The largest unit that a size fills, as its value and name, from a unit of value `scale` on; the
last unit takes whatever is left. -/
def unitFrom (size scale : Nat) (name : String) : List String → Nat × String
  | [] => (scale, name)
  | larger :: rest =>
    if 1024 * scale ≤ size then unitFrom size (1024 * scale) larger rest else (scale, name)

/-- A size in the largest unit that it fills; bytes are written whole. -/
def text (size : Nat) : String :=
  let (scale, name) := unitFrom (significant size) 1 "B" units
  if scale = 1 then toString size ++ " B"
  else Hundredths.text (Hundredths.roundHalfEven (100 * significant size) scale) ++ " " ++ name

example : text 1023 = "1023 B" := by cbv

/-- An exact half goes to the even hundredth, below and above. -/
example : text 1152 = "1.12 KB" ∧ text 1408 = "1.38 KB" := by cbv

end TableLexer.FileSize
