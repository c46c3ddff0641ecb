/-!
Lexemes as quoted literals, so that a message stays on one line and shows every character.
-/

namespace TableLexer.Literal

/-- A digit of a number in base sixteen, in lower case. -/
def hexDigit (n : Nat) : Char :=
  if n < 10 then Char.ofNat ('0'.toNat + n) else Char.ofNat ('a'.toNat + (n - 10))

/-- The last four hexadecimal digits of a number, leading zeros included. -/
def hex4 (n : Nat) : List Char :=
  [hexDigit (n / 4096 % 16), hexDigit (n / 256 % 16), hexDigit (n / 16 % 16), hexDigit (n % 16)]

/-- Whether a character is a control character: one below the space, or one from the delete
character to U+009F. -/
def isControl (c : Char) : Bool :=
  c.toNat < 0x20 || (0x7F ≤ c.toNat && c.toNat ≤ 0x9F)

/-- What stands for one character inside the quotes. -/
def escape (c : Char) : List Char :=
  if c = '\n' then ['\\', 'n']
  else if c = '\r' then ['\\', 'r']
  else if c = '\t' then ['\\', 't']
  else if c = '\x00' then ['\\', '0']
  else if c = '\\' then ['\\', '\\']
  else if c = '"' then ['\\', '"']
  else if isControl c then ['\\', 'u', '\x7b'] ++ hex4 c.toNat ++ ['\x7d']
  else [c]

/-- The characters of the literal of a text. -/
def encode (text : List Char) : List Char :=
  '"' :: (text.flatMap escape ++ ['"'])

/-- The literal of a text: its escaped characters between double quotes. -/
def ofText (text : String) : String :=
  String.ofList (encode text.toList)

end TableLexer.Literal
