import TableLexer.Text.Literal
/-!
JSON values and their compact text: no space between the parts, members in the order in which the
object lists them.
-/

namespace TableLexer

/-- A JSON value with natural numbers.  Members keep the order in which they were given. -/
inductive Json where
  | null
  | boolean (value : Bool)
  | number (value : Nat)
  | string (value : String)
  | array (items : List Json)
  | object (members : List (String × Json))
deriving Repr

namespace Json

/-- What stands for one character inside a JSON string: the seven short escapes, and `\u` with
four digits for any other character below the space. -/
def escape (c : Char) : List Char :=
  if c = '"' then ['\\', '"']
  else if c = '\\' then ['\\', '\\']
  else if c = '\x08' then ['\\', 'b']
  else if c = '\x0c' then ['\\', 'f']
  else if c = '\n' then ['\\', 'n']
  else if c = '\r' then ['\\', 'r']
  else if c = '\t' then ['\\', 't']
  else if c.toNat < 0x20 then ['\\', 'u'] ++ Literal.hex4 c.toNat
  else [c]

/-- The JSON string of a text. -/
def quote (text : String) : String :=
  String.ofList ('"' :: (text.toList.flatMap escape ++ ['"']))

mutual

/-- The compact text of a value. -/
def compact : Json → String
  | .null => "null"
  | .boolean b => if b then "true" else "false"
  | .number n => toString n
  | .string s => quote s
  | .array items => "[" ++ compactItems items ++ "]"
  | .object members => "\x7b" ++ compactMembers members ++ "\x7d"

def compactItems : List Json → String
  | [] => ""
  | [item] => compact item
  | item :: other :: items => compact item ++ "," ++ compactItems (other :: items)

def compactMembers : List (String × Json) → String
  | [] => ""
  | [(key, value)] => quote key ++ ":" ++ compact value
  | (key, value) :: other :: members =>
    quote key ++ ":" ++ compact value ++ "," ++ compactMembers (other :: members)

end

end Json

end TableLexer
