import TableLexer.Json
import TableLexer.Source
/-!
Tokens: lexemes with the categories that the tables give them.  No category is known ahead of the
tables.
-/

namespace TableLexer

/-- A lexeme and its category.  A bad token has none: the automaton stopped where it accepts
nothing. -/
structure Token where
  lexeme : String
  category : Option String
deriving DecidableEq, Repr

namespace Token

def bad (lexeme : String) : Token := ⟨lexeme, none⟩

def isBad (t : Token) : Bool := t.category.isNone

def isOf (t : Token) (category : String) : Bool := t.category == some category

def length (t : Token) : Nat := t.lexeme.length

/-- A token in parentheses. -/
def text (t : Token) : String :=
  "(" ++ t.lexeme ++ ", " ++ t.category.getD "<bad>" ++ ")"

def toJson (t : Token) : Json :=
  .object [("lexeme", .string t.lexeme),
    ("name", match t.category with
      | some category => .string category
      | none => .null)]

end Token

def Position.toJson (p : Position) : Json :=
  .object [("offset", .number p.offset), ("line", .number p.line), ("column", .number p.column)]

def Span.toJson (s : Span) : Json :=
  .object [("start", s.start.toJson), ("end", s.stop.toJson)]

def Located.toJson (t : Located Token) : Json :=
  .object [("value", t.value.toJson), ("span", t.span.toJson)]

/-- What one step of a lexer gives: a token, the lexeme of a bad token, or nothing because no token
begins here. -/
inductive Outcome where
  | token (t : Token)
  | bad (lexeme : String)
  | none
deriving DecidableEq, Repr

namespace Outcome

def isToken : Outcome → Bool
  | token _ => true
  | _ => false

/-- The token of an outcome, bad or not. -/
def token? : Outcome → Option Token
  | token t => some t
  | bad lexeme => some (.bad lexeme)
  | none => Option.none

end Outcome

end TableLexer
