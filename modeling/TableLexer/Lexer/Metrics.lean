import TableLexer.Preferences
import TableLexer.Token.Tally
/-!
Metrics: what a lexer counts while it works on one program.
-/

namespace TableLexer

/-- Counters for one program.  `recorded` counts tokens, the bad ones included; `unrecognized` counts
the characters that begin no token, and `skipped` the tokens that were left out; `longest` is the
length of the longest lexeme recorded. -/
structure Metrics where
  recorded : Nat
  keywords : Nat
  identifiers : Nat
  bad : Nat
  unrecognized : Nat
  skipped : Nat
  longest : Nat
  tally : Tally

namespace Metrics

def zero : Metrics := ⟨0, 0, 0, 0, 0, 0, 0, .empty⟩

/-- Counts a token with its category, which is a keyword's if the keyword table has renamed it. -/
def addToken (m : Metrics) (p : Preferences.Lexical) (category : String) (renamed : Bool)
    (length : Nat) : Metrics :=
  { m with
    recorded := m.recorded + 1
    longest := max m.longest length
    keywords := if renamed then m.keywords + 1 else m.keywords
    identifiers :=
      if !renamed && category == p.identifierCategory then m.identifiers + 1 else m.identifiers
    tally := if p.countCategories then m.tally.add category else m.tally }

def addBad (m : Metrics) (length : Nat) : Metrics :=
  { m with recorded := m.recorded + 1, bad := m.bad + 1, longest := max m.longest length }

def addSkipped (m : Metrics) : Metrics := { m with skipped := m.skipped + 1 }

def addUnrecognized (m : Metrics) : Metrics := { m with unrecognized := m.unrecognized + 1 }

end Metrics

end TableLexer
