import TableLexer.Diagnostic.Code
import TableLexer.Limits
import TableLexer.Path
/-!
What can go wrong with a transition table or a keyword table.
-/

namespace TableLexer

/-- Why a table cannot be used as it was asked for. -/
inductive TableError where
  | unreadable (path : Path) (why : String)
  | keywordsUnreadable (path : Path) (why : String)
  | tooLarge (path : Path) (size greatest : Nat)
  | tooManyStates (count : Nat)
  | tooManyKeywords (count : Nat)
  | unknownState (name : String)
deriving DecidableEq, Repr

namespace TableError

def message : TableError → String
  | unreadable path why => "Cannot read transition table " ++ path.text ++ ": " ++ why
  | keywordsUnreadable path why => "Cannot read keyword table " ++ path.text ++ ": " ++ why
  | tooLarge path size greatest =>
    "Table " ++ path.text ++ " too large: " ++ toString size ++ " bytes (max: " ++
      toString greatest ++ ")"
  | tooManyStates count =>
    "Too many states: " ++ toString count ++ " (max " ++ toString limits.states ++ ")"
  | tooManyKeywords count =>
    "Too many keywords: " ++ toString count ++ " (max " ++ toString limits.keywords ++ ")"
  | unknownState name => "Unknown state: " ++ name

def code : TableError → Code
  | unreadable _ _ => .tableUnreadable
  | keywordsUnreadable _ _ => .keywordsUnreadable
  | tooLarge _ _ _ | tooManyStates _ | tooManyKeywords _ => .tableTooLarge
  | unknownState _ => .unknownState

end TableError

end TableLexer
