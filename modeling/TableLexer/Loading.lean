import TableLexer.Inquiry
import TableLexer.Lexer.Basic
import TableLexer.Preprocessor.Basic
/-!
Lexers and preprocessors from table files.  A table that cannot be read counts as an empty one, so
that the only error left is a machine without states.
-/

namespace TableLexer

/-- The value, after one more notice if it is an error. -/
def Logged.reporting {ε α : Type} (notice : ε → Notice) (x : Logged (Except ε α)) :
    Logged (Except ε α) :=
  match x.value with
  | .ok _ => x
  | .error e => x.noting [notice e]

namespace Lexer

def load (table keywords : Path) (preferences : Preferences.Lexical) :
    Inquiry (Logged (Except LexerError Lexer)) := do
  let machine := Machine.loadOrEmpty table (← .about table)
  let words := Keywords.loadOrEmpty keywords (← .about keywords)
  return machine.andThen fun m => words.map fun k => ofTables m k preferences

def failureNotice (e : LexerError) : Notice := .error e.code e.message [] none

/-- Loads the tables of a lexer, and says so if that gives none. -/
def loadReporting (table keywords : Path) (preferences : Preferences.Lexical) :
    Inquiry (Logged (Except LexerError Lexer)) :=
  (Logged.reporting failureNotice) <$> load table keywords preferences

end Lexer

namespace Preprocessor

def load (table : Path) (preferences : Preferences.Preprocessing) (files : Preferences.Files) :
    Inquiry (Logged (Except PreprocessorError Preprocessor)) := do
  let machine := Machine.loadOrEmpty table (← .about table)
  return machine.map fun m => ofMachine m preferences files

def failureNotice (e : PreprocessorError) : Notice := .error e.code e.message [] none

/-- Loads the table of a preprocessor, and says so if that gives none. -/
def loadReporting (table : Path) (preferences : Preferences.Preprocessing)
    (files : Preferences.Files) : Inquiry (Logged (Except PreprocessorError Preprocessor)) :=
  (Logged.reporting failureNotice) <$> load table preferences files

end Preprocessor

end TableLexer
