import TableLexer.Pipeline
/-!
Listings: what the command line shows of tokens and responses.
-/

namespace TableLexer.CommandLine

def asLine (text : String) : String := text ++ "\n"

def asLines (texts : List String) : String := String.join (texts.map asLine)

def goodTokenText (t : Token) : String :=
  "Lexeme: " ++ Text.padRight 10 t.lexeme ++ "Name: " ++ t.category.getD ""

/-- A token of a listing; of a bad one the literal is shown. -/
def tokenText (t : Token) : String :=
  if t.isBad then "Invalid token " ++ Literal.ofText t.lexeme else goodTokenText t

/-- A segment of the preprocessor in a fixed column. -/
def segmentText (t : Token) : String :=
  "Lexeme: " ++ Text.padRight 15 (Literal.ofText t.lexeme)

/-- The warnings and errors of a response, each kind under a heading if there are any. -/
def responseText (r : Preprocessor.Response) : String :=
  let warnings :=
    r.warnings.map fun t => segmentText t.value ++ "Name: " ++ t.value.category.getD ""
  let errors := r.errors.map fun t => segmentText t.value
  (if r.hasWarnings then asLines ("Warnings:" :: warnings) else "") ++
    (if r.hasErrors then asLines ("Errors:" :: errors) else "")

/-- The tokens of a result with their places, and their numbers. -/
def tokensText (r : Pipeline.Result) : String :=
  let tokens := r.tokens.toList.map fun t =>
    Text.padLeft 8 t.span.start.text ++ "  " ++ tokenText t.value
  let totals :=
    toString r.tokens.size ++ " tokens, " ++ toString r.tokens.badCount ++ " invalid, " ++
      toString r.metrics.skipped ++ " comments skipped"
  asLines (["Tokens:"] ++ tokens ++ [totals])

def commandsText : String :=
  asLines [
    "Lexical Analyzer Commands:",
    Text.padRight 5 "q" ++ "Quit",
    Text.padRight 5 "r" ++ "Read the rest of the analysis",
    Text.padRight 5 "h" ++ "Help with commands"]

def version : String := "0.1.0"

def usageText (program : String) : String :=
  "Usage: " ++ program ++ " [--config <file>] [--tables <dir>] [<program>]"

def helpText (program : String) : String :=
  asLines [
    "SmallC Lexer v" ++ version,
    "Table-driven preprocessor and lexical analyzer",
    "",
    "USAGE:",
    "    " ++ program ++ " [--tables <dir>]              # Interactive session",
    "    " ++ program ++ " [--tables <dir>] <program>    # Analyze one program",
    "",
    "OPTIONS:",
    "    --config <file>   TOML preferences file (tables, lexical, preprocessor, logging)",
    "    --tables <dir>    Directory holding the three table files (default: tables)",
    "    --help            Show this help message",
    "",
    "INTERACTIVE COMMANDS:"] ++ commandsText

end TableLexer.CommandLine
