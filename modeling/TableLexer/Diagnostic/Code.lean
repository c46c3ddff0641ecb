/-!
The codes of events and what is known about each: its category, how severe it is, whether work can
go on after it, and what to do about it.
-/

namespace TableLexer

/-- A code, such as `E020`. -/
structure Code where
  text : String
deriving DecidableEq, Repr

/-- How severe the matter behind a code is. -/
inductive Severity where
  | critical
  | high
  | medium
  | low
deriving DecidableEq, Repr

def Severity.word : Severity → String
  | critical => "Critical"
  | high => "High"
  | medium => "Medium"
  | low => "Low"

/-- What is known about a code. -/
structure CodeEntry where
  code : Code
  category : String
  severity : Severity
  recoverable : Bool
  halts : Bool
  description : String
  action : String
deriving DecidableEq, Repr

namespace Code

/-- Something went wrong inside the program. -/
def internal : Code := ⟨"ERR001"⟩
/-- The program could not be set up. -/
def setupFailed : Code := ⟨"ERR002"⟩
/-- A file has too many events; later ones are dropped. -/
def eventLimit : Code := ⟨"W003"⟩

def fileNotFound : Code := ⟨"E005"⟩
/-- A file has too many bytes or lines. -/
def fileTooLarge : Code := ⟨"E007"⟩
/-- A program has no visible character. -/
def fileEmpty : Code := ⟨"E008"⟩
def permissionDenied : Code := ⟨"E009"⟩
/-- A file is no UTF-8 text. -/
def invalidEncoding : Code := ⟨"E010"⟩
/-- A file could not be read to its end. -/
def inputOutput : Code := ⟨"E011"⟩
/-- A path is empty or names no regular file. -/
def invalidPath : Code := ⟨"E012"⟩

def tableUnreadable : Code := ⟨"E060"⟩
def emptyMachine : Code := ⟨"E061"⟩
def transitionsDropped : Code := ⟨"W062"⟩
/-- Columns of a table were ignored, or it has no header. -/
def columnsIgnored : Code := ⟨"W063"⟩
def rowsIgnored : Code := ⟨"W064"⟩
def keywordsUnreadable : Code := ⟨"E065"⟩
def tableTooLarge : Code := ⟨"E066"⟩
/-- A table has no state of the requested name. -/
def unknownState : Code := ⟨"W067"⟩

/-- A lexeme ended in a state that accepts nothing. -/
def badToken : Code := ⟨"E020"⟩
/-- A character begins no token. -/
def unrecognized : Code := ⟨"E021"⟩
def lexemeTooLong : Code := ⟨"E023"⟩
def tooManyTokens : Code := ⟨"E027"⟩

/-- The preprocessor ended a segment without a category. -/
def segmentError : Code := ⟨"E070"⟩
/-- The preprocessor met a segment of the warning category. -/
def segmentWarning : Code := ⟨"W071"⟩
def notOpen : Code := ⟨"E072"⟩

def setupDone : Code := ⟨"I004"⟩
def fileRead : Code := ⟨"I006"⟩
def tableLoaded : Code := ⟨"I010"⟩
def keywordsLoaded : Code := ⟨"I011"⟩
def tokenized : Code := ⟨"I020"⟩
def preprocessed : Code := ⟨"I030"⟩
def processed : Code := ⟨"I040"⟩

/-- The code of every information without one of its own. -/
def information : Code := ⟨"I000"⟩
/-- The code of every debug event. -/
def debugging : Code := ⟨"D000"⟩

/-- Everything that is known about codes, by subject. -/
def registry : List CodeEntry := [
  ⟨internal, "System", .critical, false, true, "Critical internal system error",
    "File a bug report with the input that triggered it"⟩,
  ⟨setupFailed, "System", .critical, false, true, "System initialization failure",
    "Check logging and table configuration"⟩,
  ⟨eventLimit, "System", .low, true, false,
    "Per-file event limit reached; later events dropped", "Fix the reported problems and rerun"⟩,
  ⟨fileNotFound, "FileProcessing", .medium, false, true, "File not found at specified path",
    "Check file path and ensure file exists"⟩,
  ⟨fileTooLarge, "FileProcessing", .medium, false, true, "File exceeds maximum size limit",
    "Reduce file size or rebuild with a larger profile limit"⟩,
  ⟨fileEmpty, "FileProcessing", .low, true, false, "Program contains no characters to analyze",
    "Provide a program with content"⟩,
  ⟨permissionDenied, "FileProcessing", .medium, false, true, "Permission denied accessing file",
    "Check file permissions and user access rights"⟩,
  ⟨invalidEncoding, "FileProcessing", .medium, false, true, "File is not valid UTF-8",
    "Save the file with a single-byte compatible encoding"⟩,
  ⟨inputOutput, "FileProcessing", .high, false, true, "I/O error while reading file",
    "Check storage and retry"⟩,
  ⟨invalidPath, "FileProcessing", .medium, false, true, "Path is not a readable file",
    "Provide a path to a regular file"⟩,
  ⟨tableUnreadable, "TableLoading", .critical, false, true,
    "Transition table resource could not be read",
    "Check the table path and the SMALLC_TABLE_DIR setting"⟩,
  ⟨emptyMachine, "TableLoading", .critical, false, true, "State machine has no states",
    "Provide a transition table with a header row and at least one state row"⟩,
  ⟨transitionsDropped, "TableLoading", .low, true, false,
    "Transition names a destination state that does not exist",
    "Fix the destination cell or add the missing state row"⟩,
  ⟨columnsIgnored, "TableLoading", .low, true, false,
    "Header symbol could not be decoded; column ignored",
    "Use a single character or a 0xHH escape in the header row"⟩,
  ⟨rowsIgnored, "TableLoading", .low, true, false,
    "State row declared more than once; first occurrence kept", "Remove the duplicate state row"⟩,
  ⟨keywordsUnreadable, "TableLoading", .critical, false, true,
    "Keyword table resource could not be read", "Check the keyword table path"⟩,
  ⟨tableTooLarge, "TableLoading", .high, false, true, "Table exceeds compile-time size limits",
    "Split the table or rebuild with a larger profile limit"⟩,
  ⟨unknownState, "TableLoading", .medium, true, false,
    "Requested entry state is not declared in the table",
    "Use a state name that has a row in the table"⟩,
  ⟨badToken, "Lexical", .low, true, false,
    "Input reached a non-accepting state with no transition",
    "Check the program text at the reported position"⟩,
  ⟨unrecognized, "Lexical", .low, true, false, "Character cannot start any token",
    "Remove the character or extend the transition table"⟩,
  ⟨lexemeTooLong, "Lexical", .low, true, false, "Lexeme longer than the configured maximum",
    "Check for an unterminated literal or comment"⟩,
  ⟨tooManyTokens, "Lexical", .high, false, true, "Token count exceeds compile-time limit",
    "Split the program into smaller files"⟩,
  ⟨segmentError, "Preprocessor", .low, true, false,
    "Preprocessor reached a state with no category",
    "Check the program text near the reported lexeme"⟩,
  ⟨segmentWarning, "Preprocessor", .low, true, false,
    "Preprocessor flagged a construct as a warning", "Review the flagged lexeme"⟩,
  ⟨notOpen, "Preprocessor", .medium, true, false, "No program is open for preprocessing",
    "Open a program before processing"⟩]

def entry? (code : Code) : Option CodeEntry :=
  registry.find? fun entry => entry.code = code

/-- The severity of a code; medium if nothing is known. -/
def severity (code : Code) : Severity :=
  (code.entry?.map CodeEntry.severity).getD .medium

/-- Whether work can go on; it can if nothing is known. -/
def isRecoverable (code : Code) : Bool :=
  (code.entry?.map CodeEntry.recoverable).getD true

/-- Whether work has to stop; it does not if nothing is known. -/
def halts (code : Code) : Bool :=
  (code.entry?.map CodeEntry.halts).getD false

def noDescription : String := "Unknown error"

def noAction : String := "No specific action available"

def description (code : Code) : String :=
  (code.entry?.map CodeEntry.description).getD noDescription

def action (code : Code) : String :=
  (code.entry?.map CodeEntry.action).getD noAction

def category (code : Code) : String :=
  (code.entry?.map CodeEntry.category).getD "Unknown"

/-- The codes of tokenizing, all of which have to be known. -/
def lexical : List Code := [badToken, unrecognized, lexemeTooLong, tooManyTokens]

theorem isSome_entry?_of_mem_lexical : ∀ code ∈ lexical, code.entry?.isSome := by decide

end Code

end TableLexer
