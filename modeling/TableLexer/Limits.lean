import TableLexer.Setting
/-!
Limits on what is read, kept and written.  The library runs with the limits `limits`; other
profiles are read from a document and checked before they are used.
-/

namespace TableLexer

/-- Bounds on files, tables, tokens and events.  Sizes are in bytes, lengths in characters. -/
structure Limits where
  fileSize : Nat
  largeFile : Nat
  lineCount : Nat
  tableSize : Nat
  states : Nat
  keywords : Nat
  tokens : Nat
  lexemeLength : Nat
  bufferedEvents : Nat
  eventsPerFile : Nat
  messageLength : Nat
deriving DecidableEq, Repr

/-- The limits that the library runs with. -/
def limits : Limits where
  fileSize := 10485760
  largeFile := 1048576
  lineCount := 100000
  tableSize := 1048576
  states := 4096
  keywords := 1024
  tokens := 1000000
  lexemeLength := 4096
  bufferedEvents := 10000
  eventsPerFile := 1000
  messageLength := 4096

namespace Limits

/-- Largest file size that any profile may allow. -/
def greatestFileSize : Nat := 1000000000

def greatestProductionFileSize : Nat := 50000000

def greatestStates : Nat := 1000000

/-- What is wrong with a profile. -/
inductive Fault where
  | fileSize
  | tableSize
  | states
  | tokens
  | eventsPerFile
  | productionFileSize
deriving DecidableEq, Repr

def Fault.message : Fault → String
  | fileSize => "LIMITS: max_file_size exceeds absolute maximum"
  | tableSize => "LIMITS: max_table_file_size must not exceed max_file_size"
  | states => "LIMITS: max_states must be between 1 and " ++ toString greatestStates
  | tokens => "LIMITS: max_token_count cannot be zero"
  | eventsPerFile => "LIMITS: max_log_events_per_file exceeds log_buffer_size"
  | productionFileSize => "PRODUCTION: max_file_size too high for production"

/-- The first fault of a profile of the given name, if it has any. -/
def fault? (l : Limits) (profile : String) : Option Fault :=
  if greatestFileSize < l.fileSize then some .fileSize
  else if l.fileSize < l.tableSize then some .tableSize
  else if l.states = 0 ∨ greatestStates < l.states then some .states
  else if l.tokens = 0 then some .tokens
  else if l.bufferedEvents < l.eventsPerFile then some .eventsPerFile
  else if profile = "production" ∧ greatestProductionFileSize < l.fileSize then
    some .productionFileSize
  else none

/-- Reads the limits of a profile.  Every one of them has to be there. -/
def ofSetting? (s : Setting) : Option Limits := do
  let files ← s.required "file_processing" 0 some
  let tables ← s.required "table_loading" 1 some
  let lexical ← s.required "lexical" 2 some
  let logging ← s.required "logging" 3 some
  return {
    fileSize := ← files.required "max_file_size" 0 Setting.natural?
    largeFile := ← files.required "large_file_threshold" 1 Setting.natural?
    lineCount := ← files.required "max_line_count_for_analysis" 2 Setting.natural?
    tableSize := ← tables.required "max_table_file_size" 0 Setting.natural?
    states := ← tables.required "max_states" 1 Setting.natural?
    keywords := ← tables.required "max_keywords" 2 Setting.natural?
    tokens := ← lexical.required "max_token_count" 0 Setting.natural?
    lexemeLength := ← lexical.required "max_lexeme_length" 1 Setting.natural?
    bufferedEvents := ← logging.required "log_buffer_size" 0 Setting.natural?
    eventsPerFile := ← logging.required "max_log_events_per_file" 1 Setting.natural?
    messageLength := ← logging.required "max_log_message_length" 2 Setting.natural? }

/-- Why the limits on events cannot be used, if they cannot. -/
def loggingFault? (l : Limits) : Option String :=
  if l.bufferedEvents = 0 then some "Log buffer size cannot be zero"
  else if l.bufferedEvents < l.eventsPerFile then
    some "Max log events per file exceeds total buffer size"
  else if l.messageLength < 16 then
    some ("Max log message length too small: " ++ toString l.messageLength)
  else none

theorem limits_fault?_eq_none : limits.fault? "development" = none := by decide

end Limits

end TableLexer
