import TableLexer.Diagnostic.Level
import TableLexer.FileTree
import TableLexer.Limits
import TableLexer.Text.Blank
import TableLexer.Text.Layout
import TableLexer.Toml.Document
/-!
Preferences: where the tables are, how the passes treat their categories, and what is logged.  Every
preference has a default, which a variable of the environment may replace; a document of preferences
goes before both.
-/

namespace TableLexer

/-- Variables with their values. -/
structure Environment where
  bindings : List (String × String)
deriving Repr

namespace Environment

/-- The variables that preferences are read from. -/
def names : List String := [
  "SMALLC_TABLE_DIR", "SMALLC_LEXICAL_TABLE", "SMALLC_KEYWORD_TABLE", "SMALLC_PREPROCESSOR_TABLE",
  "SMALLC_ENABLE_PERFORMANCE_LOGGING", "SMALLC_REJECT_EMPTY_PROGRAMS",
  "SMALLC_LEXICAL_IDENTIFIER_CATEGORY", "SMALLC_LEXICAL_SKIP_CATEGORIES",
  "SMALLC_LEXICAL_CATEGORY_COUNTS", "SMALLC_LEXICAL_LOG_BAD_TOKENS",
  "SMALLC_PREPROCESSOR_PASSTHROUGH", "SMALLC_PREPROCESSOR_WARNING",
  "SMALLC_LOGGING_USE_STRUCTURED", "SMALLC_LOGGING_ENABLE_CONSOLE", "SMALLC_LOGGING_MIN_LEVEL",
  "SMALLC_LOGGING_CARGO_STYLE", "SMALLC_LOGGING_INCLUDE_FILE_CONTEXT"]

def get? (env : Environment) (name : String) : Option String :=
  env.bindings.lookup name

def text (env : Environment) (name default : String) : String :=
  (env.get? name).getD default

/-- A truth value, which is written exactly `true` or `false`; anything else is the default. -/
def flag (env : Environment) (name : String) (default : Bool) : Bool :=
  match env.get? name with
  | some "true" => true
  | some "false" => false
  | _ => default

end Environment

namespace Preferences

/-- Where the tables are. -/
structure Tables where
  directory : Path
  lexical : String
  keywords : String
  preprocessor : String
deriving DecidableEq, Repr

/-- How program files are read. -/
structure Files where
  logPerformance : Bool
  rejectEmpty : Bool
deriving DecidableEq, Repr

/-- How tokens are treated. -/
structure Lexical where
  identifierCategory : String
  skipCategories : List String
  countCategories : Bool
  logBadTokens : Bool
deriving DecidableEq, Repr

/-- How the segments of the preprocessor are treated. -/
structure Preprocessing where
  passthroughCategory : String
  warningCategory : String
deriving DecidableEq, Repr

/-- What is logged, and how. -/
structure Logging where
  structured : Bool
  console : Bool
  threshold : Level
  fileReports : Bool
  fileContext : Bool
deriving DecidableEq, Repr

namespace Tables

def ofEnvironment (env : Environment) : Tables where
  directory := ⟨env.text "SMALLC_TABLE_DIR" "tables"⟩
  lexical := env.text "SMALLC_LEXICAL_TABLE" "Lexical Analyzer Table.csv"
  keywords := env.text "SMALLC_KEYWORD_TABLE" "Keyword Table.csv"
  preprocessor := env.text "SMALLC_PREPROCESSOR_TABLE" "PreProcessor Table.csv"

def inDirectory (env : Environment) (directory : Path) : Tables :=
  { ofEnvironment env with directory }

def lexicalPath (t : Tables) : Path := t.directory.join t.lexical

def keywordsPath (t : Tables) : Path := t.directory.join t.keywords

def preprocessorPath (t : Tables) : Path := t.directory.join t.preprocessor

def ofSetting? (env : Environment) (s : Setting) : Option Tables := do
  let d := ofEnvironment env
  return {
    directory := ← s.optional "table_dir" 0 (fun v => v.string?.map Path.mk) d.directory
    lexical := ← s.optional "lexical_table" 1 Setting.string? d.lexical
    keywords := ← s.optional "keyword_table" 2 Setting.string? d.keywords
    preprocessor := ← s.optional "preprocessor_table" 3 Setting.string? d.preprocessor }

end Tables

namespace Files

def ofEnvironment (env : Environment) : Files where
  logPerformance := env.flag "SMALLC_ENABLE_PERFORMANCE_LOGGING" true
  rejectEmpty := env.flag "SMALLC_REJECT_EMPTY_PROGRAMS" false

def ofSetting? (env : Environment) (s : Setting) : Option Files := do
  let d := ofEnvironment env
  return {
    logPerformance := ← s.optional "enable_performance_logging" 0 Setting.boolean? d.logPerformance
    rejectEmpty := ← s.optional "reject_empty_programs" 1 Setting.boolean? d.rejectEmpty }

end Files

namespace Lexical

/-- Categories divided by commas, without the white space around them; empty ones are left out. -/
def categories (text : String) : List String :=
  ((Text.cut ',' text).map Text.trimBlank).filter (· ≠ "")

def ofEnvironment (env : Environment) : Lexical where
  identifierCategory := env.text "SMALLC_LEXICAL_IDENTIFIER_CATEGORY" "Identifier"
  skipCategories :=
    match env.get? "SMALLC_LEXICAL_SKIP_CATEGORIES" with
    | some text => categories text
    | none => ["Line Comment", "Block Comment"]
  countCategories := env.flag "SMALLC_LEXICAL_CATEGORY_COUNTS" true
  logBadTokens := env.flag "SMALLC_LEXICAL_LOG_BAD_TOKENS" true

/-- Whether tokens of a category are left out. -/
def skips (p : Lexical) (category : String) : Bool :=
  p.skipCategories.contains category

def ofSetting? (env : Environment) (s : Setting) : Option Lexical := do
  let d := ofEnvironment env
  return {
    identifierCategory := ← s.optional "identifier_category" 0 Setting.string? d.identifierCategory
    skipCategories := ← s.optional "skip_categories" 1 Setting.strings? d.skipCategories
    countCategories := ← s.optional "collect_category_counts" 2 Setting.boolean? d.countCategories
    logBadTokens := ← s.optional "log_bad_tokens" 3 Setting.boolean? d.logBadTokens }

end Lexical

namespace Preprocessing

def ofEnvironment (env : Environment) : Preprocessing where
  passthroughCategory := env.text "SMALLC_PREPROCESSOR_PASSTHROUGH" "Add"
  warningCategory := env.text "SMALLC_PREPROCESSOR_WARNING" "Brace"

def ofSetting? (env : Environment) (s : Setting) : Option Preprocessing := do
  let d := ofEnvironment env
  return {
    passthroughCategory := ←
      s.optional "passthrough_category" 0 Setting.string? d.passthroughCategory
    warningCategory := ← s.optional "warning_category" 1 Setting.string? d.warningCategory }

end Preprocessing

namespace Logging

def ofEnvironment (env : Environment) : Logging where
  structured := env.flag "SMALLC_LOGGING_USE_STRUCTURED" false
  console := env.flag "SMALLC_LOGGING_ENABLE_CONSOLE" true
  threshold := ((env.get? "SMALLC_LOGGING_MIN_LEVEL").bind Level.ofWord?).getD .warning
  fileReports := env.flag "SMALLC_LOGGING_CARGO_STYLE" true
  fileContext := env.flag "SMALLC_LOGGING_INCLUDE_FILE_CONTEXT" true

def ofSetting? (env : Environment) (s : Setting) : Option Logging := do
  let d := ofEnvironment env
  let levels := Level.all.map fun level => (level.name, level)
  return {
    structured := ← s.optional "use_structured_logging" 0 Setting.boolean? d.structured
    console := ← s.optional "enable_console_logging" 1 Setting.boolean? d.console
    threshold := ← s.optional "min_log_level" 2 (Setting.choice? levels) d.threshold
    fileReports := ← s.optional "enable_cargo_style_output" 3 Setting.boolean? d.fileReports
    fileContext := ← s.optional "include_file_context" 4 Setting.boolean? d.fileContext }

/-- The limits and preferences of logging on lines of their own. -/
def summary (p : Logging) : String :=
  "\n".intercalate [
    "Logging Configuration:",
    "=== Limits (Compile-time) ===",
    "- Log buffer size: " ++ toString limits.bufferedEvents,
    "- Max events per file: " ++ toString limits.eventsPerFile,
    "- Max message length: " ++ toString limits.messageLength,
    "=== Preferences (Runtime) ===",
    "- Min log level: " ++ p.threshold.word,
    "- Structured logging: " ++ Text.ofBool p.structured,
    "- Console logging: " ++ Text.ofBool p.console,
    "- Cargo-style output: " ++ Text.ofBool p.fileReports,
    "- Include file context: " ++ Text.ofBool p.fileContext]

end Logging

end Preferences

structure Preferences where
  tables : Preferences.Tables
  files : Preferences.Files
  lexical : Preferences.Lexical
  preprocessing : Preferences.Preprocessing
  logging : Preferences.Logging
deriving DecidableEq, Repr

namespace Preferences

/-- The defaults. -/
def ofEnvironment (env : Environment) : Preferences where
  tables := .ofEnvironment env
  files := .ofEnvironment env
  lexical := .ofEnvironment env
  preprocessing := .ofEnvironment env
  logging := .ofEnvironment env

/-- Reads a section of sections. -/
def ofSetting? (env : Environment) (s : Setting) : Option Preferences := do
  let d := ofEnvironment env
  return {
    tables := ← s.optional "tables" 0 (Tables.ofSetting? env) d.tables
    files := ← s.optional "file_processor" 1 (Files.ofSetting? env) d.files
    lexical := ← s.optional "lexical" 2 (Lexical.ofSetting? env) d.lexical
    preprocessing := ←
      s.optional "preprocessor" 3 (Preprocessing.ofSetting? env) d.preprocessing
    logging := ← s.optional "logging" 4 (Logging.ofSetting? env) d.logging }

def parse? (env : Environment) (text : String) : Option Preferences :=
  (Toml.parse? text).bind (ofSetting? env)

/-- Why a preferences file cannot be used. -/
inductive Fault where
  | unreadable (path : Path) (why : String)
  | invalid (path : Path)
deriving DecidableEq, Repr

/-- A fault in words.  What is wrong inside of a document is left to its reader. -/
def Fault.message : Fault → String
  | unreadable path why => "Cannot read preferences file " ++ path.text ++ ": " ++ why
  | invalid path => "Invalid preferences file " ++ path.text ++ ": "

def ofFile (env : Environment) (path : Path) (answer : FileAnswer) : Except Fault Preferences :=
  match answer with
  | .unreachable why => .error (.unreadable path why.message)
  | .directory => .error (.unreadable path readsDirectory)
  | .file _ content =>
    match String.fromUTF8? content with
    | none => .error (.unreadable path notUtf8)
    | some text =>
      match parse? env text with
      | none => .error (.invalid path)
      | some preferences => .ok preferences

end Preferences

end TableLexer
