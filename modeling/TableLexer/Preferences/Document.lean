import TableLexer.Json
import TableLexer.Preferences
/-!
Preferences as a JSON document, with the names that a document of preferences uses.
-/

namespace TableLexer.Preferences

def Tables.toJson (t : Tables) : Json :=
  .object [("table_dir", .string t.directory.text), ("lexical_table", .string t.lexical),
    ("keyword_table", .string t.keywords), ("preprocessor_table", .string t.preprocessor)]

def Files.toJson (p : Files) : Json :=
  .object [("enable_performance_logging", .boolean p.logPerformance),
    ("reject_empty_programs", .boolean p.rejectEmpty)]

def Lexical.toJson (p : Lexical) : Json :=
  .object [("identifier_category", .string p.identifierCategory),
    ("skip_categories", .array (p.skipCategories.map Json.string)),
    ("collect_category_counts", .boolean p.countCategories),
    ("log_bad_tokens", .boolean p.logBadTokens)]

def Preprocessing.toJson (p : Preprocessing) : Json :=
  .object [("passthrough_category", .string p.passthroughCategory),
    ("warning_category", .string p.warningCategory)]

def Logging.toJson (p : Logging) : Json :=
  .object [("use_structured_logging", .boolean p.structured),
    ("enable_console_logging", .boolean p.console), ("min_log_level", .string p.threshold.name),
    ("enable_cargo_style_output", .boolean p.fileReports),
    ("include_file_context", .boolean p.fileContext)]

def toJson (p : Preferences) : Json :=
  .object [("tables", p.tables.toJson), ("file_processor", p.files.toJson),
    ("lexical", p.lexical.toJson), ("preprocessor", p.preprocessing.toJson),
    ("logging", p.logging.toJson)]

end TableLexer.Preferences
