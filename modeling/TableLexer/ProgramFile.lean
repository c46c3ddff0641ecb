import TableLexer.Diagnostic.Notice
import TableLexer.FileSize
import TableLexer.Preferences
/-!
Program files.  A program is read whole, within limits on its bytes and lines, and only as UTF-8.
-/

namespace TableLexer

/-- Why a program cannot be read. -/
inductive FileError where
  | notFound (path : Path)
  | tooLarge (size greatest : Nat)
  | empty
  | permissionDenied (path : Path)
  | invalidEncoding (path : Path)
  | inputOutput (why : String)
  | invalidPath (path : Path)
  | tooManyLines (lines greatest : Nat)
deriving DecidableEq, Repr

namespace FileError

def message : FileError → String
  | notFound path => "File not found: " ++ path.text
  | tooLarge size greatest =>
    "File too large: " ++ toString size ++ " bytes (max: " ++ toString greatest ++ ")"
  | empty => "Program is empty"
  | permissionDenied path => "Permission denied: " ++ path.text
  | invalidEncoding path => "Invalid UTF-8 encoding in file: " ++ path.text
  | inputOutput why => "I/O error reading file: " ++ why
  | invalidPath path => "Invalid file path: " ++ path.text
  | tooManyLines lines greatest =>
    "File exceeds maximum line count: " ++ toString lines ++ " (max: " ++ toString greatest ++ ")"

def code : FileError → Code
  | notFound _ => .fileNotFound
  | tooLarge _ _ | tooManyLines _ _ => .fileTooLarge
  | empty => .fileEmpty
  | permissionDenied _ => .permissionDenied
  | invalidEncoding _ => .invalidEncoding
  | inputOutput _ => .inputOutput
  | invalidPath _ => .invalidPath

end FileError

/-- A program that was read, with the absolute path of its file, the size of the file in bytes, and
the number of its lines. -/
structure ProgramFile where
  source : String
  path : Path
  size : Nat
  lines : Nat
deriving DecidableEq, Repr

namespace ProgramFile

def length (f : ProgramFile) : Nat := f.source.length

def isBlank (f : ProgramFile) : Bool := Text.allBlank f.source

def isLargeSize (size : Nat) : Bool := limits.largeFile < size

def isLarge (f : ProgramFile) : Bool := isLargeSize f.size

/-- Reads a program from what the file system answers about its path. -/
def read (p : Preferences.Files) (path : Path) (answer : FileAnswer) :
    Except FileError ProgramFile :=
  if path.text = "" then .error (.invalidPath path)
  else
    match answer with
    | .unreachable _ => .error (.notFound path)
    | .directory => .error (.invalidPath path)
    | .file location content =>
      if limits.fileSize < content.size then .error (.tooLarge content.size limits.fileSize)
      else
        match String.fromUTF8? content with
        | none => .error (.invalidEncoding location)
        | some source =>
          let file : ProgramFile :=
            { source, path := location, size := content.size, lines := Text.lineCount source }
          if limits.lineCount < file.lines then .error (.tooManyLines file.lines limits.lineCount)
          else if p.rejectEmpty && file.isBlank then .error .empty
          else .ok file

def doneNotice (p : Preferences.Files) (f : ProgramFile) : Notice :=
  if p.logPerformance then
    .timedSuccess .fileRead "File processed successfully with performance metrics" [
      ("file", f.path.text),
      ("size_human", FileSize.text f.size),
      ("lines", toString f.lines),
      ("chars", toString f.length),
      ("is_large_file", Text.ofBool f.isLarge)]
  else
    .success .fileRead "File processed successfully"
      [("file", f.path.text), ("lines", toString f.lines)]

/-- Opens a program file: reads it and says how that went. -/
def load (p : Preferences.Files) (path : Path) (answer : FileAnswer) :
    Logged (Except FileError ProgramFile) :=
  let start := Notice.debug "Starting file processing" [("file", path.text)]
  match read p path answer with
  | .ok file => ⟨.ok file, [start, doneNotice p file]⟩
  | .error e => ⟨.error e, [start, .error e.code e.message [("file", path.text)] none]⟩

end ProgramFile

end TableLexer
