import TableLexer.Diagnostic.Event
/-!
Notices: what a computation has to say while it runs.  A computation gives its notices back in the
order in which they arose; whoever runs it decides what becomes of them.
-/

namespace TableLexer

/-- Something that a computation has to say.  A timed notice is completed with the time that the
computation took, which only its runner knows. -/
structure Notice where
  level : Level
  code : Code
  message : String
  span : Option Span := none
  details : List (String × String) := []
  timed : Bool := false
deriving DecidableEq, Repr

namespace Notice

def error (code : Code) (message : String) (details : List (String × String))
    (span : Option Span) : Notice :=
  { level := .error, code, message, span, details }

def warning (code : Code) (message : String) (details : List (String × String))
    (span : Option Span) : Notice :=
  { level := .warning, code, message, span, details }

def success (code : Code) (message : String) (details : List (String × String)) : Notice :=
  { level := .info, code, message, details }

/-- A notice that something was done, with the time that it took. -/
def timedSuccess (code : Code) (message : String) (details : List (String × String)) : Notice :=
  { level := .info, code, message, details, timed := true }

/-- An information without a code of its own. -/
def info (message : String) (details : List (String × String)) : Notice :=
  { level := .info, code := .information, message, details }

def debug (message : String) (details : List (String × String)) : Notice :=
  { level := .debug, code := .debugging, message, details }

end Notice

/-- A value with the notices that arose on the way to it, in order. -/
structure Logged (α : Type) where
  value : α
  notices : List Notice

namespace Logged

/-- Changes the value and keeps the notices. -/
def map {α β : Type} (f : α → β) (x : Logged α) : Logged β :=
  ⟨f x.value, x.notices⟩

/-- Goes on with a value; the later notices follow the earlier ones. -/
def andThen {α β : Type} (x : Logged α) (f : α → Logged β) : Logged β :=
  let y := f x.value
  ⟨y.value, x.notices ++ y.notices⟩

def noting {α : Type} (x : Logged α) (notices : List Notice) : Logged α :=
  ⟨x.value, x.notices ++ notices⟩

def quiet {α : Type} (value : α) : Logged α := ⟨value, []⟩

end Logged

end TableLexer
