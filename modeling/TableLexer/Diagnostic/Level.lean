/-!
How much an event matters.
-/

namespace TableLexer

/-- The levels of events, the most pressing first. -/
inductive Level where
  | error
  | warning
  | info
  | debug
deriving DecidableEq, Repr

namespace Level

/-- The place of a level, from the most pressing on. -/
def rank : Level → Nat
  | error => 0
  | warning => 1
  | info => 2
  | debug => 3

/-- Whether a level is let through where `threshold` is the least pressing one that is. -/
def passes (threshold level : Level) : Bool :=
  level.rank ≤ threshold.rank

/-- The word that an event's level is written with. -/
def word : Level → String
  | error => "ERROR"
  | warning => "WARN"
  | info => "INFO"
  | debug => "DEBUG"

/-- The name of a level in preferences. -/
def name : Level → String
  | error => "Error"
  | warning => "Warning"
  | info => "Info"
  | debug => "Debug"

/-- Every level, the most pressing first. -/
def all : List Level := [error, warning, info, debug]

/-- A level from its word or its rank.  Capital letters count as small ones; every word is written
in ASCII, so no other letters need folding. -/
def ofWord? (text : String) : Option Level :=
  match text.toLower with
  | "error" | "0" => some error
  | "warning" | "warn" | "1" => some warning
  | "info" | "2" => some info
  | "debug" | "3" => some debug
  | _ => none

end Level

end TableLexer
