import TableLexer.Diagnostic.Event
import TableLexer.Limits
/-!
Sinks for events.  A memory keeps the most recent events up to the limit of the buffer; whatever
stands in front of it lets through the events of its threshold or more pressing ones.
-/

namespace TableLexer

/-- The events that a memory holds, in the order in which they came. -/
structure Memory where
  events : Array Event
deriving Repr

namespace Memory

def empty : Memory := ⟨#[]⟩

/-- Events without the oldest ones, so that there is room for one more within the limit. -/
def makeRoom (events : Array Event) : Array Event :=
  if events.size < limits.bufferedEvents then events
  else events.extract (events.size + 1 - limits.bufferedEvents) events.size

/-- Takes in an event.  A full memory forgets the oldest one. -/
def receive (m : Memory) (e : Event) : Memory :=
  ⟨(makeRoom m.events).push e⟩

def size (m : Memory) : Nat := m.events.size

/-- The events held, oldest first. -/
def toList (m : Memory) : List Event := m.events.toList

def errors (m : Memory) : List Event := m.toList.filter Event.isError

def warnings (m : Memory) : List Event := m.toList.filter Event.isWarning

def ofCategory (m : Memory) (category : String) : List Event :=
  m.toList.filter fun e => e.code.category = category

def hasError (m : Memory) (code : Code) : Bool :=
  m.toList.any fun e => e.isError && e.code = code

def hasSuccess (m : Memory) (code : Code) : Bool :=
  m.toList.any fun e => e.isInfo && e.code = code

end Memory

/-- A service that hands the events of its threshold or more pressing ones to a memory. -/
structure Service where
  threshold : Level
  memory : Memory

def Service.receive (s : Service) (e : Event) : Service :=
  if s.threshold.passes e.level then { s with memory := s.memory.receive e } else s

/-- Several memories behind one threshold; each takes in every event that passes. -/
structure Fanout where
  threshold : Level
  memories : List Memory

/-- Hands an event on to every memory if its level passes. -/
def Fanout.receive (f : Fanout) (e : Event) : Fanout :=
  if f.threshold.passes e.level then
    { f with memories := f.memories.map fun m => m.receive e }
  else f

end TableLexer
