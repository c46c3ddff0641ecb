import Std.Data.HashMap.Basic
import TableLexer.Automaton.TableError
/-!
Finite automata over single-byte characters.  The symbols of a table are numbered as classes, its
states as rows; a state says for every class where it leads, or that it leads nowhere.
-/

namespace TableLexer

/-- A state: its name, the category of what it accepts if it accepts anything, and its destination
for every class.  `arrows` counts the destinations. -/
structure State where
  name : String
  accepted : Option String
  destinations : Array (Option Nat)
  arrows : Nat
deriving DecidableEq, Repr

namespace State

/-- A state that leads nowhere. -/
def bare (name : String) (accepted : Option String) (classes : Nat) : State :=
  ⟨name, accepted, Array.replicate classes none, 0⟩

def isAccepting (s : State) : Bool := s.accepted.isSome

/-- Whether a state leads nowhere. -/
def isDead (s : State) : Bool := s.arrows = 0

/-- Where a state leads on a class. -/
def destination? (s : State) (symbolClass : Nat) : Option Nat :=
  (s.destinations[symbolClass]?).join

/-- A state that also leads somewhere on a class where it led nowhere before; there is none if the
class has its destination already. -/
def lead? (s : State) (symbolClass target : Nat) : Option State :=
  if s.destinations[symbolClass]? = some none then
    some { s with
      destinations := s.destinations.setIfInBounds symbolClass (some target)
      arrows := s.arrows + 1 }
  else none

/-- Every class on which a state leads somewhere, with the destination. -/
def transitions (s : State) : List (Nat × Nat) :=
  s.destinations.toList.zipIdx.filterMap fun (target, symbolClass) =>
    target.map fun t => (symbolClass, t)

end State

/-- An automaton.  `classes` gives the class of every single-byte character, and `index` the number
of every state by its name; `entry` is the state in which every traversal begins. -/
structure Machine where
  alphabet : List Char
  classes : Array (Option Nat)
  states : Array State
  index : Std.HashMap String Nat
  entry : Option Nat

namespace Machine

/-- Number of characters that may be symbols; wider characters lead nowhere from any state. -/
def alphabetSize : Nat := 256

/-- The class of every single-byte character. -/
def classTable (alphabet : List Char) : Array (Option Nat) :=
  (Array.range alphabetSize).map fun n => alphabet.idxOf? (Char.ofNat n)

/-- The number of every name in a list; the last one counts for names that occur again. -/
def indexOf (names : List String) : Std.HashMap String Nat :=
  names.zipIdx.foldl (fun index (name, n) => index.insert name n) ∅

/-- The machine with given states, which begins in the first of them. -/
def ofStates (alphabet : List Char) (states : List State) : Machine where
  alphabet
  classes := classTable alphabet
  states := states.toArray
  index := indexOf (states.map State.name)
  entry := if states.isEmpty then none else some 0

def empty : Machine := ofStates [] []

def size (m : Machine) : Nat := m.states.size

def stateId? (m : Machine) (name : String) : Option Nat := m.index[name]?

def state? (m : Machine) (id : Nat) : Option State := m.states[id]?

def named? (m : Machine) (name : String) : Option State :=
  (m.stateId? name).bind m.state?

/-- The class of a character, if it is a symbol. -/
def classOf? (m : Machine) (c : Char) : Option Nat := (m.classes[c.toNat]?).join

/-- Where a state leads on a character. -/
def transition? (m : Machine) (id : Nat) (c : Char) : Option Nat :=
  match m.classOf? c with
  | none => none
  | some symbolClass =>
    match m.state? id with
    | none => none
    | some s => s.destination? symbolClass

def accepted? (m : Machine) (id : Nat) : Option String :=
  match m.state? id with
  | none => none
  | some s => s.accepted

def isAccepting (m : Machine) (id : Nat) : Bool := (m.accepted? id).isSome

def isDead (m : Machine) (id : Nat) : Bool :=
  match m.state? id with
  | none => true
  | some s => s.isDead

/-- Lets traversals begin in the state with a name. -/
def setEntry (m : Machine) (name : String) : Except TableError Machine :=
  match m.stateId? name with
  | some id => .ok { m with entry := some id }
  | none => .error (.unknownState name)

def entryName? (m : Machine) : Option String :=
  (m.entry.bind m.state?).map State.name

end Machine

end TableLexer
