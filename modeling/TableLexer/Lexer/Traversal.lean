import TableLexer.Automaton.Machine
import TableLexer.Source
/-!
Traversals: a machine follows a text from its entry state for as long as there are transitions.  A
walk that comes back to the entry state starts its lexeme anew with the next character, so what it
has read so far belongs to no lexeme.  Every traversal reads a part of its text, and one that has a
lexeme in the end has read at least one character.
-/

namespace TableLexer

/-- Where a traversal has come: its state, its lexeme with the last character first, the places
where the lexeme begins and where reading goes on, and the characters still to read. -/
structure Traversal where
  state : Nat
  lexeme : List Char
  start : Position
  stop : Position
  rest : List Char
deriving DecidableEq, Repr

namespace Traversal

/-- Follows the characters still to read as far as there are transitions. -/
def follow (m : Machine) (entry state : Nat) (lexeme : List Char) (start stop : Position) :
    List Char → Traversal
  | [] => ⟨state, lexeme, start, stop, []⟩
  | c :: rest =>
    let lexeme := if state = entry then [] else lexeme
    let start := if state = entry then stop else start
    match m.transition? state c with
    | none => ⟨state, lexeme, start, stop, c :: rest⟩
    | some target => follow m entry target (c :: lexeme) start (stop.advance c) rest

def ofText (m : Machine) (entry : Nat) (start : Position) (text : List Char) : Traversal :=
  follow m entry entry [] start start text

/-- The category of the lexeme, if there is a lexeme and the state accepts. -/
def accepted? (m : Machine) (t : Traversal) : Option String :=
  if t.lexeme.isEmpty then none else m.accepted? t.state

def lexemeText (t : Traversal) : String := String.ofList t.lexeme.reverse

theorem length_rest_follow_le (m : Machine) (entry state : Nat) (lexeme : List Char)
    (start stop : Position) (text : List Char) :
    (follow m entry state lexeme start stop text).rest.length ≤ text.length := by
  induction text generalizing state lexeme start stop with
  | nil => simp [follow]
  | cons c rest ih =>
    unfold follow
    cases m.transition? state c with
    | none => simp
    | some target => exact Nat.le_succ_of_le (ih ..)

/-- A lexeme that was not there before was read from the text. -/
theorem length_rest_follow_lt (m : Machine) (entry state : Nat) (start stop : Position)
    (text : List Char) (read : (follow m entry state [] start stop text).lexeme ≠ []) :
    (follow m entry state [] start stop text).rest.length < text.length := by
  cases text with
  | nil => simp [follow] at read
  | cons c rest =>
    unfold follow at read ⊢
    cases h : m.transition? state c with
    | none => simp [h] at read
    | some target => exact Nat.lt_succ_of_le (length_rest_follow_le ..)

/-- A state that was not there before was reached by reading. -/
theorem length_rest_follow_lt_of_state_ne (m : Machine) (entry state : Nat) (lexeme : List Char)
    (start stop : Position) (text : List Char)
    (moved : (follow m entry state lexeme start stop text).state ≠ state) :
    (follow m entry state lexeme start stop text).rest.length < text.length := by
  cases text with
  | nil => simp [follow] at moved
  | cons c rest =>
    unfold follow at moved ⊢
    cases h : m.transition? state c with
    | none => simp [h] at moved
    | some target => exact Nat.lt_succ_of_le (length_rest_follow_le ..)

theorem length_rest_ofText_le (m : Machine) (entry : Nat) (start : Position) (text : List Char) :
    (ofText m entry start text).rest.length ≤ text.length :=
  length_rest_follow_le ..

theorem length_rest_ofText_lt_of_accepted? (m : Machine) (entry : Nat) (start : Position)
    (text : List Char) {category : String}
    (accepts : (ofText m entry start text).accepted? m = some category) :
    (ofText m entry start text).rest.length < text.length := by
  apply length_rest_follow_lt
  intro empty
  simp [accepted?, ofText, empty] at accepts

theorem length_rest_ofText_lt_of_state_ne (m : Machine) (entry : Nat) (start : Position)
    (text : List Char) (moved : (ofText m entry start text).state ≠ entry) :
    (ofText m entry start text).rest.length < text.length :=
  length_rest_follow_lt_of_state_ne _ _ _ _ _ _ _ moved

end Traversal

end TableLexer
