import TableLexer.Automaton.Machine
import TableLexer.Source
import TableLexer.Token.Basic
/-!
Segments: a machine cuts a text into stretches, one after another.  Unlike a lexer it reads every
character that it looks at: a character without a transition belongs to the segment like any other.
A segment ends with the first character after which it has to.
-/

namespace TableLexer

namespace Machine

/-- The state after a character is read; without a transition it stays the same. -/
def settle (m : Machine) (state : Nat) (c : Char) : Nat := (m.transition? state c).getD state

/-- Whether a segment ends with a character: an accepting state has no transition on it, or the
state after it is dead. -/
def endsSegment (m : Machine) (state : Nat) (c : Char) : Bool :=
  ((m.transition? state c).isNone && m.isAccepting state) || m.isDead (m.settle state c)

end Machine

/-- A stretch of text, last character first, with the category of the state in which it ended, the
place after it and the characters still to read. -/
structure Segment where
  lexeme : List Char
  category : Option String
  stop : Position
  rest : List Char
deriving DecidableEq, Repr

namespace Segment

/-- Reads a segment to its end, when `lexeme` was read already. -/
def read (m : Machine) (state : Nat) (lexeme : List Char) (place : Position) :
    List Char → Segment
  | [] => ⟨lexeme, m.accepted? state, place, []⟩
  | c :: rest =>
    if m.endsSegment state c then
      ⟨c :: lexeme, m.accepted? (m.settle state c), place.advance c, rest⟩
    else read m (m.settle state c) (c :: lexeme) (place.advance c) rest

def toToken (s : Segment) (start : Position) : Located Token :=
  ⟨⟨String.ofList s.lexeme.reverse, s.category⟩, ⟨start, s.stop⟩⟩

theorem length_rest_read_le (m : Machine) (state : Nat) (lexeme : List Char) (place : Position)
    (text : List Char) : (read m state lexeme place text).rest.length ≤ text.length := by
  induction text generalizing state lexeme place with
  | nil => simp [read]
  | cons c rest ih =>
    unfold read
    split
    · simp
    · exact Nat.le_succ_of_le (ih ..)

/-- A segment of a text that has not ended has a character. -/
theorem length_rest_read_cons_lt (m : Machine) (state : Nat) (lexeme : List Char)
    (place : Position) (c : Char) (rest : List Char) :
    (read m state lexeme place (c :: rest)).rest.length < (c :: rest).length := by
  unfold read
  split
  · simp
  · exact Nat.lt_succ_of_le (length_rest_read_le ..)

end Segment

/-- The segments of a text as tokens, after those of `done`, the last of which comes first.  Each
segment begins in the entry state. -/
def Machine.segmentsFrom (m : Machine) (entry : Nat) (done : List (Located Token))
    (place : Position) : List Char → List (Located Token)
  | [] => done.reverse
  | c :: rest =>
    let s := Segment.read m entry [] place (c :: rest)
    m.segmentsFrom entry (s.toToken place :: done) s.stop s.rest
termination_by text => text.length
decreasing_by exact Segment.length_rest_read_cons_lt ..

def Machine.segments (m : Machine) (entry : Nat) (text : String) : List (Located Token) :=
  m.segmentsFrom entry [] .start text.toList

end TableLexer
