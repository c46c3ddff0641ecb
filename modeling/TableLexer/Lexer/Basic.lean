import TableLexer.Keywords
import TableLexer.Lexer.Metrics
import TableLexer.Lexer.Traversal
import TableLexer.Token.Stream
/-!
Lexers: a machine, a keyword table and preferences, and the reading of one token after another.  A
step that gives a token, good or bad, reads at least one character, which is why all reading ends.
-/

namespace TableLexer

/-- Why a lexer cannot be built, or gives up. -/
inductive LexerError where
  | emptyMachine
  | tooManyTokens (count : Nat)
  | lexemeTooLong (length : Nat)
deriving DecidableEq, Repr

namespace LexerError

def message : LexerError → String
  | emptyMachine => "Lexical state machine has no states"
  | tooManyTokens count =>
    "Too many tokens: " ++ toString count ++ " (max " ++ toString limits.tokens ++ ")"
  | lexemeTooLong length =>
    "Lexeme too long: " ++ toString length ++ " characters (max " ++
      toString limits.lexemeLength ++ ")"

def code : LexerError → Code
  | emptyMachine => .emptyMachine
  | tooManyTokens _ => .tooManyTokens
  | lexemeTooLong _ => .lexemeTooLong

end LexerError

/-- What a lexer works with.  Traversals begin in the state `entry` of the machine. -/
structure Lexer where
  machine : Machine
  entry : Nat
  keywords : Keywords
  preferences : Preferences.Lexical

/-- How far a lexer has come with a program: the characters still to read, the place before them,
the place where the last lexeme began, and what was counted. -/
structure Lexer.State where
  rest : List Char
  position : Position
  tokenStart : Position
  metrics : Metrics

namespace Lexer

def ofTables (machine : Machine) (keywords : Keywords) (preferences : Preferences.Lexical) :
    Except LexerError Lexer :=
  match machine.entry with
  | some entry => .ok { machine, entry, keywords, preferences }
  | none => .error .emptyMachine

namespace State

def ofText (text : String) : State := ⟨text.toList, .start, .start, .zero⟩

def empty : State := ofText ""

def hasNext (s : State) : Bool := !s.rest.isEmpty

/-- The span from where the last lexeme began to where reading goes on. -/
def tokenSpan (s : State) : Span := ⟨s.tokenStart, s.position⟩

/-- Passes over one character. -/
def skip (s : State) : Option Char × State :=
  match s.rest with
  | [] => (none, s)
  | c :: rest =>
    (some c, { s with rest, tokenStart := s.position, position := s.position.advance c })

def after (s : State) (t : Traversal) : State :=
  { s with rest := t.rest, position := t.stop, tokenStart := t.start }

end State

def traverse (l : Lexer) (s : State) : Traversal :=
  .ofText l.machine l.entry s.position s.rest

/-- The token of a lexeme in an accepted category, with the metrics after it.  A category that is
left out is neither renamed nor counted. -/
def accept (l : Lexer) (metrics : Metrics) (lexeme category : String) : Token × Metrics :=
  if l.preferences.skips category then (⟨lexeme, some category⟩, metrics)
  else
    let name := l.keywords.resolve category lexeme l.preferences.identifierCategory
    (⟨lexeme, some name⟩,
      metrics.addToken l.preferences name (name != category) lexeme.length)

/-- One traversal with its outcome, categories that are left out included. -/
def scan (l : Lexer) (s : State) : Outcome × State :=
  let t := l.traverse s
  let reached := s.after t
  match t.accepted? l.machine with
  | some category =>
    let (token, metrics) := l.accept s.metrics t.lexemeText category
    (.token token, { reached with metrics })
  | none =>
    if t.state = l.entry then (.none, reached)
    else
      (.bad t.lexemeText, { reached with metrics := s.metrics.addBad t.lexeme.length })

def discards (l : Lexer) (t : Token) : Bool :=
  match t.category with
  | some category => l.preferences.skips category
  | none => false

theorem rest_scan (l : Lexer) (s : State) : (l.scan s).2.rest = (l.traverse s).rest := by
  cases accepts : (l.traverse s).accepted? l.machine with
  | some category => simp [scan, accepts, State.after]
  | none =>
    by_cases home : (l.traverse s).state = l.entry <;> simp [scan, accepts, home, State.after]

theorem length_rest_scan_le (l : Lexer) (s : State) :
    (l.scan s).2.rest.length ≤ s.rest.length := by
  rw [rest_scan]
  exact Traversal.length_rest_ofText_le ..

/-- A scan without a token stays in place or passes over round trips; every other one reads a
lexeme. -/
theorem length_rest_scan_lt (l : Lexer) (s : State) (h : (l.scan s).1 ≠ .none) :
    (l.scan s).2.rest.length < s.rest.length := by
  rw [rest_scan]
  cases accepts : (l.traverse s).accepted? l.machine with
  | some category => exact Traversal.length_rest_ofText_lt_of_accepted? _ _ _ _ accepts
  | none =>
    apply Traversal.length_rest_ofText_lt_of_state_ne
    intro home
    apply h
    simp only [scan, accepts]
    exact congrArg Prod.fst (if_pos home)

/-- The next outcome whose token is not left out. -/
def next (l : Lexer) (s : State) : Outcome × State :=
  match _ : l.scan s with
  | (.token t, reached) =>
    if l.discards t then l.next { reached with metrics := reached.metrics.addSkipped }
    else (.token t, reached)
  | (.bad lexeme, reached) => (.bad lexeme, reached)
  | (.none, reached) => (.none, reached)
termination_by s.rest.length
decreasing_by
  rename_i scanned _
  have read := l.length_rest_scan_lt s
  rw [scanned] at read
  exact read Outcome.noConfusion

theorem length_rest_next_le (l : Lexer) (s : State) :
    (l.next s).2.rest.length ≤ s.rest.length := by
  fun_induction next l s with
  | case1 s t reached scanned skipped ih =>
    have stayed := l.length_rest_scan_le s
    rw [scanned] at stayed
    exact Nat.le_trans ih stayed
  | case2 s t reached scanned | case3 s lexeme reached scanned | case4 s reached scanned =>
    have stayed := l.length_rest_scan_le s
    rwa [scanned] at stayed

theorem length_rest_next_lt (l : Lexer) (s : State) (h : (l.next s).1 ≠ .none) :
    (l.next s).2.rest.length < s.rest.length := by
  fun_induction next l s with
  | case1 s t reached scanned skipped ih =>
    have stayed := l.length_rest_scan_le s
    rw [scanned] at stayed
    exact Nat.lt_of_lt_of_le (ih h) stayed
  | case2 s t reached scanned | case3 s lexeme reached scanned =>
    have read := l.length_rest_scan_lt s
    rw [scanned] at read
    exact read Outcome.noConfusion
  | case4 => exact absurd rfl h

/-- What a program consists of for its reader: tokens, bad tokens, and single characters that begin
no token. -/
inductive Item where
  | token (t : Token)
  | bad (lexeme : String)
  | unrecognized (c : Char)
deriving DecidableEq, Repr

namespace Item

def toToken : Item → Token
  | token t => t
  | bad lexeme => .bad lexeme
  | unrecognized c => .bad (String.singleton c)

end Item

/-- The next item; none at the end of the program.  Where no token begins, one character is passed
over. -/
def item (l : Lexer) (s : State) : Option Item × State :=
  match l.next s with
  | (.token t, reached) => (some (.token t), reached)
  | (.bad lexeme, reached) => (some (.bad lexeme), reached)
  | (.none, reached) =>
    match reached.skip with
    | (some c, after) => (some (.unrecognized c), after)
    | (none, after) => (none, after)

theorem length_rest_skip_lt (s : State) (h : s.skip.1 ≠ none) :
    s.skip.2.rest.length < s.rest.length := by
  cases hr : s.rest with
  | nil => simp [State.skip, hr] at h
  | cons c rest => simp [State.skip, hr]

theorem length_rest_item_lt (l : Lexer) (s : State) (h : (l.item s).1 ≠ none) :
    (l.item s).2.rest.length < s.rest.length := by
  have read := l.length_rest_next_lt s
  have stayed := l.length_rest_next_le s
  unfold item at h ⊢
  split
  · rename_i e
    simpa [e] using read
  · rename_i e
    simpa [e] using read
  · rename_i reached e
    have passed := length_rest_skip_lt reached
    simp only [e] at h stayed
    split
    · rename_i after hs
      simp only [hs] at passed
      exact Nat.lt_of_lt_of_le (passed (by simp)) stayed
    · rename_i hs
      simp [hs] at h

end Lexer

end TableLexer
