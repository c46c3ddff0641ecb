import TableLexer.Preprocessor.Basic
/-!
Reading with a cursor.  The characters of an open program stay where they are; a cursor counts those that
were read, and a position follows it.  What is still to read stands behind the cursor, and reading there
character by character gives the segments of that text.
-/

namespace TableLexer.Preprocessor

/-- The open program, if one is open, how many of its characters were read, and the place after them. -/
structure Buffer where
  program : Option (List Char)
  cursor : Nat
  position : Position
deriving DecidableEq, Repr

namespace Buffer

def closed : Buffer := ⟨none, 0, .start⟩

/-- A program was opened, and nothing of it was read. -/
def ofText (text : String) : Buffer := ⟨some text.toList, 0, .start⟩

def isOpen (b : Buffer) : Bool := b.program.isSome

/-- Whether the cursor stands before the end of an open program. -/
def hasNext (b : Buffer) : Bool :=
  match b.program with
  | some program => b.cursor < program.length
  | none => false

/-- Closes the program; the truth value tells whether one was open. -/
def close (b : Buffer) : Bool × Buffer := (b.isOpen, closed)

def rest (b : Buffer) : List Char := (b.program.getD []).drop b.cursor

def advance (b : Buffer) (c : Char) : Buffer :=
  { b with cursor := b.cursor + 1, position := b.position.advance c }

def peek? (b : Buffer) : Option Char := b.program.bind (·[b.cursor]?)

theorem hasNext_iff (b : Buffer) : b.hasNext ↔ b.rest ≠ [] := by
  obtain ⟨program, cursor, position⟩ := b
  cases program with
  | none => simp [hasNext, rest]
  | some program => simp [hasNext, rest]

theorem rest_eq_nil_of_not_hasNext {b : Buffer} (hend : ¬ b.hasNext) : b.rest = [] :=
  Decidable.not_not.mp (mt b.hasNext_iff.mpr hend)

theorem peek?_eq_head? (b : Buffer) : b.peek? = b.rest.head? := by
  obtain ⟨program, cursor, position⟩ := b
  cases program with
  | none => simp [peek?, rest]
  | some program => simp [peek?, rest]

@[simp] theorem rest_advance (b : Buffer) (c : Char) : (b.advance c).rest = b.rest.tail := by
  simp [advance, rest]

theorem length_rest_advance_lt {b : Buffer} {c : Char} (hpeek : b.peek? = some c) :
    (b.advance c).rest.length < b.rest.length := by
  rw [peek?_eq_head?] at hpeek
  obtain ⟨tail, hrest⟩ := List.head?_eq_some_iff.mp hpeek
  rw [rest_advance, hrest, List.tail_cons]
  exact Nat.lt_succ_self tail.length

/-- Reads a segment to its end, when `lexeme` was read already: its characters, last character first,
its category, and where the cursor stands then. -/
def readSegment (m : Machine) (state : Nat) (lexeme : List Char) (b : Buffer) :
    List Char × Option String × Buffer :=
  match _ : b.peek? with
  | none => (lexeme, m.accepted? state, b)
  | some c =>
      if m.endsSegment state c then (c :: lexeme, m.accepted? (m.settle state c), b.advance c)
      else readSegment m (m.settle state c) (c :: lexeme) (b.advance c)
termination_by b.rest.length
decreasing_by exact length_rest_advance_lt ‹_›

theorem readSegment_of_peek?_eq_none (m : Machine) (state : Nat) (lexeme : List Char) {b : Buffer}
    (hpeek : b.peek? = none) : readSegment m state lexeme b = (lexeme, m.accepted? state, b) := by
  rw [readSegment.eq_def]
  split
  next => rfl
  next c hc => exact nomatch hpeek.symm.trans hc

theorem readSegment_of_peek?_eq_some (m : Machine) (state : Nat) (lexeme : List Char) {b : Buffer}
    {c : Char} (hpeek : b.peek? = some c) : readSegment m state lexeme b =
      if m.endsSegment state c then (c :: lexeme, m.accepted? (m.settle state c), b.advance c)
      else readSegment m (m.settle state c) (c :: lexeme) (b.advance c) := by
  rw [readSegment.eq_def]
  split
  next hnone => exact nomatch hpeek.symm.trans hnone
  next d hd => rw [Option.some.inj (hpeek.symm.trans hd)]

/-- `b'` is what became of `b` when a segment was read from it. -/
structure Reaches (b b' : Buffer) (s : Segment) : Prop where
  program_eq : b'.program = b.program
  position_eq : b'.position = s.stop
  rest_eq : b'.rest = s.rest

/-- Reading with the cursor is reading what stands behind it. -/
theorem readSegment_eq (m : Machine) (state : Nat) (lexeme : List Char) (b : Buffer) :
    ∃ b', b.Reaches b' (Segment.read m state lexeme b.position b.rest) ∧
      readSegment m state lexeme b =
        ((Segment.read m state lexeme b.position b.rest).lexeme,
          (Segment.read m state lexeme b.position b.rest).category, b') := by
  generalize htext : b.rest = text
  induction text generalizing state lexeme b with
  | nil =>
      have hpeek : b.peek? = none := by rw [peek?_eq_head?, htext, List.head?_nil]
      exact ⟨b, ⟨rfl, rfl, htext⟩, readSegment_of_peek?_eq_none m state lexeme hpeek⟩
  | cons c text ih =>
      have hpeek : b.peek? = some c := by rw [peek?_eq_head?, htext, List.head?_cons]
      have hrest : (b.advance c).rest = text := by rw [rest_advance, htext, List.tail_cons]
      rw [readSegment_of_peek?_eq_some m state lexeme hpeek, Segment.read]
      by_cases hends : m.endsSegment state c
      · rw [if_pos hends, if_pos hends]
        exact ⟨b.advance c, ⟨rfl, rfl, hrest⟩, rfl⟩
      · rw [if_neg hends, if_neg hends]
        obtain ⟨b', hreaches, heq⟩ := ih (m.settle state c) (c :: lexeme) (b.advance c) hrest
        exact ⟨b', ⟨hreaches.program_eq, hreaches.position_eq, hreaches.rest_eq⟩, heq⟩

/-- The next segment as a token, and where the cursor stands after it. -/
def nextToken (m : Machine) (entry : Nat) (b : Buffer) : Located Token × Buffer :=
  let (lexeme, category, b') := readSegment m entry [] b
  (⟨⟨String.ofList lexeme.reverse, category⟩, ⟨b.position, b'.position⟩⟩, b')

theorem nextToken_eq (m : Machine) (entry : Nat) (b : Buffer) :
    ∃ b', b.Reaches b' (Segment.read m entry [] b.position b.rest) ∧
      b.nextToken m entry =
        ((Segment.read m entry [] b.position b.rest).toToken b.position, b') := by
  obtain ⟨b', hreaches, heq⟩ := b.readSegment_eq m entry []
  refine ⟨b', hreaches, ?_⟩
  simp only [nextToken, heq, Segment.toToken, hreaches.position_eq]

theorem length_rest_nextToken_lt (m : Machine) (entry : Nat) {b : Buffer} (hnext : b.hasNext) :
    (b.nextToken m entry).2.rest.length < b.rest.length := by
  obtain ⟨b', hreaches, heq⟩ := b.nextToken_eq m entry
  obtain ⟨c, text, htext⟩ := List.exists_cons_of_ne_nil (b.hasNext_iff.mp hnext)
  rw [heq, hreaches.rest_eq, htext]
  exact Segment.length_rest_read_cons_lt m entry [] b.position c text

/-- Reads segments as long as there are characters, after those of `done`, the last of which comes
first. -/
def drain (m : Machine) (entry : Nat) (done : List (Located Token)) (b : Buffer) :
    List (Located Token) × Buffer :=
  if b.hasNext then drain m entry ((b.nextToken m entry).1 :: done) (b.nextToken m entry).2
  else (done.reverse, b)
termination_by b.rest.length
decreasing_by exact length_rest_nextToken_lt m entry ‹_›

/-- The segments read with the cursor are those of what stands behind it, and none is left. -/
theorem drain_eq (m : Machine) (entry : Nat) (done : List (Located Token)) (b : Buffer) :
    (b.drain m entry done).1 = m.segmentsFrom entry done b.position b.rest ∧
      (b.drain m entry done).2.program = b.program ∧ (b.drain m entry done).2.rest = [] := by
  induction done, b using drain.induct m entry with
  | case1 done b hnext ih =>
      obtain ⟨b', hreaches, heq⟩ := b.nextToken_eq m entry
      obtain ⟨c, text, htext⟩ := List.exists_cons_of_ne_nil (b.hasNext_iff.mp hnext)
      rw [drain, if_pos hnext]
      rw [heq, hreaches.position_eq, hreaches.program_eq, hreaches.rest_eq] at ih
      rw [heq, htext, Machine.segmentsFrom, ← htext]
      exact ih
  | case2 done b hend =>
      rw [drain, if_neg hend, rest_eq_nil_of_not_hasNext hend, Machine.segmentsFrom]
      exact ⟨rfl, rfl, rfl⟩

end Buffer

/-- Opens a program file.  If that fails, the buffer stays as it is. -/
def openInto (p : Preprocessor) (b : Buffer) (path : Path) (answer : FileAnswer) :
    Except PreprocessorError Unit × Buffer :=
  match (ProgramFile.load p.files path answer).value with
  | .ok file => (.ok (), .ofText file.source)
  | .error e => (.error (.file e), b)

/-- Reads the open program to its end and answers to its segments. -/
def processBuffer (p : Preprocessor) (b : Buffer) : Except PreprocessorError Response × Buffer :=
  if b.isOpen then
    let (segments, b') := b.drain p.machine p.entry []
    (.ok (respond p.preferences segments), b')
  else (.error .notOpen, b)

theorem processBuffer_of_open (p : Preprocessor) {b : Buffer} (hopen : b.isOpen) :
    p.processBuffer b = (.ok (respond p.preferences (b.drain p.machine p.entry []).1),
      (b.drain p.machine p.entry []).2) := if_pos hopen

theorem processBuffer_of_not_open (p : Preprocessor) {b : Buffer} (hopen : ¬ b.isOpen) :
    p.processBuffer b = (.error .notOpen, b) := if_neg hopen

end TableLexer.Preprocessor
