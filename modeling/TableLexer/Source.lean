/-!
Places in a program text.  Offsets count characters, not bytes; lines and columns count from one, in 32
bits.
-/

namespace TableLexer

instance instCoeUInt32Nat : Coe UInt32 Nat := ⟨UInt32.toNat⟩

/-- In 32 bits a number is known up to multiples of `2 ^ 32`. -/
instance instNatCastUInt32 : NatCast UInt32 := ⟨UInt32.ofNat⟩

/-- A place between two characters of a text.  A text has no more characters than its offsets can count,
but it may have more lines, or more characters in a line, than 32 bits can. -/
structure Position where
  offset : Nat
  line : UInt32
  column : UInt32
deriving DecidableEq, Repr

namespace Position

def start : Position := ⟨0, 1, 1⟩

/-- The place after one more character: a line feed starts a new line.  Arithmetic is not
checked: after the last line or column that 32 bits can count comes number zero. -/
def advance (p : Position) (c : Char) : Position :=
  if c = '\n' then ⟨p.offset + 1, p.line + 1, 1⟩ else ⟨p.offset + 1, p.line, p.column + 1⟩

theorem offset_advance (p : Position) (c : Char) : (p.advance c).offset = p.offset + 1 := by
  unfold advance
  split <;> rfl

/-- Line and column, as people read them. -/
def text (p : Position) : String :=
  s!"{p.line}:{p.column}"

instance : Ord Position where
  compare p q :=
    (compare p.offset q.offset).then ((compare p.line q.line).then (compare p.column q.column))

end Position

/-- A stretch of text, from its first place up to, but not including, its last. -/
structure Span where
  start : Position
  stop : Position
deriving DecidableEq, Repr

namespace Span

/-- The empty span of a value that comes from no text; its line and column are zero. -/
def nowhere : Span := ⟨⟨0, 0, 0⟩, ⟨0, 0, 0⟩⟩

def length (s : Span) : Nat :=
  s.stop.offset - s.start.offset

def isEmpty (s : Span) : Bool :=
  s.start.offset == s.stop.offset

/-- A span within one line names that line once. -/
def text (s : Span) : String :=
  if s.start.line = s.stop.line then s!"{s.start.line}:{s.start.column}-{s.stop.column}"
  else s!"{s.start.text}-{s.stop.text}"

end Span

/-- A value and the stretch of text that it was read from. -/
structure Located (α : Type) where
  value : α
  span : Span
deriving DecidableEq, Repr

def Located.map {α β : Type} (f : α → β) (x : Located α) : Located β :=
  ⟨f x.value, x.span⟩

end TableLexer
