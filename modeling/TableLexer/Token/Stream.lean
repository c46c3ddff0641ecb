import TableLexer.Token.Basic
import TableLexer.Token.Tally
/-!
Token streams: the tokens of a program in their order, with a place for a reader.
-/

namespace TableLexer

/-- Tokens in the order of the program, the bad ones included.  `next` is the number of tokens that a
reader has behind it. -/
structure TokenStream where
  tokens : Array (Located Token)
  next : Nat := 0
deriving DecidableEq, Repr

namespace TokenStream

def empty : TokenStream := ⟨#[], 0⟩

def push (s : TokenStream) (t : Located Token) : TokenStream :=
  { s with tokens := s.tokens.push t }

def size (s : TokenStream) : Nat := s.tokens.size

def isEmpty (s : TokenStream) : Bool := s.tokens.isEmpty

def toList (s : TokenStream) : List (Located Token) := s.tokens.toList

theorem toList_push (s : TokenStream) (t : Located Token) :
    (s.push t).toList = s.toList ++ [t] := by
  simp [push, toList]

theorem size_push (s : TokenStream) (t : Located Token) : (s.push t).size = s.size + 1 := by
  simp [push, size]

theorem length_toList (s : TokenStream) : s.toList.length = s.size := by
  simp [toList, size]

/-- The token so many places after the reader's. -/
def peek? (s : TokenStream) (offset : Nat) : Option (Located Token) := s.tokens[s.next + offset]?

def current? (s : TokenStream) : Option (Located Token) := s.peek? 0

/-- Whether the reader has all tokens behind it. -/
def isAtEnd (s : TokenStream) : Bool := s.size ≤ s.next

/-- The token at the reader's place, and the stream with the reader after it. -/
def advance (s : TokenStream) : Option (Located Token) × TokenStream :=
  (s.current?, if s.isAtEnd then s else { s with next := s.next + 1 })

def reset (s : TokenStream) : TokenStream := { s with next := 0 }

def bad (s : TokenStream) : List (Located Token) := s.toList.filter fun t => t.value.isBad

def badCount (s : TokenStream) : Nat := s.bad.length

def goodCount (s : TokenStream) : Nat := s.size - s.badCount

/-- Every token either is bad or has a category. -/
theorem goodCount_add_badCount (s : TokenStream) : s.goodCount + s.badCount = s.size := by
  have bounded : s.badCount ≤ s.size := by
    rw [← length_toList]
    exact List.length_filter_le ..
  exact Nat.sub_add_cancel bounded

def ofCategory (s : TokenStream) (category : String) : List (Located Token) :=
  s.toList.filter fun t => t.value.isOf category

/-- How often each category occurs; bad tokens do not count. -/
def tally (s : TokenStream) : Tally :=
  .ofList (s.toList.filterMap fun t => t.value.category)

end TokenStream

end TableLexer
