import Std.Data.TreeMap.Basic
/-!
Tallies: how often each category occurred.
-/

namespace TableLexer

/-- Occurrences by category, in the order of the categories. -/
structure Tally where
  occurrences : Std.TreeMap String Nat

namespace Tally

def empty : Tally := ⟨∅⟩

def count (t : Tally) (category : String) : Nat := t.occurrences.getD category 0

def add (t : Tally) (category : String) : Tally :=
  ⟨t.occurrences.insert category (t.count category + 1)⟩

def ofList (categories : List String) : Tally := categories.foldl add empty

/-- Every category that occurred, with its number of occurrences. -/
def toList (t : Tally) : List (String × Nat) := t.occurrences.toList

end Tally

end TableLexer
