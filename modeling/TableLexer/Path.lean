import TableLexer.Text.Lines
/-!
Paths of files.  A path is kept as it was written; two spellings with the same parts name the
same entry of a record that is kept by path.
-/

namespace TableLexer

/-- One part of a path.  The constructors stand in the order in which parts are sorted. -/
inductive PathPart where
  | root
  | here
  | parent
  | name (text : String)
deriving DecidableEq, Repr

namespace PathPart

/-- The place of a part's kind in the order of parts. -/
def rank : PathPart → Nat
  | root => 0
  | here => 1
  | parent => 2
  | name _ => 3

/-- Parts are ordered by kind, and names by their characters. -/
instance : Ord PathPart where
  compare
    | name a, name b => compare a b
    | p, q => compare p.rank q.rank

end PathPart

/-- A path as it was written. -/
structure Path where
  text : String
deriving DecidableEq, Repr

namespace Path

/-- The part that one piece between slashes stands for; an empty piece and a dot stand for none. -/
def partOf? (piece : String) : Option PathPart :=
  if piece = "" ∨ piece = "." then none
  else if piece = ".." then some .parent
  else some (.name piece)

/-- The parts of a path.  A dot counts only where a relative path begins with it. -/
def parts (p : Path) : List PathPart :=
  let pieces := Text.cut '/' p.text
  let opening :=
    if p.text.startsWith "/" then [.root]
    else if pieces.head? = some "." then [.here]
    else []
  opening ++ pieces.filterMap partOf?

/-- Lexicographic order of lists of parts. -/
def compareParts : List PathPart → List PathPart → Ordering
  | [], [] => .eq
  | [], _ :: _ => .lt
  | _ :: _, [] => .gt
  | p :: ps, q :: qs => (compare p q).then (compareParts ps qs)

instance : Ord Path where
  compare p q := compareParts p.parts q.parts

def isAbsolute (p : Path) : Bool :=
  p.text.startsWith "/"

/-- A path below another one.  An absolute path stands for itself, and the slash between the two
is written once. -/
def join (directory : Path) (entry : String) : Path :=
  if entry.startsWith "/" then ⟨entry⟩
  else if directory.text = "" ∨ directory.text.endsWith "/" then ⟨directory.text ++ entry⟩
  else ⟨directory.text ++ "/" ++ entry⟩

example : (join ⟨"tables"⟩ "").text = "tables/" ∧ (join ⟨"a/"⟩ "b").text = "a/b" := by cbv

end Path

end TableLexer
