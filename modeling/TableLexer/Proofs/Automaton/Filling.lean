import TableLexer.Automaton.Table
/-!
Filling a state from its row.  Cells are taken into a state from the left and none replaces an
earlier one, so on a class the state leads where the first cell leads that leads anywhere on it; a
cell that names no state stands in no other cell's way.
-/

namespace TableLexer

namespace State

theorem lead?_frame (s : State) (symbolClass target : Nat) :
    ((s.lead? symbolClass target).getD s).name = s.name ∧
      ((s.lead? symbolClass target).getD s).accepted = s.accepted ∧
      ((s.lead? symbolClass target).getD s).destinations.size = s.destinations.size := by
  rw [lead?]
  split
  · simp
  · exact ⟨rfl, rfl, rfl⟩

/-- A destination is set only where there was none. -/
theorem destination?_lead? (s : State) (symbolClass target : Nat) {other : Nat}
    (hother : other < s.destinations.size) :
    ((s.lead? symbolClass target).getD s).destination? other =
      (s.destination? other).or (if symbolClass = other then some target else none) := by
  rw [lead?]
  by_cases hsame : symbolClass = other
  · subst hsame
    rw [if_pos rfl]
    cases hentry : s.destinations[symbolClass] with
    | none =>
        rw [if_pos (by rw [Array.getElem?_eq_getElem hother, hentry])]
        simp [destination?, hother, hentry]
    | some earlier =>
        rw [if_neg (by rw [Array.getElem?_eq_getElem hother, hentry]; simp)]
        simp [destination?, hother, hentry]
  · rw [if_neg hsame, Option.or_none]
    split
    · simp [destination?, Array.getElem?_setIfInBounds_ne hsame]
    · rfl

end State

namespace Table

/-- Where a cell in a column leads on a class. -/
def aim? (stateId? : String → Option Nat) (symbolClass : Nat) (cell : String × Option Nat) :
    Option Nat :=
  if cell.2 = some symbolClass ∧ cell.1 ≠ "" then stateId? cell.1 else none

/-- A cell either leads nowhere and changes nothing, or leads somewhere on one class and is taken
into the state. -/
theorem fillCell_cases (stateId? : String → Option Nat) (f : Filled) (symbolClass : Option Nat)
    (cell : String) :
    ((∀ other, aim? stateId? other (cell, symbolClass) = none) ∧
      (fillCell stateId? f symbolClass cell).state = f.state) ∨
    (∃ own target, (∀ other, aim? stateId? other (cell, symbolClass) =
        if own = other then some target else none) ∧
      (fillCell stateId? f symbolClass cell).state = (f.state.lead? own target).getD f.state) := by
  cases symbolClass with
  | none => exact .inl ⟨by simp [aim?], rfl⟩
  | some own =>
      by_cases hempty : cell = ""
      · exact .inl ⟨by simp [aim?, hempty], by simp [fillCell, hempty]⟩
      · cases htarget : stateId? cell with
        | none => exact .inl ⟨by simp [aim?, htarget], by simp [fillCell, hempty, htarget]⟩
        | some target =>
            refine .inr ⟨own, target, by simp [aim?, hempty, htarget], ?_⟩
            simp only [fillCell, if_neg hempty, htarget]
            cases f.state.lead? own target <;> rfl

theorem fillCell_frame (stateId? : String → Option Nat) (f : Filled) (symbolClass : Option Nat)
    (cell : String) :
    (fillCell stateId? f symbolClass cell).state.name = f.state.name ∧
      (fillCell stateId? f symbolClass cell).state.accepted = f.state.accepted ∧
      (fillCell stateId? f symbolClass cell).state.destinations.size =
        f.state.destinations.size := by
  rcases fillCell_cases stateId? f symbolClass cell with ⟨-, hstate⟩ | ⟨own, target, -, hstate⟩
  · rw [hstate]
    exact ⟨rfl, rfl, rfl⟩
  · rw [hstate]
    exact f.state.lead?_frame own target

theorem destination?_fillCell (stateId? : String → Option Nat) (f : Filled)
    (cell : String × Option Nat) {symbolClass : Nat}
    (hclass : symbolClass < f.state.destinations.size) :
    (fillCell stateId? f cell.2 cell.1).state.destination? symbolClass =
      (f.state.destination? symbolClass).or (aim? stateId? symbolClass cell) := by
  rcases fillCell_cases stateId? f cell.2 cell.1 with ⟨haim, hstate⟩ | ⟨own, target, haim, hstate⟩
  · rw [hstate, haim, Option.or_none]
  · rw [hstate, haim, f.state.destination?_lead? own target hclass]

/-- A row of cells changes nothing of a state but its destinations. -/
theorem foldl_fillCell_frame (stateId? : String → Option Nat) (f : Filled)
    (cells : List (String × Option Nat)) :
    (cells.foldl (fun f cell => fillCell stateId? f cell.2 cell.1) f).state.name = f.state.name ∧
      (cells.foldl (fun f cell => fillCell stateId? f cell.2 cell.1) f).state.accepted =
        f.state.accepted := by
  induction cells generalizing f with
  | nil => exact ⟨rfl, rfl⟩
  | cons cell cells ih =>
      obtain ⟨hname, haccepted⟩ := ih (fillCell stateId? f cell.2 cell.1)
      obtain ⟨hname', haccepted', -⟩ := fillCell_frame stateId? f cell.2 cell.1
      exact ⟨hname.trans hname', haccepted.trans haccepted'⟩

/-- On a class, a row of cells leads where the first cell leads that leads anywhere on it. -/
theorem destination?_foldl_fillCell (stateId? : String → Option Nat) (f : Filled)
    (cells : List (String × Option Nat)) {symbolClass : Nat}
    (hclass : symbolClass < f.state.destinations.size) :
    (cells.foldl (fun f cell => fillCell stateId? f cell.2 cell.1) f).state.destination?
        symbolClass =
      (f.state.destination? symbolClass).or (cells.findSome? (aim? stateId? symbolClass)) := by
  induction cells generalizing f with
  | nil => simp
  | cons cell cells ih =>
      obtain ⟨-, -, hsize⟩ := fillCell_frame stateId? f cell.2 cell.1
      rw [List.foldl_cons, ih _ (hsize ▸ hclass), destination?_fillCell stateId? f cell hclass,
        Option.or_assoc, List.findSome?_cons]
      cases aim? stateId? symbolClass cell <;> simp

theorem state_fillRow (stateId? : String → Option Nat) (columns : Columns) (cells : List String) :
    (fillRow stateId? columns cells).state.name = label cells ∧
      (fillRow stateId? columns cells).state.accepted = (cells[1]?).filter (· ≠ "") :=
  foldl_fillCell_frame stateId? ⟨bareState columns.alphabet.length cells, 0, []⟩
    ((cells.drop labelColumns).zip columns.classes)

theorem destination?_fillRow (stateId? : String → Option Nat) (columns : Columns)
    (cells : List String) {symbolClass : Nat} (hclass : symbolClass < columns.alphabet.length) :
    (fillRow stateId? columns cells).state.destination? symbolClass =
      ((cells.drop labelColumns).zip columns.classes).findSome? (aim? stateId? symbolClass) := by
  have hbare : (bareState columns.alphabet.length cells).destination? symbolClass = none := by
    simp [bareState, State.bare, State.destination?, hclass]
  have hsize : symbolClass < (bareState columns.alphabet.length cells).destinations.size := by
    simpa [bareState, State.bare] using hclass
  have hfold := destination?_foldl_fillCell stateId? ⟨bareState columns.alphabet.length cells, 0, []⟩
    ((cells.drop labelColumns).zip columns.classes) hsize
  rw [hbare, Option.none_or] at hfold
  exact hfold

end Table

end TableLexer
