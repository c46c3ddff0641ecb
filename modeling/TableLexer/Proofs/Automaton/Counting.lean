import Mathlib.Data.List.Nodup
import TableLexer.Proofs.Automaton.Filling
import TableLexer.Proofs.Automaton.TableRows
/-!
Counting what is left out of a table.  A row is kept or repeats another one, a header cell has a symbol
or is absent, and a cell of a row that names no state dangles.  Nothing is shadowed where no two columns
have the same symbol.
-/

namespace TableLexer.Table

theorem length_keepFirst (seen : Std.HashSet String) (kept : List (List String))
    (repeated : List String) (rest : List (List String)) :
    (keepFirst seen kept repeated rest).1.length + (keepFirst seen kept repeated rest).2.length =
      kept.length + repeated.length + rest.length := by
  induction rest generalizing seen kept repeated with
  | nil => simp [keepFirst]
  | cons cells rest ih =>
      rw [keepFirst]
      split
      · rw [ih, List.length_cons, List.length_cons]
        omega
      · rw [ih, List.length_cons, List.length_cons]
        omega

/-- Every row is kept, or it repeats one. -/
theorem length_keptRows_add_repeated (text : String) :
    (keptRows (textRows text)).length + (rowsOf text).repeated.length =
      (textRows text).length := by
  have hlengths := length_keepFirst ∅ [] [] (textRows text)
  have hrepeated : (keepFirst ∅ [] [] (textRows text)).2 = (rowsOf text).repeated := rfl
  rw [(Keeping.nil.keepFirst [] (textRows text)).1, hrepeated] at hlengths
  simpa using hlengths

theorem absent_addColumn (columns : Columns) (place : Nat) (cell : String) :
    (addColumn columns place cell).absent =
      (if symbol? cell = none then [(place, cell)] else []) ++ columns.absent := by
  cases hsymbol : symbol? cell with
  | none => simp [addColumn, hsymbol]
  | some c => cases hclass : columns.alphabet.idxOf? c <;> simp [addColumn, hsymbol, hclass]

theorem absent_foldl (cells : List (String × Nat)) (columns : Columns) :
    (cells.foldl (fun columns (cell, place) => addColumn columns place cell) columns).absent =
      ((cells.filter fun cell => symbol? cell.1 = none).map Prod.swap).reverse ++
        columns.absent := by
  induction cells generalizing columns with
  | nil => rfl
  | cons cell cells ih =>
      obtain ⟨cell, place⟩ := cell
      rw [List.foldl_cons, ih, absent_addColumn, List.filter_cons]
      by_cases hsymbol : symbol? cell = none
      · simp [hsymbol]
      · simp [hsymbol]

/-- The absent columns are the header cells without a symbol, each with its place. -/
theorem absent_columnsOf (header : List String) : (columnsOf header).absent =
    ((header.zipIdx.drop labelColumns).filter fun cell => symbol? cell.1 = none).map Prod.swap := by
  rw [columnsOf, absent_foldl, List.append_nil, List.reverse_reverse]

theorem length_absent_columnsOf (header : List String) :
    (columnsOf header).absent.length =
      (header.drop labelColumns).countP fun cell => symbol? cell = none := by
  have hcells : header.drop labelColumns = (header.zipIdx.drop labelColumns).map Prod.fst := by
    rw [List.map_drop, List.zipIdx_map_fst]
  rw [absent_columnsOf, List.length_map, ← List.countP_eq_length_filter, hcells, List.countP_map]
  rfl

theorem mem_absent_columnsOf_iff (header : List String) (j : Nat) (cell : String) :
    (j, cell) ∈ (columnsOf header).absent ↔
      labelColumns ≤ j ∧ header[j]? = some cell ∧ symbol? cell = none := by
  have hplace : (cell, j) ∈ header.zipIdx.drop labelColumns ↔
      labelColumns ≤ j ∧ header[j]? = some cell := by
    rw [List.mem_iff_getElem?]
    constructor
    · rintro ⟨i, hi⟩
      rw [List.getElem?_drop, List.getElem?_zipIdx, Option.map_eq_some_iff] at hi
      obtain ⟨other, hother, heq⟩ := hi
      obtain ⟨rfl, rfl⟩ := Prod.mk.inj heq
      rw [Nat.zero_add]
      exact ⟨Nat.le_add_right labelColumns i, hother⟩
    · rintro ⟨hle, hcell⟩
      obtain ⟨i, rfl⟩ := Nat.exists_eq_add_of_le hle
      exact ⟨i, by simp [List.getElem?_drop, List.getElem?_zipIdx, hcell]⟩
  rw [absent_columnsOf, ← and_assoc, ← hplace, List.mem_map]
  constructor
  · rintro ⟨other, hmem, heq⟩
    obtain rfl : other = (cell, j) := Prod.swap_inj.mp heq
    simpa using hmem
  · rintro ⟨hmem, hsymbol⟩
    exact ⟨(cell, j), by simp [hmem, hsymbol], rfl⟩

/-- An absent column has no class. -/
theorem getElem?_classes_of_absent {header : List String} {j : Nat} {cell : String}
    (habsent : (j, cell) ∈ (columnsOf header).absent) :
    (columnsOf header).classes[j - labelColumns]? = some none := by
  obtain ⟨hplace, hcell, hnone⟩ := (mem_absent_columnsOf_iff header j cell).mp habsent
  have hcolumn : (header.drop labelColumns)[j - labelColumns]? = some cell := by
    rw [List.getElem?_drop, Nat.add_sub_cancel' hplace, hcell]
  rw [(columnsOf_gathers header).1, List.getElem?_map, hcolumn, Option.map_some, hnone,
    Option.bind_none]

/-- Whether a cell dangles: its column has a class, and it names no state. -/
def dangles (stateId? : String → Option Nat) (cell : String × Option Nat) : Bool :=
  cell.2.isSome && cell.1 ≠ "" && (stateId? cell.1).isNone

theorem length_dangling_fillCell (stateId? : String → Option Nat) (f : Filled)
    (cell : String × Option Nat) :
    (fillCell stateId? f cell.2 cell.1).dangling.length =
      f.dangling.length + if dangles stateId? cell then 1 else 0 := by
  obtain ⟨text, symbolClass⟩ := cell
  cases symbolClass with
  | none => simp [fillCell, dangles]
  | some own =>
      by_cases hempty : text = ""
      · simp [fillCell, dangles, hempty]
      · cases htarget : stateId? text with
        | none => simp [fillCell, dangles, hempty, htarget]
        | some target => cases hlead : f.state.lead? own target <;>
            simp [fillCell, dangles, hempty, htarget, hlead]

theorem length_dangling_foldl (stateId? : String → Option Nat) (f : Filled)
    (cells : List (String × Option Nat)) :
    (cells.foldl (fun f cell => fillCell stateId? f cell.2 cell.1) f).dangling.length =
      f.dangling.length + cells.countP (dangles stateId?) := by
  induction cells generalizing f with
  | nil => rfl
  | cons cell cells ih =>
      rw [List.foldl_cons, ih, length_dangling_fillCell, List.countP_cons]
      omega

/-- What dangles in a row are its cells that do. -/
theorem length_dangling_fillRow (stateId? : String → Option Nat) (columns : Columns)
    (cells : List String) : (fillRow stateId? columns cells).dangling.length =
      ((cells.drop labelColumns).zip columns.classes).countP (dangles stateId?) := by
  have hcount := length_dangling_foldl stateId? ⟨bareState columns.alphabet.length cells, 0, []⟩
    ((cells.drop labelColumns).zip columns.classes)
  rw [List.length_nil, Nat.zero_add] at hcount
  rw [← hcount, fillRow, List.length_reverse]

/-- A state that leads nowhere on the class of a cell takes the cell in, and still leads nowhere on
the other classes. -/
theorem fillCell_of_free (stateId? : String → Option Nat) {f : Filled}
    {cell : String × Option Nat}
    (hfree : ∀ own, cell.2 = some own → f.state.destinations[own]? = some none) :
    (fillCell stateId? f cell.2 cell.1).shadowed = f.shadowed ∧
      ∀ other, cell.2 ≠ some other → f.state.destinations[other]? = some none →
        (fillCell stateId? f cell.2 cell.1).state.destinations[other]? = some none := by
  obtain ⟨text, symbolClass⟩ := cell
  cases symbolClass with
  | none => exact ⟨rfl, fun _ _ hother => hother⟩
  | some own =>
      by_cases hempty : text = ""
      · simp [fillCell, hempty]
      · cases htarget : stateId? text with
        | none => simp [fillCell, hempty, htarget]
        | some target =>
            have hlead : f.state.lead? own target = some { f.state with
                destinations := f.state.destinations.setIfInBounds own (some target)
                arrows := f.state.arrows + 1 } := if_pos (hfree own rfl)
            simp only [fillCell, if_neg hempty, htarget, hlead, true_and]
            intro other hne hother
            rwa [Array.getElem?_setIfInBounds_ne (fun heq => hne (congrArg some heq))]

/-- Nothing is shadowed by cells of different classes on which the state leads nowhere. -/
theorem shadowed_foldl (stateId? : String → Option Nat) (f : Filled)
    {cells : List (String × Option Nat)} (hnodup : (cells.filterMap Prod.snd).Nodup)
    (hfree : ∀ own ∈ cells.filterMap Prod.snd, f.state.destinations[own]? = some none) :
    (cells.foldl (fun f cell => fillCell stateId? f cell.2 cell.1) f).shadowed = f.shadowed := by
  induction cells generalizing f with
  | nil => rfl
  | cons cell cells ih =>
      have hhead : ∀ own, cell.2 = some own → f.state.destinations[own]? = some none :=
        fun own hown => hfree own (List.mem_filterMap.mpr ⟨cell, List.mem_cons_self, hown⟩)
      obtain ⟨hshadowed, hothers⟩ := fillCell_of_free stateId? hhead
      have hrest : (cells.filterMap Prod.snd).Nodup :=
        hnodup.sublist ((List.sublist_cons_self cell cells).filterMap Prod.snd)
      rw [List.foldl_cons, ih _ hrest, hshadowed]
      intro other hother
      refine hothers other ?_ (hfree other ?_)
      · intro hown
        rw [List.filterMap_cons_some hown, List.nodup_cons] at hnodup
        exact hnodup.1 hother
      · obtain ⟨later, hlater, hclass⟩ := List.mem_filterMap.mp hother
        exact List.mem_filterMap.mpr ⟨later, List.mem_cons_of_mem cell hlater, hclass⟩

/-- No two columns have the same class if no two header cells have the same symbol. -/
theorem nodup_classes_columnsOf {header : List String}
    (hsymbols : ((header.drop labelColumns).filterMap symbol?).Nodup) :
    ((columnsOf header).classes.filterMap id).Nodup := by
  have hclasses : (columnsOf header).classes.filterMap id =
      ((header.drop labelColumns).filterMap symbol?).filterMap
        (columnsOf header).alphabet.idxOf? := by
    rw [(columnsOf_gathers header).1, List.filterMap_map, List.filterMap_filterMap]
    rfl
  rw [hclasses]
  apply List.Nodup.filterMap _ hsymbols
  intro c d symbolClass hc hd
  obtain ⟨_, hentry, -⟩ := List.idxOf?_eq_some_iff.mp hc
  obtain ⟨_, hentry', -⟩ := List.idxOf?_eq_some_iff.mp hd
  rw [← hentry, ← hentry']

theorem sublist_map_snd_zip {α β : Type} (xs : List α) (ys : List β) :
    ((xs.zip ys).map Prod.snd).Sublist ys := by
  induction xs generalizing ys with
  | nil => simp
  | cons x xs ih =>
      cases ys with
      | nil => simp
      | cons y ys => exact (ih ys).cons_cons y

/-- Nothing is shadowed where no two columns have the same symbol. -/
theorem shadowed_fillRow (stateId? : String → Option Nat) {header : List String}
    (hsymbols : ((header.drop labelColumns).filterMap symbol?).Nodup) (cells : List String) :
    (fillRow stateId? (columnsOf header) cells).shadowed = 0 := by
  have hsublist : (((cells.drop labelColumns).zip (columnsOf header).classes).filterMap
      Prod.snd).Sublist ((columnsOf header).classes.filterMap id) := by
    have hzip := (sublist_map_snd_zip (cells.drop labelColumns) (columnsOf header).classes).filterMap id
    rwa [List.filterMap_map] at hzip
  apply shadowed_foldl stateId? ⟨bareState (columnsOf header).alphabet.length cells, 0, []⟩
  · exact (nodup_classes_columnsOf hsymbols).sublist hsublist
  · intro own hown
    have hmem := hsublist.subset hown
    rw [(columnsOf_gathers header).1, List.filterMap_map, List.mem_filterMap] at hmem
    obtain ⟨cell, -, hclass⟩ := hmem
    obtain ⟨c, -, hclass⟩ := Option.bind_eq_some_iff.mp hclass
    obtain ⟨hlt, -⟩ := List.idxOf?_eq_some_iff.mp hclass
    simp [bareState, State.bare, hlt]

end TableLexer.Table
