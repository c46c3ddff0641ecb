import TableLexer.Proofs.Automaton.TidyTable
/-!
The balance of a table.  A row of a text is the header, a state, or a repetition of an earlier row, and a
cell that is not empty and has a symbol above it becomes a transition, is shadowed, or dangles.  Nothing
is counted twice and nothing is missed, however ragged the rows are.
-/

namespace TableLexer

theorem State.arrows_of_lead? {s t : State} {symbolClass target : Nat}
    (hlead : s.lead? symbolClass target = some t) : t.arrows = s.arrows + 1 := by
  rw [lead?, Option.ite_none_right_eq_some] at hlead
  rw [← Option.some.inj hlead.2]

namespace Table

section Cells

/-- Whether a cell directs its state: it is not empty, and its column has a class. -/
def directs (cell : String × Option Nat) : Bool := cell.2.isSome && cell.1 ≠ ""

/-- How many cells a state has been directed by: each leads somewhere, is shadowed or dangles. -/
def Filled.directions (f : Filled) : Nat := f.state.arrows + f.shadowed + f.dangling.length

/-- A cell that directs its state is counted once. -/
theorem directions_fillCell (stateId? : String → Option Nat) (f : Filled)
    (cell : String × Option Nat) : (fillCell stateId? f cell.2 cell.1).directions =
      f.directions + if directs cell then 1 else 0 := by
  obtain ⟨text, symbolClass⟩ := cell
  cases symbolClass with
  | none => simp [fillCell, directs]
  | some own =>
      by_cases hempty : text = ""
      · simp [fillCell, directs, hempty]
      · rw [if_pos (show directs (text, some own) by simp [directs, hempty])]
        cases htarget : stateId? text with
        | none =>
            simp only [fillCell, if_neg hempty, htarget, Filled.directions, List.length_cons]
            omega
        | some target =>
            cases hlead : f.state.lead? own target with
            | none =>
                simp only [fillCell, if_neg hempty, htarget, hlead, Filled.directions]
                omega
            | some state =>
                have harrows := State.arrows_of_lead? hlead
                simp only [fillCell, if_neg hempty, htarget, hlead, Filled.directions, harrows]
                omega

theorem directions_foldl (stateId? : String → Option Nat) (f : Filled)
    (cells : List (String × Option Nat)) :
    (cells.foldl (fun f cell => fillCell stateId? f cell.2 cell.1) f).directions =
      f.directions + cells.countP directs := by
  induction cells generalizing f with
  | nil => rfl
  | cons cell cells ih =>
      rw [List.foldl_cons, ih, directions_fillCell, List.countP_cons]
      omega

/-- A state is directed by the cells of its row that are not empty and have a symbol above them. -/
theorem directions_fillRow (stateId? : String → Option Nat) (header cells : List String) :
    (fillRow stateId? (columnsOf header) cells).directions =
      (columnCells header cells).countP fun column =>
        (symbol? column.1).isSome && column.2 ≠ "" := by
  have hfold := directions_foldl stateId?
    ⟨bareState (columnsOf header).alphabet.length cells, 0, []⟩
    ((cells.drop labelColumns).zip (columnsOf header).classes)
  have hbare : Filled.directions ⟨bareState (columnsOf header).alphabet.length cells, 0, []⟩ = 0 :=
    rfl
  rw [hbare, Nat.zero_add] at hfold
  have hcount := countP_zip_classes (fun classed cell => classed && cell ≠ "") header cells
  rw [← hcount]
  refine Eq.trans ?_ hfold
  rw [fillRow, Filled.directions, Filled.directions, List.length_reverse]

end Cells

section Rows

/-- The first cells of the rows are those of the kept rows. -/
theorem mem_label_keptRows_iff (rows : List (List String)) (name : String) :
    name ∈ (keptRows rows).map label ↔ name ∈ rows.map label := by
  induction rows using List.reverseRecOn with
  | nil => rfl
  | append_singleton rows cells ih =>
      rw [keptRows_concat, List.map_append, List.mem_append, ih, List.map_append, List.mem_append]
      split
      next hseen =>
        rw [List.map_nil, List.map_singleton, List.mem_singleton]
        constructor
        · exact fun hname => .inl (hname.resolve_right List.not_mem_nil)
        · rintro (hname | rfl)
          · exact .inl hname
          · exact .inl hseen
      next => rfl

/-- A kept row is a state or the header. -/
theorem length_keptRows (rows : List (List String)) : (keptRows rows).length =
    (stateRows rows).length + if headerMarker ∈ rows.map label then 1 else 0 := by
  have hheader : (keptRows rows).countP (fun cells => label cells = headerMarker) =
      if headerMarker ∈ rows.map label then 1 else 0 := by
    have hcount := (nodup_label_keptRows rows).count (a := headerMarker)
    rw [List.count, List.countP_map] at hcount
    simp only [mem_label_keptRows_iff] at hcount
    exact hcount
  rw [← hheader, stateRows, ← List.countP_eq_length_filter, Nat.add_comm,
    List.length_eq_countP_add_countP fun cells => label cells = headerMarker]
  simp

theorem isNone_header_iff (text : String) : (rowsOf text).header.isNone ↔
    headerMarker ∉ (textRows text).map label := by
  rw [header?_rowsOf, Option.isNone_iff_eq_none, List.find?_eq_none, ← mem_label_keptRows_iff]
  simp

end Rows

section Report

/-- What is taken in from the rows of states of a table. -/
def filledRows (rows : List (List String)) : List Filled :=
  (stateRows rows).map (fillRow
    (fun name => (Machine.indexOf ((stateRows rows).map label))[name]?) (columnsOf (headerRow rows)))

/-- The report about a table, by its rows. -/
theorem report_parse (text : String) : (parse text).value.report = {
    rows := (textRows text).length
    states := (stateRows (textRows text)).length
    repeatedRows := (rowsOf text).repeated.length
    absentColumns := ((headerRow (textRows text)).drop labelColumns).countP fun cell =>
      symbol? cell = none
    danglingTransitions := ((filledRows (textRows text)).map fun f => f.dangling.length).sum
    shadowedTransitions := ((filledRows (textRows text)).map Filled.shadowed).sum
    missingHeader := headerMarker ∉ (textRows text).map label } := by
  have hfilled : fillRows (rowsOf text) (columnsOf (headerRow (textRows text))) =
      filledRows (textRows text) := by
    rw [fillRows, states_rowsOf]
    rfl
  have hmissing : (rowsOf text).header.isNone =
      decide (headerMarker ∉ (textRows text).map label) := by
    rw [Bool.eq_iff_iff, isNone_header_iff, decide_eq_true_iff]
  simp only [parse, load, header_rowsOf, states_rowsOf, length_absent_columnsOf, hfilled, hmissing,
    List.sum_eq_foldr]
  rfl

theorem states_machine_parse (text : String) :
    (parse text).value.machine.states.toList = (filledRows (textRows text)).map Filled.state := by
  rw [machine_parse, Machine.ofStates, List.toList_toArray, filledRows, List.map_map]
  rfl

/-- The report about a table accounts for its rows, its header cells, and the cells of its states. -/
structure Balances (text : String) (loaded : Loaded) : Prop where
  rows_eq : loaded.report.rows = ((Text.lines text).filter (· ≠ "")).length
  rows_balance : loaded.report.rows = loaded.report.states + loaded.report.repeatedRows +
    if loaded.report.missingHeader then 0 else 1
  missing_iff : loaded.report.missingHeader ↔ headerMarker ∉ (textRows text).map label
  states_eq : loaded.report.states = loaded.machine.size
  absent_eq : loaded.report.absentColumns =
    ((headerRow (textRows text)).drop labelColumns).countP fun cell => symbol? cell = none
  cells_balance : (loaded.machine.states.toList.map State.arrows).sum +
      loaded.report.shadowedTransitions + loaded.report.danglingTransitions =
    ((stateRows (textRows text)).map fun cells =>
      (columnCells (headerRow (textRows text)) cells).countP fun column =>
        (symbol? column.1).isSome && column.2 ≠ "").sum

/-- The report about every text balances, whatever is wrong with the text. -/
theorem balances_parse (text : String) : Balances text (parse text).value where
  rows_eq := by
    rw [report_parse]
    exact List.length_map _
  rows_balance := by
    have hkept := length_keptRows_add_repeated text
    rw [length_keptRows] at hkept
    simp only [report_parse, decide_eq_true_eq, ite_not]
    omega
  missing_iff := by
    rw [report_parse]
    exact decide_eq_true_iff
  states_eq := by
    have hsize := congrArg List.length (states_machine_parse text)
    rw [Array.length_toList, List.length_map, filledRows, List.length_map] at hsize
    rw [report_parse]
    exact hsize.symm
  absent_eq := by rw [report_parse]
  cells_balance := by
    rw [states_machine_parse, report_parse, List.map_map, ← List.sum_map_add, ← List.sum_map_add,
      filledRows, List.map_map]
    exact congrArg List.sum (List.map_congr_left fun cells _ => directions_fillRow _ _ cells)

end Report

end Table

end TableLexer
