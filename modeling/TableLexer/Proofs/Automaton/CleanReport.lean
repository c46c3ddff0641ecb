import TableLexer.Proofs.Automaton.Balance
/-!
Clean reports.  If a report is clean, no row repeats another one, every column has a symbol, every cell
under a symbol names a state, and no cell is shadowed; so every cell that has a column is a transition.
A cell beyond the columns of the header is passed over without a trace, and nothing else is.
-/

namespace TableLexer.Table

section Shadowing

variable {stateId? : String → Option Nat} {f : Filled}

theorem shadowed_le_fillCell (stateId? : String → Option Nat) (f : Filled)
    (cell : String × Option Nat) : f.shadowed ≤ (fillCell stateId? f cell.2 cell.1).shadowed := by
  obtain ⟨text, symbolClass⟩ := cell
  rw [fillCell.eq_def]
  repeat' split
  all_goals simp

theorem shadowed_le_foldl (stateId? : String → Option Nat) (f : Filled)
    (cells : List (String × Option Nat)) :
    f.shadowed ≤ (cells.foldl (fun f cell => fillCell stateId? f cell.2 cell.1) f).shadowed := by
  induction cells generalizing f with
  | nil => exact Nat.le_refl _
  | cons cell cells ih =>
      exact (shadowed_le_fillCell stateId? f cell).trans (ih (fillCell stateId? f cell.2 cell.1))

/-- A cell that leads somewhere and is not shadowed is where its state leads. -/
theorem destination?_fillCell_of_shadowed_eq {cell : String × Option Nat} {symbolClass target : Nat}
    (haim : aim? stateId? symbolClass cell = some target)
    (hclass : symbolClass < f.state.destinations.size)
    (hshadowed : (fillCell stateId? f cell.2 cell.1).shadowed = f.shadowed) :
    (fillCell stateId? f cell.2 cell.1).state.destination? symbolClass = some target := by
  have hfree : f.state.destination? symbolClass = none := by
    obtain ⟨text, own⟩ := cell
    rw [aim?, Option.ite_none_right_eq_some] at haim
    obtain ⟨⟨rfl, hempty⟩, haim⟩ := haim
    rw [State.destination?, Option.join_eq_none_iff]
    right
    simp only [fillCell, if_neg hempty, haim] at hshadowed
    cases hlead : f.state.lead? symbolClass target with
    | none => simp [hlead] at hshadowed
    | some state =>
        rw [State.lead?, Option.ite_none_right_eq_some] at hlead
        exact hlead.1
  rw [destination?_fillCell stateId? f cell hclass, hfree, Option.none_or, haim]

/-- If no cell is shadowed, every cell that leads somewhere is where the state leads. -/
theorem destination?_foldl_of_shadowed_eq {cells : List (String × Option Nat)}
    {cell : String × Option Nat} {symbolClass target : Nat}
    (haim : aim? stateId? symbolClass cell = some target) (hmem : cell ∈ cells)
    (hclass : symbolClass < f.state.destinations.size)
    (hshadowed : (cells.foldl (fun f cell => fillCell stateId? f cell.2 cell.1) f).shadowed =
      f.shadowed) :
    (cells.foldl (fun f cell => fillCell stateId? f cell.2 cell.1) f).state.destination? symbolClass =
      some target := by
  induction cells generalizing f with
  | nil => exact absurd hmem List.not_mem_nil
  | cons head cells ih =>
      obtain ⟨-, -, hsize⟩ := fillCell_frame stateId? f head.2 head.1
      -- The counter never goes down, so it has not moved on the way either.
      have hle := shadowed_le_fillCell stateId? f head
      have hge := shadowed_le_foldl stateId? (fillCell stateId? f head.2 head.1) cells
      rw [List.foldl_cons] at hshadowed ⊢
      rw [hshadowed] at hge
      have hhead := Nat.le_antisymm hge hle
      rcases List.mem_cons.mp hmem with rfl | hmem
      · rw [destination?_foldl_fillCell stateId? _ cells (hsize ▸ hclass),
          destination?_fillCell_of_shadowed_eq haim hclass hhead, Option.some_or]
      · exact ih hmem (hsize ▸ hclass) (hshadowed.trans hhead.symm)

/-- If no cell of a row is shadowed, every column that leads anywhere is where the state leads. -/
theorem destination?_fillRow_of_leads {header cells : List String} {states : List (List String)}
    (hstateId : ∀ name k, stateId? name = some k ↔ states[k]?.map label = some name) {c : Char}
    {symbolClass j k : Nat} (hclass : (columnsOf header).alphabet.idxOf? c = some symbolClass)
    (hleads : Leads header states cells c j k)
    (hshadowed : (fillRow stateId? (columnsOf header) cells).shadowed = 0) :
    (fillRow stateId? (columnsOf header) cells).state.destination? symbolClass = some k := by
  obtain ⟨i, rfl⟩ := Nat.exists_eq_add_of_le hleads.place
  obtain ⟨hlt, -⟩ := List.idxOf?_eq_some_iff.mp hclass
  have hcell := (bind_aim?_eq_some_iff hstateId hleads.single hclass cells i k).mpr hleads
  obtain ⟨cell, hcell, haim⟩ := Option.bind_eq_some_iff.mp hcell
  exact destination?_foldl_of_shadowed_eq haim (List.mem_of_getElem? hcell)
    (by simpa [bareState, State.bare] using hlt) hshadowed

end Shadowing

section Rows

/-- What a clean report says about the rows of a table. -/
structure Clean (rows : List (List String)) : Prop where
  kept : keptRows rows = rows
  symbols : ∀ head ∈ (headerRow rows).drop labelColumns, symbol? head ≠ none
  named : ∀ cells ∈ stateRows rows, ∀ column ∈ columnCells (headerRow rows) cells,
    ¬ lost ((stateRows rows).map label) column
  unshadowed : ∀ f ∈ filledRows rows, f.shadowed = 0
  marked : headerMarker ∈ rows.map label

theorem length_repeated_eq_zero_iff (text : String) :
    (rowsOf text).repeated.length = 0 ↔ keptRows (textRows text) = textRows text := by
  have hbalance := length_keptRows_add_repeated text
  constructor
  · intro hnone
    exact (keptRows_sublist _).eq_of_length (by omega)
  · intro hkept
    rw [hkept] at hbalance
    omega

theorem length_dangling_eq_zero_iff (rows : List (List String)) :
    (∀ f ∈ filledRows rows, f.dangling.length = 0) ↔
      ∀ cells ∈ stateRows rows, ∀ column ∈ columnCells (headerRow rows) cells,
        ¬ lost ((stateRows rows).map label) column := by
  rw [filledRows, List.forall_mem_map]
  refine forall₂_congr fun cells _ => ?_
  rw [length_dangling_fillRow, countP_dangles (nodup_label_stateRows rows), List.countP_eq_zero]

/-- A report is clean if and only if its table is. -/
theorem isClean_parse_iff (text : String) :
    (parse text).value.report.isClean ↔ Clean (textRows text) := by
  have hcounters : (parse text).value.report.isClean ↔
      (rowsOf text).repeated.length = 0 ∧
      (∀ head ∈ (headerRow (textRows text)).drop labelColumns, symbol? head ≠ none) ∧
      (∀ f ∈ filledRows (textRows text), f.dangling.length = 0) ∧
      (∀ f ∈ filledRows (textRows text), f.shadowed = 0) ∧
      headerMarker ∈ (textRows text).map label := by
    rw [report_parse, Report.isClean]
    simp only [Bool.and_eq_true, decide_eq_true_iff, Bool.not_eq_true', decide_eq_false_iff_not,
      not_not, List.countP_eq_zero, List.sum_eq_zero_iff_forall_eq_nat, List.forall_mem_map,
      and_assoc, ne_eq]
  rw [hcounters, length_repeated_eq_zero_iff, length_dangling_eq_zero_iff]
  constructor
  · rintro ⟨hkept, hsymbols, hnamed, hunshadowed, hmarked⟩
    exact ⟨hkept, hsymbols, hnamed, hunshadowed, hmarked⟩
  · rintro ⟨hkept, hsymbols, hnamed, hunshadowed, hmarked⟩
    exact ⟨hkept, hsymbols, hnamed, hunshadowed, hmarked⟩

/-- If no cell of a row is shadowed, every column that leads anywhere is a transition. -/
theorem transition?_of_leads {text : String} {cells : List String} {c : Char} {i j k : Nat}
    (hcells : (stateRows (textRows text))[i]? = some cells)
    (hleads : Leads (headerRow (textRows text)) (stateRows (textRows text)) cells c j k)
    (hunshadowed : ∀ f ∈ filledRows (textRows text), f.shadowed = 0) :
    (parse text).value.machine.transition? i c = some k := by
  obtain ⟨symbolClass, hclass⟩ := hleads.exists_class
  have hstateId := getElem?_indexOf_label_iff (nodup_label_stateRows (textRows text))
  have hrow := hunshadowed _ (List.mem_map_of_mem (List.mem_of_getElem? hcells))
  rw [machine_parse, Machine.transition?_ofStates_iff]
  refine ⟨hleads.single, symbolClass, _, hclass, by rw [List.getElem?_map, hcells]; rfl, ?_⟩
  exact destination?_fillRow_of_leads hstateId hclass hleads hrow

/-- In a clean table, a column leads to a state wherever its cell is not empty. -/
theorem Clean.leads {rows : List (List String)} (hclean : Clean rows) {cells : List String}
    (hcells : cells ∈ stateRows rows) {j : Nat} {head cell : String} (hplace : labelColumns ≤ j)
    (hhead : (headerRow rows)[j]? = some head) (hcell : cells[j]? = some cell) (hne : cell ≠ "") :
    ∃ c k, symbol? head = some c ∧ (stateRows rows)[k]?.map label = some cell ∧
      Leads (headerRow rows) (stateRows rows) cells c j k := by
  have hcolumn : (head, cell) ∈ columnCells (headerRow rows) cells :=
    mem_columnCells_iff.mpr ⟨j, hplace, hhead, hcell⟩
  obtain ⟨c, hsymbol⟩ : ∃ c, symbol? head = some c :=
    Option.ne_none_iff_exists'.mp (hclean.symbols head (List.of_mem_zip hcolumn).1)
  have hmem : cell ∈ (stateRows rows).map label := by
    simpa [lost, hsymbol, hne] using hclean.named cells hcells _ hcolumn
  obtain ⟨k, hk⟩ := List.mem_iff_getElem?.mp hmem
  rw [List.getElem?_map] at hk
  obtain ⟨hdecoded, hsingle⟩ := (symbol?_eq_some_iff head c).mp hsymbol
  exact ⟨c, k, hsymbol, hk, hplace, ⟨head, hhead, hdecoded⟩, hsingle, ⟨cell, hcell, hne, hk⟩⟩

end Rows

section Installing

/-- Every cell of a row that is not empty, from the third on, is a transition of the machine. -/
def Installs (header : List String) (m : Machine) (cells : List String) : Prop :=
  ∀ j cell, labelColumns ≤ j → cells[j]? = some cell → cell ≠ "" →
    ∃ head c i k, header[j]? = some head ∧ symbol? head = some c ∧
      m.stateId? (label cells) = some i ∧ m.stateId? cell = some k ∧ m.transition? i c = some k

/-- If the report about a text is clean, all its rows of states have become transitions. -/
def CleanInstalls (text : String) : Prop :=
  (parse text).value.report.isClean → ∀ cells ∈ textRows text, label cells ≠ headerMarker →
    Installs (headerRow (textRows text)) (parse text).value.machine cells

/-- Nothing is dropped behind a clean report if and only if no row goes on beyond the header. -/
theorem cleanInstalls_iff (text : String) : CleanInstalls text ↔
    ((parse text).value.report.isClean → ∀ cells ∈ textRows text, label cells ≠ headerMarker →
      ∀ j cell, labelColumns ≤ j → (headerRow (textRows text)).length ≤ j → cells[j]? = some cell →
        cell = "") := by
  constructor
  · intro hinstalls hclean cells hcells hlabel j cell hplace hbeyond hcell
    by_cases hempty : cell = ""
    · exact hempty
    · obtain ⟨head, -, -, -, hhead, -⟩ :=
        hinstalls hclean cells hcells hlabel j cell hplace hcell hempty
      rw [List.getElem?_eq_none hbeyond] at hhead
      exact nomatch hhead
  · intro hwithin hreport cells hcells hlabel j cell hplace hcell hne
    have hclean := (isClean_parse_iff text).mp hreport
    have hstate : cells ∈ stateRows (textRows text) :=
      List.mem_filter.mpr ⟨by rwa [hclean.kept], decide_eq_true hlabel⟩
    have hj : j < (headerRow (textRows text)).length := by
      apply Nat.lt_of_not_le
      exact fun hbeyond => hne (hwithin hreport cells hcells hlabel j cell hplace hbeyond hcell)
    have hhead := List.getElem?_eq_getElem hj
    obtain ⟨c, k, hsymbol, hk, hleads⟩ := hclean.leads hstate hplace hhead hcell hne
    obtain ⟨i, hi⟩ := List.mem_iff_getElem?.mp hstate
    have hstateId := (parse_describes text).stateId?_iff
    refine ⟨_, c, i, k, hhead, hsymbol, (hstateId _ i).mpr ?_, (hstateId cell k).mpr hk, ?_⟩
    · rw [hi, Option.map_some]
    · exact transition?_of_leads hi hleads hclean.unshadowed

/-- A row that goes on beyond the header loses a cell behind a clean report. -/
theorem not_cleanInstalls_overlong :
    ¬ CleanInstalls "Valid Chars,Accepted,a\n0,,1,1\n1,Letter,\n" := by
  have hrows : textRows "Valid Chars,Accepted,a\n0,,1,1\n1,Letter,\n" =
      [["Valid Chars", "Accepted", "a"], ["0", "", "1", "1"], ["1", "Letter", ""]] := by decide
  have hclean : Clean (textRows "Valid Chars,Accepted,a\n0,,1,1\n1,Letter,\n") := by
    rw [hrows]
    refine ⟨by decide, by decide, by decide, ?_, by decide⟩
    rw [filledRows, List.forall_mem_map]
    exact fun cells _ => shadowed_fillRow _ (by decide) cells
  intro hinstalls
  have hrow := hinstalls ((isClean_parse_iff _).mpr hclean) ["0", "", "1", "1"]
    (by rw [hrows]; decide) (by decide)
  obtain ⟨head, -, -, -, hhead, -⟩ := hrow 3 "1" (by decide) rfl (by decide)
  rw [hrows] at hhead
  exact absurd (Option.isSome_of_eq_some hhead) (by decide)

end Installing

end TableLexer.Table
