import Mathlib.Data.Set.Card
import TableLexer.Proofs.Automaton.TableMachine
/-!
Sound machines.  The parts of a machine are built by different functions: states with their arrays of
destinations and their counters, an index of names, an alphabet and a table of classes.  They agree in
every machine that is read from a table, and pointing it at another entry state keeps them agreed.
-/

namespace TableLexer

namespace State

/-- A state among `count` states over an alphabet of `classes` symbols: it counts its destinations
right, and none of them is out of range. -/
structure Fits (s : State) (classes count : Nat) : Prop where
  size_eq : s.destinations.size = classes
  arrows_eq : s.arrows = s.destinations.countP Option.isSome
  bounded : ∀ target, some target ∈ s.destinations → target < count

theorem Fits.bare (name : String) (accepted : Option String) (classes count : Nat) :
    (State.bare name accepted classes).Fits classes count where
  size_eq := Array.size_replicate
  arrows_eq := by simp [State.bare, Array.countP_replicate]
  bounded := by
    intro target hmem
    have heq := (Array.mem_replicate.mp hmem).2
    contradiction

/-- A destination is counted when it is set, and where there is one already the state stays. -/
theorem Fits.lead? {s : State} {classes count : Nat} (hfits : s.Fits classes count)
    (symbolClass : Nat) {target : Nat} (htarget : target < count) :
    ((s.lead? symbolClass target).getD s).Fits classes count := by
  rw [State.lead?]
  by_cases hfree : s.destinations[symbolClass]? = some none
  · obtain ⟨hlt, hnone⟩ := Array.getElem?_eq_some_iff.mp hfree
    rw [if_pos hfree, Option.getD_some]
    refine ⟨by simpa using hfits.size_eq, ?_, ?_⟩
    · rw [Array.setIfInBounds_def, dif_pos hlt, Array.countP_set, hnone, hfits.arrows_eq]
      rfl
    · intro other hmem
      rcases Array.mem_or_eq_of_mem_setIfInBounds hmem with hold | hnew
      · exact hfits.bounded other hold
      · rwa [Option.some.inj hnew]
  · rw [if_neg hfree]
    exact hfits

end State

namespace Table

theorem fits_fillCell {stateId? : String → Option Nat} {count : Nat}
    (hbound : ∀ name target, stateId? name = some target → target < count) {f : Filled}
    {classes : Nat} (hfits : f.state.Fits classes count) (symbolClass : Option Nat)
    (cell : String) : (fillCell stateId? f symbolClass cell).state.Fits classes count := by
  rcases fillCell_cases stateId? f symbolClass cell with ⟨-, hstate⟩ | ⟨own, target, haim, hstate⟩
  · rwa [hstate]
  · have hown := haim own
    rw [if_pos rfl, aim?, Option.ite_none_right_eq_some] at hown
    rw [hstate]
    exact hfits.lead? own (hbound cell target hown.2)

/-- The state of a row fits among as many states as there are numbers to lead to. -/
theorem fits_fillRow {stateId? : String → Option Nat} {count : Nat}
    (hbound : ∀ name target, stateId? name = some target → target < count) (columns : Columns)
    (cells : List String) :
    (fillRow stateId? columns cells).state.Fits columns.alphabet.length count := by
  suffices hfold : ∀ (pairs : List (String × Option Nat)) (f : Filled),
      f.state.Fits columns.alphabet.length count →
        (pairs.foldl (fun f cell => fillCell stateId? f cell.2 cell.1) f).state.Fits
          columns.alphabet.length count from hfold _ _ (.bare ..)
  intro pairs
  induction pairs with
  | nil => exact fun f hfits => hfits
  | cons pair pairs ih => exact fun f hfits => ih _ (fits_fillCell hbound hfits pair.2 pair.1)

end Table

namespace Machine

/-- The parts of a machine agree. -/
structure Sound (m : Machine) : Prop where
  names_nodup : (m.states.toList.map State.name).Nodup
  stateId?_iff : ∀ name i, m.stateId? name = some i ↔ (m.state? i).map State.name = some name
  alphabet_nodup : m.alphabet.Nodup
  alphabet_single : ∀ c ∈ m.alphabet, c.toNat < 256
  classOf?_iff : ∀ c symbolClass, m.classOf? c = some symbolClass ↔ m.alphabet[symbolClass]? = some c
  target_lt : ∀ i c target, m.transition? i c = some target → target < m.size
  arrows_eq : ∀ i s, m.state? i = some s → s.arrows = {c | (m.transition? i c).isSome}.ncard
  entry_lt : ∀ i, m.entry = some i → i < m.size
  isSome_entry_iff : m.entry.isSome ↔ 0 < m.size

/-- Over a sound alphabet the characters with a transition are as many as the destinations. -/
theorem ncard_transition? {alphabet : List Char} {states : List State} {s : State} {i count : Nat}
    (hnodup : alphabet.Nodup) (hsingle : ∀ c ∈ alphabet, c.toNat < 256)
    (hs : states[i]? = some s) (hfits : s.Fits alphabet.length count) :
    {c | ((ofStates alphabet states).transition? i c).isSome}.ncard =
      s.destinations.countP Option.isSome := by
  have htransition : ∀ c, (ofStates alphabet states).transition? i c =
      (alphabet.idxOf? c).bind s.destination? := by
    intro c
    apply Option.ext
    intro target
    rw [transition?_ofStates_iff, Option.bind_eq_some_iff]
    constructor
    · rintro ⟨-, symbolClass, s', hclass, hs', hdestination⟩
      obtain rfl := Option.some.inj (hs.symm.trans hs')
      exact ⟨symbolClass, hclass, hdestination⟩
    · rintro ⟨symbolClass, hclass, hdestination⟩
      have hmem : c ∈ alphabet := List.isSome_idxOf?.mp (by rw [hclass]; rfl)
      exact ⟨hsingle c hmem, symbolClass, s, hclass, hs, hdestination⟩
  -- Place by place, the symbol of a class has a transition if the class has a destination.
  have hmap : alphabet.map (fun c => ((alphabet.idxOf? c).bind s.destination?).isSome) =
      s.destinations.toList.map Option.isSome := by
    apply List.ext_getElem
    · simp [hfits.size_eq]
    · intro k hk hk'
      rw [List.length_map] at hk hk'
      have hclass : alphabet.idxOf? alphabet[k] = some k :=
        (idxOf?_eq_some_iff_of_nodup hnodup _ k).mpr (List.getElem?_eq_getElem hk)
      rw [List.getElem_map, List.getElem_map, hclass, Option.bind_some, State.destination?,
        ← Array.getElem?_toList, List.getElem?_eq_getElem hk', Option.join_some]
  have hset : {c | ((ofStates alphabet states).transition? i c).isSome} =
      ↑(alphabet.filter fun c => ((alphabet.idxOf? c).bind s.destination?).isSome).toFinset := by
    ext c
    simp only [Set.mem_ofPred_eq, htransition, List.coe_toFinset, List.mem_filter]
    constructor
    · intro hsome
      refine ⟨?_, hsome⟩
      obtain ⟨target, htarget⟩ := Option.isSome_iff_exists.mp hsome
      obtain ⟨symbolClass, hclass, -⟩ := Option.bind_eq_some_iff.mp htarget
      exact List.isSome_idxOf?.mp (by rw [hclass]; rfl)
    · exact And.right
  have hcount := congrArg (List.countP id) hmap
  rw [List.countP_map, List.countP_map] at hcount
  rw [hset, Set.ncard_coe_finset, List.toFinset_card_of_nodup (hnodup.filter _),
    ← List.countP_eq_length_filter, ← Array.countP_toList]
  exact hcount

theorem sound_ofStates {alphabet : List Char} {states : List State} (hnodup : alphabet.Nodup)
    (hsingle : ∀ c ∈ alphabet, c.toNat < 256) (hnames : (states.map State.name).Nodup)
    (hfits : ∀ s ∈ states, s.Fits alphabet.length states.length) :
    (ofStates alphabet states).Sound where
  names_nodup := hnames
  stateId?_iff := by
    intro name i
    rw [stateId?_ofStates_iff hnames, state?, ofStates, List.getElem?_toArray]
  alphabet_nodup := hnodup
  alphabet_single := hsingle
  classOf?_iff := by
    intro c symbolClass
    have hentry : (ofStates alphabet states).alphabet[symbolClass]? = some c ↔
        alphabet.idxOf? c = some symbolClass := (idxOf?_eq_some_iff_of_nodup hnodup c _).symm
    rw [classOf?_ofStates, hentry]
    split
    next => rfl
    next hwide => rw [List.idxOf?_eq_none_iff.mpr fun hmem => hwide (hsingle c hmem)]
  target_lt := by
    intro i c target htransition
    rw [transition?_ofStates_iff] at htransition
    obtain ⟨-, symbolClass, s, -, hs, hdestination⟩ := htransition
    have hmem : some target ∈ s.destinations :=
      Array.mem_of_getElem? (Option.join_eq_some_iff.mp hdestination)
    simpa [size, ofStates] using (hfits s (List.mem_of_getElem? hs)).bounded target hmem
  arrows_eq := by
    intro i s hs
    have hs' : states[i]? = some s := by simpa [state?, ofStates] using hs
    have hfit := hfits s (List.mem_of_getElem? hs')
    rw [ncard_transition? hnodup hsingle hs' hfit, hfit.arrows_eq]
  entry_lt := by
    intro i hentry
    cases states with
    | nil => simp [ofStates] at hentry
    | cons s states =>
        have hzero : 0 = i := by simpa [ofStates] using hentry
        simp [size, ofStates, ← hzero]
  isSome_entry_iff := by
    cases states <;> simp [ofStates, size]

end Machine

namespace Machine

variable {m : Machine}

theorem exists_state? {i : Nat} (hi : i < m.size) : ∃ s, m.state? i = some s :=
  ⟨_, Array.getElem?_eq_getElem hi⟩

/-- A character outside the alphabet has no transitions. -/
theorem Sound.transition?_of_notMem (hsound : m.Sound) {c : Char} (hforeign : c ∉ m.alphabet)
    (i : Nat) : m.transition? i c = none := by
  cases hclass : m.classOf? c with
  | none => rw [transition?, hclass]
  | some symbolClass =>
      exact absurd (List.mem_of_getElem? ((hsound.classOf?_iff c symbolClass).mp hclass)) hforeign

/-- A state is dead if and only if no character has a transition from it. -/
theorem Sound.isDead_iff (hsound : m.Sound) {i : Nat} (hi : i < m.size) :
    m.isDead i ↔ ∀ c, m.transition? i c = none := by
  obtain ⟨s, hs⟩ := exists_state? hi
  have hdead : m.isDead i ↔ s.arrows = 0 := by simp [isDead, hs, State.isDead]
  -- An infinite set would have no elements to count, but only symbols have transitions.
  have hfinite : {c | (m.transition? i c).isSome}.Finite := by
    apply m.alphabet.toFinset.finite_toSet.subset
    intro c hsome
    rw [List.coe_toFinset]
    by_contra hforeign
    simp [hsound.transition?_of_notMem hforeign] at hsome
  rw [hdead, hsound.arrows_eq i s hs, Set.ncard_eq_zero hfinite, Set.eq_empty_iff_forall_notMem]
  simp

/-- The machine after it was pointed at entry states by their names, one after another. -/
def setEntries (m : Machine) (names : List String) : Machine :=
  names.foldl (fun m name => match m.setEntry name with
    | .ok pointed => pointed
    | .error _ => m) m

/-- What pointing a machine at an entry state can do: nothing but that, or nothing at all. -/
theorem setEntry_cases (m : Machine) (name : String) :
    (∃ i, m.stateId? name = some i ∧ m.setEntry name = .ok { m with entry := some i } ∧
      m.setEntries [name] = { m with entry := some i }) ∨
    (m.stateId? name = none ∧ m.setEntry name = .error (.unknownState name) ∧
      m.setEntries [name] = m) := by
  cases hid : m.stateId? name with
  | some i => exact .inl ⟨i, rfl, by simp [setEntry, hid], by simp [setEntries, setEntry, hid]⟩
  | none => exact .inr ⟨rfl, by simp [setEntry, hid], by simp [setEntries, setEntry, hid]⟩

theorem Sound.withEntry (hsound : m.Sound) {i : Nat} (hi : i < m.size) :
    { m with entry := some i }.Sound where
  names_nodup := hsound.names_nodup
  stateId?_iff := hsound.stateId?_iff
  alphabet_nodup := hsound.alphabet_nodup
  alphabet_single := hsound.alphabet_single
  classOf?_iff := hsound.classOf?_iff
  target_lt := hsound.target_lt
  arrows_eq := hsound.arrows_eq
  entry_lt := by
    rintro j hj
    rwa [← Option.some.inj hj]
  isSome_entry_iff := ⟨fun _ => Nat.zero_lt_of_lt hi, fun _ => rfl⟩

theorem Sound.setEntries (hsound : m.Sound) (names : List String) : (m.setEntries names).Sound := by
  induction names generalizing m with
  | nil => exact hsound
  | cons name names ih =>
      have hsplit : m.setEntries (name :: names) = (m.setEntries [name]).setEntries names := rfl
      rw [hsplit]
      rcases m.setEntry_cases name with ⟨i, hid, -, hpointed⟩ | ⟨-, -, hsame⟩
      · rw [hpointed]
        have hnamed := (hsound.stateId?_iff name i).mp hid
        obtain ⟨s, hs, -⟩ := Option.map_eq_some_iff.mp hnamed
        obtain ⟨hlt, -⟩ := Array.getElem?_eq_some_iff.mp hs
        exact ih (hsound.withEntry hlt)
      · rw [hsame]
        exact ih hsound

end Machine

/-- Rows of states with different names become the states of a sound machine. -/
theorem Table.sound_rowStates (header : List String) {states : List (List String)}
    (hlabels : (states.map label).Nodup) :
    (Machine.ofStates (columnsOf header).alphabet (states.map (rowState header states))).Sound := by
  obtain ⟨-, hsymbols, hnodup⟩ := columnsOf_gathers header
  refine Machine.sound_ofStates hnodup ?_ ?_ ?_
  · intro c hmem
    obtain ⟨cell, -, hsymbol⟩ := (hsymbols c).mp hmem
    exact ((symbol?_eq_some_iff cell c).mp hsymbol).2
  · rw [List.map_map]
    convert hlabels using 1
    apply List.map_congr_left
    intro cells _
    exact (rowState_frame _ _ cells).1
  · intro s hmem
    obtain ⟨cells, -, rfl⟩ := List.mem_map.mp hmem
    refine fits_fillRow ?_ _ cells
    intro name target htarget
    rw [Machine.getElem?_indexOf_iff hlabels] at htarget
    simpa using (List.getElem?_eq_some_iff.mp htarget).1

theorem Table.sound_parse (text : String) : (Table.parse text).value.machine.Sound := by
  rw [machine_parse]
  exact sound_rowStates _ (nodup_label_stateRows (textRows text))

end TableLexer
