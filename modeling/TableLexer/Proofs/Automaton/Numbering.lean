import Std.Data.HashMap.Lemmas
import TableLexer.Automaton.Machine
/-!
Numbers.  The index of a machine inverts the list of its names, and its class table inverts its
alphabet, so both are looked up as if the lists were searched.
-/

namespace TableLexer

namespace Machine

/-- Numbering distinct names leaves the entries of all other names as they were. -/
theorem getElem?_foldl_insert {names : List String} (hnodup : names.Nodup) (first : Nat)
    (index : Std.HashMap String Nat) (name : String) :
    ((names.zipIdx first).foldl (fun index (name, n) => index.insert name n) index)[name]? =
      ((names.idxOf? name).map (first + ·)).or index[name]? := by
  induction names generalizing first index with
  | nil => simp
  | cons head names ih =>
      obtain ⟨hhead, hnodup⟩ := List.nodup_cons.mp hnodup
      rw [List.zipIdx_cons, List.foldl_cons, ih hnodup, Std.HashMap.getElem?_insert,
        List.idxOf?_cons]
      by_cases heq : head = name
      · rw [List.idxOf?_eq_none_iff.mpr (heq ▸ hhead)]
        simp [heq]
      · have hshift : (first + ·) ∘ (· + 1) = (first + 1 + ·) := by
          funext n
          simp only [Function.comp]
          omega
        simp [heq, hshift]

theorem idxOf?_eq_some_iff_of_nodup {α : Type} [BEq α] [LawfulBEq α] {l : List α}
    (hnodup : l.Nodup) (a : α) (i : Nat) : l.idxOf? a = some i ↔ l[i]? = some a := by
  rw [List.idxOf?_eq_some_iff, List.getElem?_eq_some_iff]
  constructor
  · rintro ⟨hi, hentry, -⟩
    exact ⟨hi, hentry⟩
  · rintro ⟨hi, hentry⟩
    refine ⟨hi, hentry, ?_⟩
    intro j hj hsame
    have heq := (List.getElem_inj hnodup).mp (hsame.trans hentry.symm)
    exact absurd heq (Nat.ne_of_lt hj)

/-- Distinct names have the numbers of their places. -/
theorem getElem?_indexOf_iff {names : List String} (hnodup : names.Nodup) (name : String)
    (i : Nat) : (indexOf names)[name]? = some i ↔ names[i]? = some name := by
  rw [indexOf, getElem?_foldl_insert hnodup, ← idxOf?_eq_some_iff_of_nodup hnodup]
  simp

theorem stateId?_ofStates_iff {alphabet : List Char} {states : List State}
    (hnodup : (states.map State.name).Nodup) (name : String) (i : Nat) :
    (ofStates alphabet states).stateId? name = some i ↔ states[i]?.map State.name = some name := by
  rw [stateId?, ofStates, getElem?_indexOf_iff hnodup, List.getElem?_map]

/-- The class of a character is its place in the alphabet, as long as it is a single byte. -/
theorem classOf?_ofStates (alphabet : List Char) (states : List State) (c : Char) :
    (ofStates alphabet states).classOf? c =
      if c.toNat < alphabetSize then alphabet.idxOf? c else none := by
  rw [classOf?, ofStates, classTable, Array.getElem?_map, Array.getElem?_range]
  split
  · rw [Option.map_some, Option.join_some, Char.ofNat_toNat]
  · rfl

theorem transition?_ofStates_iff (alphabet : List Char) (states : List State) (i : Nat) (c : Char)
    (target : Nat) : (ofStates alphabet states).transition? i c = some target ↔
      c.toNat < alphabetSize ∧ ∃ symbolClass s, alphabet.idxOf? c = some symbolClass ∧
        states[i]? = some s ∧ s.destination? symbolClass = some target := by
  rw [transition?, classOf?_ofStates]
  by_cases hsingle : c.toNat < alphabetSize
  · rw [if_pos hsingle, state?, ofStates, List.getElem?_toArray]
    cases alphabet.idxOf? c with
    | none => simp
    | some symbolClass =>
        cases states[i]? with
        | none => simp
        | some s => simp [hsingle]
  · simp [hsingle]

end Machine

end TableLexer
