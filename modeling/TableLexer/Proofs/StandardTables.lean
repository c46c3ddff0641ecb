import TableLexer.Pipeline
import TableLexer.Proofs.Automaton.WrittenTable
/-!
The pipeline of the standard tables.  Both tables can be written, so where their states lead and what
they accept is what their rows say.
-/

namespace TableLexer

namespace StandardTables

open Table (Plain)

section Destinations

-- What holds of every text that a function of destinations can give holds of all that it gives.
variable {p : String → Prop} {target other : String}

theorem forall_onElse {targets : List (Char × String)} (htargets : ∀ target ∈ targets, p target.2)
    (hother : p other) (c : Char) : p (onElse targets other c) := by
  rw [onElse]
  cases hfound : targets.lookup c with
  | none => exact hother
  | some target =>
      obtain ⟨before, after, rfl, -⟩ := List.lookup_eq_some_iff.mp hfound
      exact htargets (c, target) (by simp)

theorem forall_ite (htarget : p target) (hother : p other) (test : Prop) [Decidable test] :
    p (if test then target else other) := by
  split
  · exact htarget
  · exact hother

theorem forall_nowhere (hnone : p "") (c : Char) : p (nowhere c) := hnone

theorem forall_on (htarget : p target) (hnone : p "") (symbol c : Char) : p (on symbol target c) :=
  forall_ite htarget hnone (c = symbol)

theorem forall_onDigit (htarget : p target) (hnone : p "") (c : Char) : p (onDigit target c) :=
  forall_ite htarget hnone c.isDigit

end Destinations

theorem plain_lexicalStart (c : Char) : Plain (lexicalStart c) := by
  unfold lexicalStart
  refine forall_ite (by decide) (forall_ite (by decide) (forall_ite (by decide) ?_ _) _) _
  split <;> decide

theorem writable_preprocessorRows : Writable preprocessorRows where
  names_nodup := by decide
  named := by decide
  plain := by
    simp only [preprocessorRows, List.forall_mem_cons]
    and_intros
    all_goals with_reducible first
      | exact forall_nowhere (by decide)
      | exact forall_onElse (by decide) (by decide)
      | exact forall_on (by decide) (by decide) _
      | exact fun row hmem => absurd hmem List.not_mem_nil
      | decide

theorem writable_lexicalRows : Writable lexicalRows where
  names_nodup := by decide
  named := by decide
  plain := by
    simp only [lexicalRows, List.forall_mem_cons]
    and_intros
    all_goals with_reducible first
      | exact forall_nowhere (by decide)
      | exact forall_onElse (by decide) (by decide)
      | exact forall_on (by decide) (by decide) _
      | exact forall_onDigit (by decide) (by decide)
      | exact plain_lexicalStart
      | exact fun c => forall_ite (by decide) (by decide) _
      | exact fun c => forall_ite (by decide) (forall_ite (by decide) (by decide) _) _
      | exact fun row hmem => absurd hmem List.not_mem_nil
      | decide

def preprocessorMachine : Machine := (Table.parse preprocessor).value.machine

def lexicalMachine : Machine := (Table.parse lexical).value.machine

/-- The pipeline of the standard tables with the default preferences.  Both machines begin in their
first states. -/
def pipeline : Pipeline :=
  let preferences := Preferences.ofEnvironment ⟨[]⟩
  { preprocessor := ⟨preprocessorMachine, 0, preferences.preprocessing, preferences.files⟩
    lexer := ⟨lexicalMachine, 0, (Keywords.parse keywords).value, preferences.lexical⟩ }

theorem entry_lexicalMachine : lexicalMachine.entry = some 0 := by
  rw [lexicalMachine, lexical, entry_parse_write writable_lexicalRows]
  exact if_neg (List.cons_ne_nil _ _)

theorem ofTables_lexicalMachine :
    Lexer.ofTables lexicalMachine (Keywords.parse keywords).value (.ofEnvironment ⟨[]⟩) =
      .ok pipeline.lexer := by
  rw [Lexer.ofTables, entry_lexicalMachine]
  rfl

@[simp] theorem machine_preprocessor : pipeline.preprocessor.machine = preprocessorMachine := rfl

@[simp] theorem machine_lexer : pipeline.lexer.machine = lexicalMachine := rfl

@[simp] theorem entry_lexer : pipeline.lexer.entry = 0 := rfl

theorem transition?_preprocessorMachine (i : Nat) (c : Char) :
    preprocessorMachine.transition? i c = preprocessorRows[i]?.bind fun row =>
      if c ∈ symbols then (preprocessorRows.map Row.name).idxOf? (row.destination c) else none := by
  rw [preprocessorMachine, preprocessor, transition?_parse_write writable_preprocessorRows]

theorem transition?_lexicalMachine (i : Nat) (c : Char) :
    lexicalMachine.transition? i c = lexicalRows[i]?.bind fun row =>
      if c ∈ symbols then (lexicalRows.map Row.name).idxOf? (row.destination c) else none := by
  rw [lexicalMachine, lexical, transition?_parse_write writable_lexicalRows]

theorem transition?_preprocessorMachine_of_mem {c : Char} (hc : c ∈ symbols) (i : Nat) :
    preprocessorMachine.transition? i c = preprocessorRows[i]?.bind fun row =>
      (preprocessorRows.map Row.name).idxOf? (row.destination c) := by
  simp only [transition?_preprocessorMachine, if_pos hc]

theorem transition?_lexicalMachine_of_mem {c : Char} (hc : c ∈ symbols) (i : Nat) :
    lexicalMachine.transition? i c = lexicalRows[i]?.bind fun row =>
      (lexicalRows.map Row.name).idxOf? (row.destination c) := by
  simp only [transition?_lexicalMachine, if_pos hc]

theorem accepted?_preprocessorMachine (i : Nat) :
    preprocessorMachine.accepted? i = preprocessorRows[i]?.bind fun row =>
      if row.accepted = "" then none else some row.accepted := by
  rw [preprocessorMachine, preprocessor, accepted?_parse_write writable_preprocessorRows]

theorem isDead_preprocessorMachine (i : Nat) :
    preprocessorMachine.isDead i ↔ ∀ row ∈ preprocessorRows[i]?, ∀ c ∈ symbols,
      row.destination c ∉ preprocessorRows.map Row.name := by
  rw [preprocessorMachine, preprocessor, isDead_parse_write writable_preprocessorRows]

theorem accepted?_lexicalMachine (i : Nat) :
    lexicalMachine.accepted? i = lexicalRows[i]?.bind fun row =>
      if row.accepted = "" then none else some row.accepted := by
  rw [lexicalMachine, lexical, accepted?_parse_write writable_lexicalRows]

theorem stateId?_lexicalMachine (name : String) :
    lexicalMachine.stateId? name = (lexicalRows.map Row.name).idxOf? name := by
  rw [lexicalMachine, lexical, stateId?_parse_write writable_lexicalRows]

-- What the machines do is said by their rows; reading the tables again would take very long.
attribute [irreducible] preprocessorMachine lexicalMachine

end StandardTables

end TableLexer
