import TableLexer.Preprocessor.Basic
import TableLexer.Proofs.Preprocessor.Segmentation
/-!
Responses.  A response sorts the segments of a program by their categories and loses no character.
The text of a response has the passed segments as its own segments, so a second pass changes
nothing.
-/

namespace TableLexer.Preprocessor

def categoryOf (p : Preprocessor) (word : List Char) : Option String :=
  p.machine.accepted? (p.machine.settled p.entry word)

/-- The segments that are neither passed nor reported. -/
def droppedWords (p : Preprocessor) (words : List (List Char)) : List (List Char) :=
  words.filter fun word =>
    p.categoryOf word ≠ none ∧ p.categoryOf word ≠ some p.preferences.passthroughCategory ∧
      p.categoryOf word ≠ some p.preferences.warningCategory

def charactersOf (segments : List (Located Token)) : List Char :=
  segments.flatMap fun t => t.value.lexeme.toList

/-- `r` answers to a text that is cut into `words`: every segment goes where its category sends it,
in order and with its place, and every character goes to exactly one of four ends. -/
structure Answers (p : Preprocessor) (text : List Char) (words : List (List Char))
    (r : Response) : Prop where
  text_eq : r.text = String.ofList
    (words.filter fun word =>
      p.categoryOf word = some p.preferences.passthroughCategory).flatten
  warnings_eq : r.warnings = (p.machine.segmentTokens p.entry .start words).filter fun t =>
    t.value.category = some p.preferences.warningCategory ∧
      t.value.category ≠ some p.preferences.passthroughCategory
  errors_eq : r.errors = (p.machine.segmentTokens p.entry .start words).filter fun t =>
    t.value.category = none
  covers : ∀ t ∈ r.warnings ++ r.errors, ∃ before after,
    text = before ++ t.value.lexeme.toList ++ after ∧
      t.span = ⟨Position.start.past before, Position.start.past (before ++ t.value.lexeme.toList)⟩
  conserves : text.Perm (r.text.toList ++ charactersOf r.warnings ++ charactersOf r.errors ++
    (p.droppedWords words).flatten)

/-- The categories that have a role. -/
def Role.admits (p : Preferences.Preprocessing) : Role → Option String → Prop
  | .error, category => category = none
  | .passed, category => category = some p.passthroughCategory
  | .warning, category =>
      category = some p.warningCategory ∧ category ≠ some p.passthroughCategory
  | .dropped, category =>
      category ≠ none ∧ category ≠ some p.passthroughCategory ∧
        category ≠ some p.warningCategory

theorem role_eq_iff (p : Preferences.Preprocessing) (t : Token) (r : Role) :
    role p t = r ↔ r.admits p t.category := by
  cases hcategory : t.category with
  | none => cases r <;> simp [role, hcategory, Role.admits]
  | some category =>
      by_cases hpassed : category = p.passthroughCategory
      · cases r <;> simp [role, hcategory, hpassed, Role.admits]
      · by_cases hwarned : category = p.warningCategory
        · have hother : p.warningCategory ≠ p.passthroughCategory := hwarned ▸ hpassed
          cases r <;> simp [role, hcategory, hwarned, hother, Role.admits]
        · cases r <;> simp [role, hcategory, hpassed, hwarned, Role.admits]

theorem charactersOf_segmentTokens (p : Preprocessor) (place : Position)
    (words : List (List Char)) :
    charactersOf (p.machine.segmentTokens p.entry place words) = words.flatten := by
  induction words generalizing place with
  | nil => rfl
  | cons word words ih =>
      have hrest := ih (place.past word)
      rw [charactersOf] at hrest
      rw [Machine.segmentTokens, charactersOf, List.flatMap_cons, hrest, List.flatten_cons,
        Machine.segmentToken, String.toList_ofList]

/-- The characters of the segments of a role are those of the words whose category has it. -/
theorem charactersOf_ofRole (p : Preprocessor) {r : Role} (test : Option String → Prop)
    [DecidablePred test] (htest : ∀ t, role p.preferences t = r ↔ test t.category)
    (place : Position) (words : List (List Char)) :
    charactersOf (ofRole p.preferences r (p.machine.segmentTokens p.entry place words)) =
      (words.filter fun word => test (p.categoryOf word)).flatten := by
  induction words generalizing place with
  | nil => rfl
  | cons word words ih =>
      have hword := htest (p.machine.segmentToken p.entry place word).value
      have hrest := ih (place.past word)
      rw [Machine.segmentTokens, ofRole, List.filter_cons]
      by_cases hrole : test (p.categoryOf word)
      · rw [if_pos (by simpa using hword.mpr hrole), List.filter_cons, if_pos (by simpa using hrole),
          List.flatten_cons, ← hrest]
        simp [charactersOf, ofRole, Machine.segmentToken]
      · rw [if_neg (by simpa using fun h => hrole (hword.mp h)), List.filter_cons,
          if_neg (by simpa using hrole), ← hrest, ofRole]

/-- Every character of the segments is in a segment of exactly one role. -/
theorem charactersOf_perm (p : Preferences.Preprocessing) (segments : List (Located Token)) :
    (charactersOf segments).Perm
      (charactersOf (ofRole p .passed segments) ++ charactersOf (ofRole p .warning segments) ++
        charactersOf (ofRole p .error segments) ++ charactersOf (ofRole p .dropped segments)) := by
  rw [List.perm_iff_count]
  intro c
  induction segments with
  | nil => rfl
  | cons t segments ih =>
      simp only [List.count_append] at ih ⊢
      cases hrole : role p t.value <;>
        simp only [charactersOf, ofRole, List.flatMap_cons, List.filter_cons, hrole,
          List.count_append, decide_true, decide_false, ↓reduceIte, reduceCtorEq] at ih ⊢ <;>
        omega

theorem toList_text_respond (p : Preferences.Preprocessing) (segments : List (Located Token)) :
    (respond p segments).text.toList = charactersOf (ofRole p .passed segments) := by
  rw [respond, String.toList_join, List.flatMap_map, charactersOf]

/-- The response to the segments of a cut. -/
theorem answers_respond {p : Preprocessor} {text : List Char} {words : List (List Char)}
    (hcut : p.machine.Cut p.entry text words) :
    p.Answers text words
      (respond p.preferences (p.machine.segmentTokens p.entry .start words)) where
  text_eq := by
    rw [← String.toList_inj, toList_text_respond, String.toList_ofList]
    exact p.charactersOf_ofRole (· = some p.preferences.passthroughCategory)
      (fun t => role_eq_iff p.preferences t .passed) .start words
  warnings_eq := by
    apply List.filter_congr
    intro t _
    exact decide_eq_decide.mpr (role_eq_iff p.preferences t.value .warning)
  errors_eq := by
    apply List.filter_congr
    intro t _
    exact decide_eq_decide.mpr (role_eq_iff p.preferences t.value .error)
  covers := by
    intro t hmem
    have hsegment : t ∈ p.machine.segmentTokens p.entry .start words := by
      rcases List.mem_append.mp hmem with hwarning | herror
      · exact (List.mem_filter.mp hwarning).1
      · exact (List.mem_filter.mp herror).1
    obtain ⟨before, word, after, rfl, rfl⟩ := Machine.exists_of_mem_segmentTokens hsegment
    refine ⟨before.flatten, after.flatten, ?_, ?_⟩
    · simp [← hcut.flatten_eq, Machine.segmentToken]
    · simp [Machine.segmentToken, Position.past_append]
  conserves := by
    have hdropped : (p.droppedWords words).flatten = charactersOf
        (ofRole p.preferences .dropped (p.machine.segmentTokens p.entry .start words)) := by
      exact (p.charactersOf_ofRole
        (fun category => category ≠ none ∧ category ≠ some p.preferences.passthroughCategory ∧
          category ≠ some p.preferences.warningCategory)
        (fun t => role_eq_iff p.preferences t .dropped) .start words).symm
    rw [toList_text_respond, hdropped, ← hcut.flatten_eq, ← p.charactersOf_segmentTokens .start]
    exact charactersOf_perm p.preferences _

/-- A program that is open gets its response, and the response answers to the one cut of its
text. -/
theorem process_answers (p : Preprocessor) (tracing : Bool) (text : String) :
    ∃ words, (∀ other, p.machine.Cut p.entry text.toList other ↔ other = words) ∧
      ∃ r, (p.process tracing (.ofText text)).1.value = .ok r ∧
        p.Answers text.toList words r := by
  obtain ⟨words, hcut, hsegments⟩ := p.machine.exists_cut_segments p.entry text
  refine ⟨words, ?_, respond p.preferences (p.machine.segments p.entry text), rfl, ?_⟩
  · intro other
    constructor
    · exact fun hother => hother.unique hcut
    · rintro rfl
      exact hcut
  · rw [hsegments]
    exact answers_respond hcut

end TableLexer.Preprocessor
