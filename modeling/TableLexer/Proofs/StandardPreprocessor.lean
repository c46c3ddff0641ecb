import TableLexer.Proofs.Preprocessor.Passing
import TableLexer.Proofs.StandardTables
/-!
What the preprocessor of the standard tables lets pass.  A `#` begins a directive, which is dropped with
the rest of its line and the line feed, wherever it stands: the preprocessor knows no comments and no
literals.  Only a question mark, or two of them, take the symbol after them along.
-/

namespace TableLexer.StandardTables

/-- Where the preprocessor goes from its entry state. -/
theorem transition?_start : ∀ c ∈ symbols, pipeline.preprocessor.machine.transition? 0 c =
    some (if c = '#' then 5 else if c = '?' then 7 else if c = '\\' then 2 else 1) := by
  intro c hc
  rw [machine_preprocessor, transition?_preprocessorMachine_of_mem hc]
  revert c
  decide

theorem transition?_question : ∀ c ∈ symbols, pipeline.preprocessor.machine.transition? 7 c =
    if c = '?' then some 8 else none := by
  intro c hc
  rw [machine_preprocessor, transition?_preprocessorMachine_of_mem hc]
  revert c
  decide

theorem transition?_trigraph : ∀ c ∈ symbols, pipeline.preprocessor.machine.transition? 8 c =
    some (if c = '<' ∨ c = '>' then 9 else 1) := by
  intro c hc
  rw [machine_preprocessor, transition?_preprocessorMachine_of_mem hc]
  revert c
  decide

theorem transition?_directive : ∀ c ∈ symbols, pipeline.preprocessor.machine.transition? 5 c =
    some (if c = '\n' then 6 else 5) := by
  intro c hc
  rw [machine_preprocessor, transition?_preprocessorMachine_of_mem hc]
  revert c
  decide

theorem isDead_preprocessor : ∀ i ∈ [1, 6, 9], pipeline.preprocessor.machine.isDead i := by
  simp only [machine_preprocessor, isDead_preprocessorMachine]
  decide

theorem not_isDead_preprocessor : ∀ i ∈ [5, 7, 8], ¬ pipeline.preprocessor.machine.isDead i := by
  simp only [machine_preprocessor, isDead_preprocessorMachine]
  decide

theorem accepted?_preprocessor : ∀ i ∈ [1, 6, 7, 9],
    (pipeline.preprocessor.machine.accepted? i =
      some pipeline.preprocessor.preferences.passthroughCategory ↔ i = 1 ∨ i = 7) := by
  simp only [machine_preprocessor, accepted?_preprocessorMachine]
  decide

/-- Segments that end in two of the states pass, and others do not. -/
theorem passed_of_closes {word : List Char} {final : Nat}
    (hcloses : pipeline.preprocessor.machine.Closes 0 word final) (hfinal : final ∈ [1, 6, 7, 9])
    (rest : List Char) :
    pipeline.preprocessor.passed (word ++ rest) =
      (if final = 1 ∨ final = 7 then word else []) ++ pipeline.preprocessor.passed rest := by
  rw [Preprocessor.passed_append hcloses]
  simp only [accepted?_preprocessor final hfinal]

/-- A symbol that begins nothing passes by itself. -/
theorem passed_plain {c : Char} (hc : c ∈ symbols) (hplain : c ≠ '#' ∧ c ≠ '?' ∧ c ≠ '\\')
    (rest : List Char) :
    pipeline.preprocessor.passed (c :: rest) = c :: pipeline.preprocessor.passed rest := by
  have htarget := transition?_start c hc
  rw [if_neg hplain.1, if_neg hplain.2.1, if_neg hplain.2.2] at htarget
  exact passed_of_closes (.of_dead htarget (isDead_preprocessor 1 (by decide))) (by decide) rest

/-- A text of such symbols passes as a whole. -/
theorem passed_eq_self {text : List Char}
    (htext : ∀ c ∈ text, c ∈ symbols ∧ c ≠ '#' ∧ c ≠ '?' ∧ c ≠ '\\') :
    pipeline.preprocessor.passed text = text := by
  induction text with
  | nil => exact Preprocessor.passed_nil _
  | cons c text ih =>
      obtain ⟨hc, hplain⟩ := htext c List.mem_cons_self
      rw [passed_plain hc hplain, ih fun d hmem => htext d (List.mem_cons_of_mem c hmem)]

theorem plain_of_isDigit : ∀ c ∈ symbols, c.isDigit → c ≠ '#' ∧ c ≠ '?' ∧ c ≠ '\\' := by
  decide

/-- A question mark takes the symbol after it along. -/
theorem passed_question {c : Char} (hc : c ∈ symbols) (hne : c ≠ '?') (rest : List Char) :
    pipeline.preprocessor.passed ('?' :: c :: rest) =
      '?' :: c :: pipeline.preprocessor.passed rest := by
  have hopens : pipeline.preprocessor.machine.transition? 0 '?' = some 7 :=
    transition?_start '?' (by decide)
  have hstuck := transition?_question c hc
  rw [if_neg hne] at hstuck
  have haccepts : pipeline.preprocessor.machine.isAccepting 7 := by
    rw [Machine.isAccepting, (accepted?_preprocessor 7 (by decide)).mpr (by decide),
      Option.isSome_some]
  exact passed_of_closes
    (.of_live hopens (not_isDead_preprocessor 7 (by decide)) (.of_stuck hstuck haccepts))
    (by decide) rest

/-- Two question marks take the symbol after them along, and do not pass before an angle bracket. -/
theorem passed_trigraph {c : Char} (hc : c ∈ symbols) (rest : List Char) :
    pipeline.preprocessor.passed ('?' :: '?' :: c :: rest) =
      (if c = '<' ∨ c = '>' then [] else ['?', '?', c]) ++ pipeline.preprocessor.passed rest := by
  have hopens : pipeline.preprocessor.machine.transition? 0 '?' = some 7 :=
    transition?_start '?' (by decide)
  have hgoes : pipeline.preprocessor.machine.transition? 7 '?' = some 8 :=
    transition?_question '?' (by decide)
  have hcloses : ∀ final, pipeline.preprocessor.machine.transition? 8 c = some final →
      pipeline.preprocessor.machine.isDead final →
      pipeline.preprocessor.machine.Closes 0 ['?', '?', c] final := by
    intro final htarget hdead
    exact .of_live hopens (not_isDead_preprocessor 7 (by decide))
      (.of_live hgoes (not_isDead_preprocessor 8 (by decide)) (.of_dead htarget hdead))
  have htarget := transition?_trigraph c hc
  by_cases hbrace : c = '<' ∨ c = '>'
  · rw [if_pos hbrace] at htarget ⊢
    exact passed_of_closes (hcloses 9 htarget (isDead_preprocessor 9 (by decide))) (by decide) rest
  · rw [if_neg hbrace] at htarget ⊢
    exact passed_of_closes (hcloses 1 htarget (isDead_preprocessor 1 (by decide))) (by decide) rest

theorem closes_directive {body : List Char} (hbody : ∀ c ∈ body, c ∈ symbols ∧ c ≠ '\n') :
    pipeline.preprocessor.machine.Closes 5 (body ++ ['\n']) 6 := by
  induction body with
  | nil => exact .of_dead (transition?_directive '\n' (by decide)) (isDead_preprocessor 6 (by decide))
  | cons c body ih =>
      obtain ⟨hc, hfeed⟩ := hbody c List.mem_cons_self
      have htarget := transition?_directive c hc
      rw [if_neg hfeed] at htarget
      exact .of_live htarget (not_isDead_preprocessor 5 (by decide))
        (ih fun d hmem => hbody d (List.mem_cons_of_mem c hmem))

/-- A directive is dropped up to the end of its line. -/
theorem passed_directive (body : List Char) (hbody : ∀ c ∈ body, c ∈ symbols ∧ c ≠ '\n')
    (rest : List Char) :
    pipeline.preprocessor.passed ('#' :: body ++ '\n' :: rest) =
      pipeline.preprocessor.passed rest := by
  have hopens : pipeline.preprocessor.machine.transition? 0 '#' = some 5 :=
    transition?_start '#' (by decide)
  have hpassed := passed_of_closes
    (.of_live hopens (not_isDead_preprocessor 5 (by decide)) (closes_directive hbody))
    (by decide) rest
  rw [List.append_cons]
  exact hpassed

/-- The part of a line before its first directive, if there is a directive in it.  A `#` begins one,
unless a question mark, or two of them, take it along. -/
def beforeDirective? : List Char → Option (List Char)
  | [] => none
  | '#' :: _ => some []
  | '?' :: '?' :: c :: rest => (beforeDirective? rest).map fun before => '?' :: '?' :: c :: before
  | '?' :: c :: rest => (beforeDirective? rest).map fun before => '?' :: c :: before
  | c :: rest => (beforeDirective? rest).map fun before => c :: before

/-- The characters that a line comment can hold. -/
def InLine (line : List Char) : Prop := ∀ c ∈ line, c ∈ symbols ∧ c ≠ '\n' ∧ c ≠ '\\'

instance (line : List Char) : Decidable (InLine line) :=
  inferInstanceAs (Decidable (∀ c ∈ line, c ∈ symbols ∧ c ≠ '\n' ∧ c ≠ '\\'))

theorem InLine.tail {c : Char} {line : List Char} (hline : InLine (c :: line)) : InLine line :=
  fun d hmem => hline d (List.mem_cons_of_mem c hmem)

theorem InLine.head {c : Char} {line : List Char} (hline : InLine (c :: line)) :
    c ∈ symbols ∧ c ≠ '\n' ∧ c ≠ '\\' :=
  hline c List.mem_cons_self

/-- Of a line without a directive a part passes, and its line feed, and then what follows. -/
theorem passed_of_none {line : List Char} (hline : InLine line) (hnone : beforeDirective? line = none) :
    ∃ kept, kept.Sublist line ∧ ∀ rest, pipeline.preprocessor.passed (line ++ '\n' :: rest) =
      kept ++ '\n' :: pipeline.preprocessor.passed rest := by
  fun_induction beforeDirective? line with
  | case1 => exact ⟨[], .slnil, passed_plain (by decide) (by decide)⟩
  | case2 line => contradiction
  | case3 c line ih =>
      obtain ⟨kept, hkept, hpassed⟩ := ih hline.tail.tail.tail (Option.map_eq_none_iff.mp hnone)
      have hc := hline.tail.tail.head.1
      refine ⟨(if c = '<' ∨ c = '>' then [] else ['?', '?', c]) ++ kept, ?_, ?_⟩
      · split
        · exact ((hkept.cons c).cons '?').cons '?'
        · exact ((hkept.cons_cons c).cons_cons '?').cons_cons '?'
      · intro rest
        rw [List.append_assoc, ← hpassed rest]
        exact passed_trigraph hc (line ++ '\n' :: rest)
  | case4 c line hsingle ih =>
      obtain ⟨kept, hkept, hpassed⟩ := ih hline.tail.tail (Option.map_eq_none_iff.mp hnone)
      refine ⟨'?' :: c :: kept, (hkept.cons_cons c).cons_cons '?', ?_⟩
      intro rest
      by_cases hquestion : c = '?'
      · -- Two question marks at the end of a line take the line feed along.
        cases line with
        | nil =>
            rw [List.sublist_nil.mp hkept, hquestion]
            exact passed_trigraph (c := '\n') (by decide) rest
        | cons d line => exact (hsingle d line hquestion rfl).elim
      · rw [List.cons_append, List.cons_append, List.cons_append, List.cons_append, ← hpassed rest]
        exact passed_question hline.tail.head.1 hquestion (line ++ '\n' :: rest)
  | case5 c line hdirective _ hsingle ih =>
      obtain ⟨kept, hkept, hpassed⟩ := ih hline.tail (Option.map_eq_none_iff.mp hnone)
      refine ⟨c :: kept, hkept.cons_cons c, ?_⟩
      intro rest
      by_cases hquestion : c = '?'
      · -- So does a single one.
        cases line with
        | nil =>
            rw [List.sublist_nil.mp hkept, hquestion]
            exact passed_question (c := '\n') (by decide) (by decide) rest
        | cons d line => exact (hsingle d line hquestion rfl).elim
      · rw [List.cons_append, List.cons_append, ← hpassed rest]
        obtain ⟨hc, -, hbackslash⟩ := hline.head
        exact passed_plain hc ⟨hdirective, hquestion, hbackslash⟩ (line ++ '\n' :: rest)

/-- Of a line with a directive passes what would pass of the part before it, without a line feed. -/
theorem passed_of_some {line before : List Char} (hline : InLine line)
    (hbefore : beforeDirective? line = some before) (rest : List Char) :
    pipeline.preprocessor.passed (line ++ '\n' :: rest) =
      pipeline.preprocessor.passed (before ++ rest) := by
  fun_induction beforeDirective? line generalizing before with
  | case1 => contradiction
  | case2 line =>
      obtain rfl := Option.some.inj hbefore
      exact passed_directive _ (fun c hmem => ⟨(hline.tail c hmem).1, (hline.tail c hmem).2.1⟩) rest
  | case3 c line ih =>
      obtain ⟨before, hfound, rfl⟩ := Option.map_eq_some_iff.mp hbefore
      have hc := hline.tail.tail.head.1
      have hrest := ih hline.tail.tail.tail hfound
      simp only [List.cons_append, passed_trigraph hc, hrest]
  | case4 c line hsingle ih =>
      obtain ⟨before, hfound, rfl⟩ := Option.map_eq_some_iff.mp hbefore
      have hrest := ih hline.tail.tail hfound
      have hquestion : c ≠ '?' := by
        intro heq
        cases line with
        | nil => simp [beforeDirective?] at hfound
        | cons d line => exact hsingle d line heq rfl
      simp only [List.cons_append, passed_question hline.tail.head.1 hquestion, hrest]
  | case5 c line hdirective _ hsingle ih =>
      obtain ⟨before, hfound, rfl⟩ := Option.map_eq_some_iff.mp hbefore
      have hrest := ih hline.tail hfound
      have hquestion : c ≠ '?' := by
        intro heq
        cases line with
        | nil => simp [beforeDirective?] at hfound
        | cons d line => exact hsingle d line heq rfl
      obtain ⟨hc, -, hbackslash⟩ := hline.head
      simp only [List.cons_append, passed_plain hc ⟨hdirective, hquestion, hbackslash⟩, hrest]

example : beforeDirective? ['?', '#', 'a', '#', 'b'] = some ['?', '#', 'a'] := by decide

end TableLexer.StandardTables
