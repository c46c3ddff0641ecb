import TableLexer.Proofs.Lexer.Moving
import TableLexer.Proofs.Origins
import TableLexer.Proofs.StandardPreprocessor
/-!
Line comments of the standard tables.  Only the lexer knows comments, and the preprocessor comes first:
a directive that begins inside of a comment ends it, and takes the line feed with it.  A comment without
a directive is invisible; of one with a directive the part before it becomes a comment on what follows
the line.
-/

namespace TableLexer

namespace Traversal

variable {m : Machine} {entry state : Nat}

/-- Characters on which a state leads to itself are read one after another. -/
theorem follow_loop (haway : state ≠ entry) {word : List Char}
    (hloop : ∀ c ∈ word, m.transition? state c = some state) (lexeme : List Char)
    (start stop : Position) (rest : List Char) :
    follow m entry state lexeme start stop (word ++ rest) =
      follow m entry state (word.reverse ++ lexeme) start (stop.past word) rest := by
  induction word generalizing lexeme stop with
  | nil => rfl
  | cons c word ih =>
      have hrest := ih fun d hmem => hloop d (List.mem_cons_of_mem c hmem)
      rw [List.cons_append, follow, hloop c List.mem_cons_self]
      simp only [if_neg haway]
      rw [hrest, List.reverse_cons, List.append_assoc, List.singleton_append, Position.past_cons]

theorem follow_stuck (haway : state ≠ entry) (hstuck : ∀ c, m.transition? state c = none)
    (lexeme : List Char) (start stop : Position) (rest : List Char) :
    follow m entry state lexeme start stop rest = ⟨state, lexeme, start, stop, rest⟩ := by
  cases rest with
  | nil => rfl
  | cons c rest => simp only [follow, hstuck c, if_neg haway]

end Traversal

/-- A lexer that reads from two slashes to the end of the line, and leaves out what it has read. -/
structure Lexer.SkipsLineComments (l : Lexer) (slash comment done : Nat) (category : String) : Prop where
  first : l.machine.transition? l.entry '/' = some slash
  second : l.machine.transition? slash '/' = some comment
  feed : l.machine.transition? comment '\n' = some done
  stuck : ∀ c, l.machine.transition? done c = none
  away : slash ≠ l.entry ∧ comment ≠ l.entry ∧ done ≠ l.entry
  accepts : l.machine.accepted? done = some category
  skips : l.preferences.skips category

theorem Lexer.SkipsLineComments.traverse_eq {l : Lexer} {slash comment done : Nat}
    {category : String} (hskips : l.SkipsLineComments slash comment done category) {body : List Char}
    (hbody : ∀ c ∈ body, l.machine.transition? comment c = some comment) (rest : List Char) :
    l.traverse (.ofText (String.ofList ('/' :: '/' :: body ++ '\n' :: rest))) =
      ⟨done, '\n' :: (body.reverse ++ ['/', '/']), .start,
        (((Position.start.advance '/').advance '/').past body).advance '\n', rest⟩ := by
  obtain ⟨hslash, hcomment, hdone⟩ := hskips.away
  rw [traverse, State.ofText, String.toList_ofList, Traversal.ofText]
  simp only [List.cons_append, Traversal.follow, hskips.first, hskips.second, if_neg hslash, if_true]
  rw [Traversal.follow_loop hcomment hbody, Traversal.follow, hskips.feed]
  simp only [if_neg hcomment]
  rw [Traversal.follow_stuck hdone hskips.stuck]

/-- A line comment leaves no trace in the tokens. -/
theorem Lexer.SkipsLineComments.contents_eq {l : Lexer} {slash comment done : Nat}
    {category : String} (hskips : l.SkipsLineComments slash comment done category) {body : List Char}
    (hbody : ∀ c ∈ body, l.machine.transition? comment c = some comment) (rest : List Char) :
    l.contents (String.ofList ('/' :: '/' :: body ++ '\n' :: rest)) =
      l.contents (String.ofList rest) := by
  have htraverse := hskips.traverse_eq hbody rest
  have hscan : (l.scan (.ofText (String.ofList ('/' :: '/' :: body ++ '\n' :: rest)))).1 =
      .token ⟨String.ofList ('\n' :: (body.reverse ++ ['/', '/'])).reverse, some category⟩ := by
    have haccepted : (l.traverse (.ofText (String.ofList ('/' :: '/' :: body ++ '\n' :: rest)))
        ).accepted? l.machine = some category := by
      rw [htraverse]
      exact hskips.accepts
    simp only [scan, haccepted, accept, if_pos hskips.skips]
    rw [htraverse]
    rfl
  apply contents_of_discards hscan hskips.skips
  rw [rest_scan, htraverse, String.toList_ofList]

/-- The tokens of a program without their places. -/
def Pipeline.contents (p : Pipeline) (tracing : Bool) (text : String) (s : State) :
    Except PipelineError (List Token) :=
  (p.processText tracing text s).1.value.map fun r => r.tokens.contents

/-- The tokens of a program are those of the text that passes. -/
theorem Pipeline.contents_eq (p : Pipeline) (tracing : Bool) (text : String) (s : State) :
    p.contents tracing text s =
      (p.lexer.contents (String.ofList (p.preprocessor.passed text.toList))).mapError
        .lexicalAnalysis := by
  rw [contents, value_processText, Lexer.contents, ← p.preprocessor.text_processText tracing text]
  cases hvalue : (p.lexer.tokenize (p.preprocessor.processText tracing text).value.text).1.value with
  | error e => rfl
  | ok stream => rfl

namespace StandardTables

theorem skipsLineComments : pipeline.lexer.SkipsLineComments 13 14 15 "Line Comment" where
  first := transition?_slash
  second := transition?_slashes
  feed := transition?_comment '\n' (by decide)
  stuck := by
    intro c
    rw [machine_lexer, transition?_lexicalMachine]
    have hnone : (lexicalRows.map Row.name).idxOf? "" = none := by decide
    have hrow : lexicalRows[15]? = some ⟨"Line Comment End", "Line Comment", nowhere⟩ := rfl
    simp only [hrow, Option.bind_some, nowhere, hnone, ite_self]
  away := by
    rw [entry_lexer]
    decide
  accepts := by
    rw [machine_lexer, accepted?_lexicalMachine]
    decide
  skips := by decide

theorem passed_slashes (text : List Char) :
    pipeline.preprocessor.passed ('/' :: '/' :: text) =
      '/' :: '/' :: pipeline.preprocessor.passed text := by
  rw [passed_plain (by decide) (by decide), passed_plain (by decide) (by decide)]

/-- A line comment without a directive leaves the tokens of the program after it as they are.  If there
is a directive in it, the tokens are those of the program after the part before the directive, which is
then a comment on the first line of the program. -/
theorem contents_lineComment (tracing : Bool) (state : Pipeline.State) (comment program : String)
    (hcomment : InLine comment.toList) :
    match beforeDirective? comment.toList with
    | none =>
        pipeline.contents tracing ("//" ++ comment ++ "\n" ++ program) state =
          pipeline.contents tracing program state
    | some before =>
        pipeline.contents tracing ("//" ++ comment ++ "\n" ++ program) state =
          pipeline.contents tracing ("//" ++ String.ofList before ++ program) state := by
  have htext : ("//" ++ comment ++ "\n" ++ program).toList =
      '/' :: '/' :: (comment.toList ++ '\n' :: program.toList) := by
    simp
  cases hbefore : beforeDirective? comment.toList with
  | none =>
      obtain ⟨kept, hkept, hpassed⟩ := passed_of_none hcomment hbefore
      have hloop : ∀ c ∈ kept, pipeline.lexer.machine.transition? 14 c = some 14 := by
        intro c hmem
        obtain ⟨hc, hfeed, -⟩ := hcomment c (hkept.subset hmem)
        rw [transition?_comment c hc, if_neg hfeed]
      rw [Pipeline.contents_eq, Pipeline.contents_eq, htext, passed_slashes, hpassed]
      exact congrArg (Except.mapError _) (skipsLineComments.contents_eq hloop _)
  | some before =>
      have htext' : ("//" ++ String.ofList before ++ program).toList =
          '/' :: '/' :: (before ++ program.toList) := by
        simp
      dsimp only
      rw [Pipeline.contents_eq, Pipeline.contents_eq, htext, htext', passed_slashes, passed_slashes,
        passed_of_some hcomment hbefore]

theorem contents_lineComment_question :
    InLine "?#".toList ∧ pipeline.contents false ("//" ++ "?#" ++ "\n" ++ "x") .initial =
      pipeline.contents false "x" .initial :=
  ⟨by decide, contents_lineComment false .initial "?#" "x" (by decide)⟩

/-- A comment with a directive is not invisible: its line feed goes with the directive, and a number
on the next line becomes a part of the comment. -/
theorem contents_lineComment_directive :
    InLine "#".toList ∧
      pipeline.contents false ("//" ++ "#" ++ "\n" ++ "1") .initial = .ok [⟨"//1", none⟩] ∧
      pipeline.contents false "1" .initial = .ok [⟨"1", some "Integer Literal"⟩] := by
  have hdigit : pipeline.preprocessor.passed ['1'] = ['1'] := passed_eq_self (by decide)
  have hdirective : pipeline.preprocessor.passed ['#', '\n', '1'] = ['1'] :=
    (passed_directive [] (by simp) ['1']).trans hdigit
  have hnumber := tokenize_number '1' [] (by decide) (by decide)
  have hcomment := tokenize_openComment ['1'] (by decide)
  refine ⟨by decide, ?_, ?_⟩
  · have htext : ("//" ++ "#" ++ "\n" ++ "1").toList = ['/', '/', '#', '\n', '1'] := rfl
    rw [Pipeline.contents_eq, htext, passed_slashes, hdirective, Lexer.contents, hcomment]
    rfl
  · rw [Pipeline.contents_eq, show "1".toList = ['1'] from rfl, hdigit, Lexer.contents, hnumber]
    rfl

end StandardTables

end TableLexer
