import TableLexer.Proofs.Origins
/-!
Pipelines that are used again.  A pipeline keeps the states of both passes between its programs, and
nothing of them is seen by the next program: each one replaces what both passes had to do, and no
program is open in between.
-/

namespace TableLexer.Pipeline

/-- A program that a pipeline is given: a text, or a file with the answer of the file system about its
path. -/
inductive Program where
  | text (tracing : Bool) (text : String)
  | file (tracing : Bool) (path : Path) (answer : FileAnswer)

def process (p : Pipeline) (s : State) : Program → Logged (Except PipelineError Result) × State
  | .text tracing text => p.processText tracing text s
  | .file tracing path answer => p.processFile tracing path answer s

def after (p : Pipeline) (programs : List Program) : State :=
  programs.foldl (fun s program => (p.process s program).2) .initial

theorem after_concat (p : Pipeline) (programs : List Program) (program : Program) :
    p.after (programs ++ [program]) = (p.process (p.after programs) program).2 := by
  rw [after, List.foldl_concat, after]

/-- An open program is closed in the end, and the lexer has read the text that passed. -/
theorem state_processOpen (p : Pipeline) (tracing : Bool) (source : String) {text : String}
    {s : State} (hopen : s.preprocessor = .ofText text) :
    (p.processOpen tracing source s).2 =
      ⟨.closed, (p.lexer.tokenize (p.preprocessor.processText tracing text).value.text).2⟩ := by
  rw [processOpen, hopen, Preprocessor.process]
  simp only [Preprocessor.State.ofText, Logged.map]
  cases (p.lexer.tokenize (p.preprocessor.processText tracing text).value.text).1.value with
  | error e => rfl
  | ok tokens => rfl

/-- A text leaves nothing of the state in which the pipeline was. -/
theorem processText_eq_initial (p : Pipeline) (tracing : Bool) (text : String) (s : State) :
    p.processText tracing text s = p.processText tracing text .initial := rfl

/-- A file that can be read is a text under another name. -/
theorem processFile_of_load (p : Pipeline) (tracing : Bool) {path : Path} {answer : FileAnswer}
    {file : ProgramFile} (s : State)
    (hload : (ProgramFile.load p.preprocessor.files path answer).value = .ok file) :
    (p.processFile tracing path answer s).1.value = (p.processText tracing file.source s).1.value ∧
      (p.processFile tracing path answer s).2 = (p.processText tracing file.source s).2 := by
  have hopen : p.preprocessor.openFile s.preprocessor path answer =
      (⟨.ok (), (ProgramFile.load p.preprocessor.files path answer).notices⟩,
        .ofText file.source) := by
    rw [Preprocessor.openFile, hload]
  rw [processFile, hopen]
  constructor
  · rw [processText, value_processOpen p tracing _ rfl, value_processOpen p tracing _ rfl]
  · rw [processText, state_processOpen p tracing _ rfl, state_processOpen p tracing _ rfl]

/-- A file that cannot be read changes nothing. -/
theorem state_processFile_of_error (p : Pipeline) (tracing : Bool) {path : Path}
    {answer : FileAnswer} {e : FileError} (s : State)
    (hload : (ProgramFile.load p.preprocessor.files path answer).value = .error e) :
    (p.processFile tracing path answer s).2 = s := by
  rw [processFile, Preprocessor.openFile, hload]

/-- If no program is open, none is open after the next one, whatever became of it. -/
theorem closed_process (p : Pipeline) {s : State} (hclosed : s.preprocessor = .closed)
    (program : Program) : (p.process s program).2.preprocessor = .closed := by
  cases program with
  | text tracing text =>
      rw [process, processText, state_processOpen p tracing _ rfl]
  | file tracing path answer =>
      rw [process]
      cases hload : (ProgramFile.load p.preprocessor.files path answer).value with
      | error e => rw [p.state_processFile_of_error tracing s hload, hclosed]
      | ok file =>
          rw [(p.processFile_of_load tracing s hload).2, processText,
            state_processOpen p tracing _ rfl]

/-- No program is open between programs. -/
theorem closed_after (p : Pipeline) (programs : List Program) :
    (p.after programs).preprocessor = .closed := by
  induction programs using List.reverseRecOn with
  | nil => rfl
  | append_singleton programs program ih =>
      rw [after_concat]
      exact p.closed_process ih program

/-- A pipeline that was used before is as good as a new one: what a text gives, what is said about it and
where it leaves both passes is what it is for a new pipeline.  The lexer reads the response of the
preprocessor, which always gives one, so only the lexer's error can come out.  A file that is read
gives what its source gives, and whatever becomes of a program, none is open after it. -/
theorem process_after (p : Pipeline) (programs : List Program) (tracing : Bool) (text : String) :
    p.process (p.after programs) (.text tracing text) = p.process .initial (.text tracing text) ∧
    (∃ response, (p.preprocessor.process tracing (.ofText text)).1.value = .ok response ∧
      (p.process (p.after programs) (.text tracing text)).1.value =
        match (p.lexer.tokenize response.text).1.value with
        | .error e => .error (.lexicalAnalysis e)
        | .ok tokens => .ok ⟨response, tokens, (p.lexer.tokenize response.text).2.metrics⟩) ∧
    (∀ e, (p.process (p.after programs) (.text tracing text)).1.value ≠
      .error (.preprocessing e)) ∧
    (∀ program, (p.process (p.after programs) program).2.preprocessor = .closed) ∧
    (∀ path answer file, (ProgramFile.load p.preprocessor.files path answer).value = .ok file →
      file.source = text →
      (p.process (p.after programs) (.file tracing path answer)).1.value =
        (p.process (p.after programs) (.text tracing text)).1.value ∧
      (p.process (p.after programs) (.file tracing path answer)).2 =
        (p.process (p.after programs) (.text tracing text)).2) := by
  have hvalue := p.value_processText tracing text (p.after programs)
  refine ⟨p.processText_eq_initial tracing text _, ⟨_, rfl, hvalue⟩, ?_,
    p.closed_process (p.closed_after programs), ?_⟩
  · intro e herror
    rw [process, hvalue] at herror
    split at herror <;> simp at herror
  · rintro path answer file hload rfl
    exact p.processFile_of_load tracing _ hload

end TableLexer.Pipeline
