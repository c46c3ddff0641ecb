import Mathlib.Data.List.Induction
import TableLexer.Proofs.Preprocessor.Buffer
/-!
Sessions of a preprocessor: programs are set, opened, closed and processed, in any order and as often as
wanted.  What a call gives depends on the last opening alone, and on whether the program was closed or
processed since.  This holds as well if the program is kept in a buffer with a cursor, which no call
leaves behind at the wrong place.
-/

namespace TableLexer.Preprocessor

/-- What a preprocessor can be asked for; a path comes with the answer of the file system about it. -/
inductive Call where
  | set (text : String)
  | openFile (path : Path) (answer : FileAnswer)
  | close
  | process (tracing : Bool)

def Call.isProcess : Call → Bool
  | .process _ => true
  | _ => false

inductive Reply where
  | done
  | opened (result : Except PreprocessorError Unit)
  | closed (wasOpen : Bool)
  | response (result : Except PreprocessorError Response)

/-- The text of the program that a call opens, if it opens one. -/
def opens? (p : Preprocessor) : Call → Option String
  | .set text => some text
  | .openFile path answer =>
      match (ProgramFile.load p.files path answer).value with
      | .ok file => some file.source
      | .error _ => none
  | .close => none
  | .process _ => none

theorem load_of_opens?_eq_some {p : Preprocessor} {path : Path} {answer : FileAnswer} {text : String}
    (hopens : p.opens? (.openFile path answer) = some text) :
    ∃ file, (ProgramFile.load p.files path answer).value = .ok file ∧ file.source = text := by
  rw [opens?] at hopens
  cases hload : (ProgramFile.load p.files path answer).value with
  | ok file =>
      rw [hload] at hopens
      exact ⟨file, rfl, Option.some.inj hopens⟩
  | error e =>
      rw [hload] at hopens
      exact nomatch hopens

theorem load_of_opens?_eq_none {p : Preprocessor} {path : Path} {answer : FileAnswer}
    (hopens : p.opens? (.openFile path answer) = none) :
    ∃ e, (ProgramFile.load p.files path answer).value = .error e := by
  rw [opens?] at hopens
  cases hload : (ProgramFile.load p.files path answer).value with
  | ok file =>
      rw [hload] at hopens
      exact nomatch hopens
  | error e => exact ⟨e, rfl⟩

/-- How a program is kept between calls: in a state of some kind, which each call replies from. -/
structure Keeper (σ : Type) where
  initial : σ
  isOpen : σ → Bool
  hasNext : σ → Bool
  call : σ → Call → Reply × σ

def Keeper.after {σ : Type} (keeper : Keeper σ) (calls : List Call) : σ :=
  calls.foldl (fun s c => (keeper.call s c).2) keeper.initial

theorem Keeper.after_concat {σ : Type} (keeper : Keeper σ) (calls : List Call) (c : Call) :
    keeper.after (calls ++ [c]) = (keeper.call (keeper.after calls) c).2 := by
  rw [after, List.foldl_append]
  rfl

/-- A preprocessor keeps what is still to read. -/
def keeper (p : Preprocessor) : Keeper State where
  initial := .closed
  isOpen := State.isOpen
  hasNext := State.hasNext
  call s
    | .set text => (.done, .ofText text)
    | .openFile path answer =>
        (.opened (p.openFile s path answer).1.value, (p.openFile s path answer).2)
    | .close => (.closed s.close.1, s.close.2)
    | .process tracing => (.response (p.process tracing s).1.value, (p.process tracing s).2)

/-- A preprocessor that keeps the whole program, with a cursor. -/
def bufferKeeper (p : Preprocessor) : Keeper Buffer where
  initial := .closed
  isOpen := Buffer.isOpen
  hasNext := Buffer.hasNext
  call b
    | .set text => (.done, .ofText text)
    | .openFile path answer =>
        (.opened (p.openInto b path answer).1, (p.openInto b path answer).2)
    | .close => (.closed b.close.1, b.close.2)
    | .process _ => (.response (p.processBuffer b).1, (p.processBuffer b).2)

section History

variable {p : Preprocessor} {calls : List Call} {c : Call} {text : String} {later : List Call}

/-- The last opening among some calls was of a text, and it was not closed in the calls after it. -/
def Opened (p : Preprocessor) (calls : List Call) (text : String) (later : List Call) : Prop :=
  ∃ before call, calls = before ++ call :: later ∧ p.opens? call = some text ∧
    ∀ c ∈ later, p.opens? c = none ∧ c ≠ .close

/-- A program was opened since the start or the last close. -/
def HasOpened (p : Preprocessor) (calls : List Call) : Prop :=
  ∃ before call later, calls = before ++ call :: later ∧ p.opens? call ≠ none ∧ Call.close ∉ later

theorem not_hasOpened_nil (p : Preprocessor) : ¬ p.HasOpened [] := by
  rintro ⟨before, call, later, hcalls, -⟩
  simp at hcalls

theorem hasOpened_concat_iff :
    p.HasOpened (calls ++ [c]) ↔ p.opens? c ≠ none ∨ (c ≠ .close ∧ p.HasOpened calls) := by
  constructor
  · rintro ⟨before, call, later, hcalls, hopens, hclose⟩
    rcases List.eq_nil_or_concat later with rfl | ⟨later, last, rfl⟩
    · obtain ⟨-, hlast⟩ := List.append_inj' hcalls rfl
      rw [List.singleton_inj.mp hlast]
      exact .inl hopens
    · rw [List.concat_eq_append] at hcalls hclose
      rw [← List.cons_append, ← List.append_assoc] at hcalls
      obtain ⟨hbefore, hlast⟩ := List.append_inj' hcalls rfl
      obtain rfl := List.singleton_inj.mp hlast
      rw [List.mem_append, not_or] at hclose
      refine .inr ⟨?_, before, call, later, hbefore, hopens, hclose.1⟩
      rintro rfl
      exact hclose.2 (List.mem_singleton_self _)
  · rintro (hopens | ⟨hclose, before, call, later, rfl, hopens, hlater⟩)
    · exact ⟨calls, c, [], rfl, hopens, List.not_mem_nil⟩
    · refine ⟨before, call, later ++ [c], by simp, hopens, ?_⟩
      rw [List.mem_append, List.mem_singleton]
      rintro (hmem | heq)
      · exact hlater hmem
      · exact hclose heq.symm

/-- Of the openings since the last close there is a last one. -/
theorem HasOpened.exists_opened (hopened : p.HasOpened calls) :
    ∃ text later, p.Opened calls text later := by
  induction calls using List.reverseRecOn with
  | nil => exact absurd hopened p.not_hasOpened_nil
  | append_singleton calls c ih =>
      cases hopens : p.opens? c with
      | some text => exact ⟨text, [], calls, c, rfl, hopens, by simp⟩
      | none =>
          rcases hasOpened_concat_iff.mp hopened with hne | ⟨hclose, hopened⟩
          · exact absurd hopens hne
          · obtain ⟨text, later, before, call, rfl, hcall, hlater⟩ := ih hopened
            refine ⟨text, later ++ [c], before, call, by simp, hcall, ?_⟩
            rw [List.forall_mem_append, List.forall_mem_singleton]
            exact ⟨hlater, hopens, hclose⟩

end History

/-- The law of a session, for a call after some others.  A program is open if one was opened since the
last close; without one there is no response, and nothing changes.  The first process after an opening
answers to the whole text, and every further one to no text.  An opening that fails changes nothing.
Nothing is left to read after a process, nor when no program is open. -/
structure Keeper.Lawful {σ : Type} (p : Preprocessor) (keeper : Keeper σ) (calls : List Call) :
    Prop where
  isOpen_iff : keeper.isOpen (keeper.after calls) ↔ p.HasOpened calls
  close_eq : (keeper.call (keeper.after calls) .close).1 =
    .closed (keeper.isOpen (keeper.after calls))
  process_notOpen_iff : ∀ tracing,
    (keeper.call (keeper.after calls) (.process tracing)).1 = .response (.error .notOpen) ↔
      ¬ p.HasOpened calls
  process_frame : ¬ p.HasOpened calls → ∀ tracing,
    (keeper.call (keeper.after calls) (.process tracing)).2 = keeper.after calls
  process_eq : ∀ text later, p.Opened calls text later → ∀ tracing,
    (keeper.call (keeper.after calls) (.process tracing)).1 = .response (.ok
      (if later.any Call.isProcess then .empty else (p.processText tracing text).value))
  openFile_frame : ∀ path answer e,
    (ProgramFile.load p.files path answer).value = .error e →
      keeper.call (keeper.after calls) (.openFile path answer) =
        (.opened (.error (.file e)), keeper.after calls)
  hasNext_process : ∀ tracing,
    keeper.hasNext (keeper.call (keeper.after calls) (.process tracing)).2 = false
  hasNext_closed : ¬ p.HasOpened calls → keeper.hasNext (keeper.after calls) = false

section Running

variable {p : Preprocessor} {calls : List Call} {c : Call} {text : String} {later : List Call}

/-- Where an opening leads does not depend on where it comes from. -/
theorem call_of_opens (hopens : p.opens? c = some text) (s : State) :
    (p.keeper.call s c).2 = .ofText text := by
  cases c with
  | set other => exact congrArg State.ofText (Option.some.inj hopens)
  | openFile path answer =>
      obtain ⟨file, hload, rfl⟩ := load_of_opens?_eq_some hopens
      simp only [keeper, openFile, hload]
  | close => exact nomatch hopens
  | process tracing => exact nomatch hopens

/-- A file that cannot be read changes nothing. -/
theorem call_openFile_of_error {path : Path} {answer : FileAnswer} {e : FileError}
    (hload : (ProgramFile.load p.files path answer).value = .error e) (s : State) :
    p.keeper.call s (.openFile path answer) = (.opened (.error (.file e)), s) := by
  simp only [keeper, openFile, hload]

/-- Where a program is open, a call that neither opens nor closes one has an effect only if it processes
the program. -/
theorem call_ofText (hopens : p.opens? c = none) (hclose : c ≠ .close) (text : String) :
    (p.keeper.call (.ofText text) c).2 = .ofText (if c.isProcess then "" else text) := by
  cases c with
  | set other => exact nomatch hopens
  | openFile path answer =>
      obtain ⟨e, hload⟩ := load_of_opens?_eq_none hopens
      rw [call_openFile_of_error hload]
      rfl
  | close => exact absurd rfl hclose
  | process tracing => rfl

/-- Where no program is open, a call that opens none has no effect. -/
theorem call_closed (hopens : p.opens? c = none) : (p.keeper.call .closed c).2 = .closed := by
  cases c with
  | set other => exact nomatch hopens
  | openFile path answer =>
      obtain ⟨e, hload⟩ := load_of_opens?_eq_none hopens
      rw [call_openFile_of_error hload]
  | close => rfl
  | process tracing => rfl

theorem after_of_not_hasOpened (hnone : ¬ p.HasOpened calls) : p.keeper.after calls = .closed := by
  induction calls using List.reverseRecOn with
  | nil => rfl
  | append_singleton calls c ih =>
      rw [hasOpened_concat_iff, not_or, not_not, not_and] at hnone
      obtain ⟨hopens, hrest⟩ := hnone
      rw [Keeper.after_concat]
      by_cases hclose : c = .close
      · rw [hclose]
        rfl
      · rw [ih (hrest hclose), call_closed hopens]

/-- After an opening, the program is there until it is processed, and empty from then on. -/
theorem after_of_opened (hopened : p.Opened calls text later) :
    p.keeper.after calls = .ofText (if later.any Call.isProcess then "" else text) := by
  obtain ⟨before, call, rfl, hopens, hlater⟩ := hopened
  induction later using List.reverseRecOn with
  | nil =>
      rw [Keeper.after_concat, call_of_opens hopens]
      rfl
  | append_singleton later c ih =>
      rw [List.forall_mem_append, List.forall_mem_singleton] at hlater
      obtain ⟨hlater, hc, hclose⟩ := hlater
      rw [← List.cons_append, ← List.append_assoc, Keeper.after_concat, ih hlater,
        call_ofText hc hclose, List.any_append]
      cases later.any Call.isProcess <;> cases hprocess : c.isProcess <;> simp [hprocess]

theorem processText_empty (p : Preprocessor) (tracing : Bool) :
    (p.processText tracing "").value = .empty := by
  have hsegments : p.machine.segments p.entry "" = [] := by
    rw [Machine.segments, String.toList_empty, Machine.segmentsFrom, List.reverse_nil]
  rw [processText, hsegments]
  rfl

/-- A program is open if one was opened since the last close. -/
theorem after_cases (p : Preprocessor) (calls : List Call) :
    (¬ p.HasOpened calls ∧ p.keeper.after calls = .closed) ∨
      (p.HasOpened calls ∧ ∃ text, p.keeper.after calls = .ofText text) := by
  by_cases hopened : p.HasOpened calls
  · obtain ⟨text, later, hlast⟩ := hopened.exists_opened
    exact .inr ⟨hopened, _, after_of_opened hlast⟩
  · exact .inl ⟨hopened, after_of_not_hasOpened hopened⟩

theorem lawful_keeper (p : Preprocessor) (calls : List Call) : p.keeper.Lawful p calls where
  isOpen_iff := by
    rcases p.after_cases calls with ⟨hnone, hstate⟩ | ⟨hopened, text, hstate⟩
    · rw [hstate]
      exact iff_of_false Bool.false_ne_true hnone
    · rw [hstate]
      exact iff_of_true rfl hopened
  close_eq := rfl
  process_notOpen_iff := by
    intro tracing
    rcases p.after_cases calls with ⟨hnone, hstate⟩ | ⟨hopened, text, hstate⟩
    · rw [hstate]
      exact iff_of_true rfl hnone
    · rw [hstate]
      exact iff_of_false nofun (not_not.mpr hopened)
  process_frame := by
    intro hnone tracing
    rw [after_of_not_hasOpened hnone]
    rfl
  process_eq := by
    intro text later hopened tracing
    rw [after_of_opened hopened]
    cases later.any Call.isProcess with
    | true => exact congrArg (fun r => Reply.response (.ok r)) (p.processText_empty tracing)
    | false => rfl
  openFile_frame := fun _ _ _ hload => call_openFile_of_error hload _
  hasNext_process := by
    intro tracing
    rcases p.after_cases calls with ⟨-, hstate⟩ | ⟨-, text, hstate⟩
    · rw [hstate]
      rfl
    · rw [hstate]
      rfl
  hasNext_closed := by
    intro hnone
    rw [after_of_not_hasOpened hnone]
    rfl

end Running

section Keeping

variable {p : Preprocessor} {b : Buffer} {s : State}

/-- The buffer holds what is still to read, and if that is anything, the position is the start. -/
structure Buffer.Holds (b : Buffer) (s : State) : Prop where
  unread_eq : s.unread = b.program.map fun _ => String.ofList b.rest
  fresh : b.hasNext → b.position = .start

theorem Buffer.holds_closed : Buffer.closed.Holds .closed := ⟨rfl, nofun⟩

theorem Buffer.holds_ofText (text : String) : (Buffer.ofText text).Holds (.ofText text) := by
  refine ⟨?_, fun _ => rfl⟩
  simp [State.ofText, ofText, rest]

theorem Buffer.Holds.isOpen_eq (hholds : b.Holds s) : b.isOpen = s.isOpen := by
  rw [isOpen, State.isOpen, hholds.unread_eq, Option.isSome_map]

theorem Buffer.Holds.hasNext_eq (hholds : b.Holds s) : b.hasNext = s.hasNext := by
  rw [Bool.eq_iff_iff, hasNext_iff, State.hasNext, hholds.unread_eq]
  cases hprogram : b.program with
  | none => simp [rest, hprogram]
  | some program => simp

/-- A buffer is processed like the text that it holds. -/
theorem Buffer.Holds.process (hholds : b.Holds s) (tracing : Bool) :
    (p.processBuffer b).1 = (p.process tracing s).1.value ∧
      (p.processBuffer b).2.Holds (p.process tracing s).2 := by
  cases hprogram : b.program with
  | none =>
      have hopen : ¬ b.isOpen := by simp [isOpen, hprogram]
      have hunread : s.unread = none := by rw [hholds.unread_eq, hprogram, Option.map_none]
      rw [p.processBuffer_of_not_open hopen, Preprocessor.process, hunread]
      exact ⟨rfl, hholds⟩
  | some program =>
      have hopen : b.isOpen := by simp [isOpen, hprogram]
      have hunread : s.unread = some (String.ofList b.rest) := by
        rw [hholds.unread_eq, hprogram, Option.map_some]
      obtain ⟨hsegments, hsame, hread⟩ := b.drain_eq p.machine p.entry []
      have htext : p.machine.segments p.entry (String.ofList b.rest) =
          (b.drain p.machine p.entry []).1 := by
        rw [hsegments, Machine.segments, String.toList_ofList]
        by_cases hnext : b.hasNext
        · rw [hholds.fresh hnext]
        · -- Without characters there are no segments, wherever they would begin.
          rw [rest_eq_nil_of_not_hasNext hnext, Machine.segmentsFrom, Machine.segmentsFrom]
      rw [p.processBuffer_of_open hopen, Preprocessor.process, hunread]
      refine ⟨?_, ?_, ?_⟩
      · simp only [processText, htext]
        rfl
      · rw [hread, hsame, hprogram]
        rfl
      · exact fun hnext => absurd hread ((hasNext_iff _).mp hnext)

/-- Both ways of keeping a program give the same replies, and the buffer goes on holding what is still to
read. -/
theorem Buffer.Holds.call (hholds : b.Holds s) (c : Call) :
    (p.bufferKeeper.call b c).1 = (p.keeper.call s c).1 ∧
      (p.bufferKeeper.call b c).2.Holds (p.keeper.call s c).2 := by
  cases c with
  | set text => exact ⟨rfl, holds_ofText text⟩
  | openFile path answer =>
      simp only [bufferKeeper, keeper, openInto, Preprocessor.openFile]
      cases (ProgramFile.load p.files path answer).value with
      | ok file => exact ⟨rfl, holds_ofText file.source⟩
      | error e => exact ⟨rfl, hholds⟩
  | close => exact ⟨congrArg Reply.closed hholds.isOpen_eq, holds_closed⟩
  | process tracing =>
      obtain ⟨hreply, hstate⟩ := hholds.process (p := p) tracing
      exact ⟨congrArg Reply.response hreply, hstate⟩

theorem Buffer.holds_after (p : Preprocessor) (calls : List Call) :
    (p.bufferKeeper.after calls).Holds (p.keeper.after calls) := by
  induction calls using List.reverseRecOn with
  | nil => exact holds_closed
  | append_singleton calls c ih =>
      rw [Keeper.after_concat, Keeper.after_concat]
      exact (ih.call c).2

theorem lawful_bufferKeeper (p : Preprocessor) (calls : List Call) :
    p.bufferKeeper.Lawful p calls := by
  have hlaw := p.lawful_keeper calls
  have hholds := Buffer.holds_after p calls
  have hreply := fun c => (hholds.call (p := p) c).1
  have hopen : p.bufferKeeper.isOpen (p.bufferKeeper.after calls) ↔ p.HasOpened calls := by
    rw [← hlaw.isOpen_iff]
    exact Bool.eq_iff_iff.mp hholds.isOpen_eq
  constructor
  case isOpen_iff => exact hopen
  case close_eq => rfl
  case process_notOpen_iff =>
    intro tracing
    rw [hreply]
    exact hlaw.process_notOpen_iff tracing
  case process_frame =>
    intro hnone tracing
    exact congrArg Prod.snd (p.processBuffer_of_not_open (mt hopen.mp hnone))
  case process_eq =>
    intro text later hopened tracing
    rw [hreply]
    exact hlaw.process_eq text later hopened tracing
  case openFile_frame =>
    intro path answer e hload
    simp only [bufferKeeper, openInto, hload]
  case hasNext_process =>
    intro tracing
    have hstate := (hholds.call (p := p) (.process tracing)).2
    exact hstate.hasNext_eq.trans (hlaw.hasNext_process tracing)
  case hasNext_closed =>
    intro hnone
    exact hholds.hasNext_eq.trans (hlaw.hasNext_closed hnone)

/-- Every session obeys the law, whether what is still to read is kept, or the program with a cursor. -/
theorem lawful_sessions (p : Preprocessor) (calls : List Call) :
    p.keeper.Lawful p calls ∧ p.bufferKeeper.Lawful p calls :=
  ⟨p.lawful_keeper calls, p.lawful_bufferKeeper calls⟩

end Keeping

end TableLexer.Preprocessor
