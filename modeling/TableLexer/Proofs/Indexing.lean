import TableLexer.Lexer.Basic
import TableLexer.Preprocessor.Basic
import TableLexer.Proofs.Automaton.Soundness
/-!
Looking up states by number.  Both passes stand in one state after another and ask for it by its
number.  Here are the same loops with every look-up checked, which give nothing as soon as a number is
out of range.  On a sound machine they give what the passes give, so no look-up is ever out of range.
-/

namespace TableLexer

variable {m : Machine}

/-- A state that leads on a character where it has a transition, and stays where it has none, never
leaves the range. -/
theorem Machine.Sound.settle_lt (hsound : m.Sound) {state : Nat} (hstate : state < m.size)
    (c : Char) : m.settle state c < m.size := by
  rw [Machine.settle]
  cases htarget : m.transition? state c with
  | none => exact hstate
  | some target => exact hsound.target_lt state c target htarget

namespace Traversal

/-- A traversal that looks up each state it comes to.  In a dead state it halts before it looks at the
next character. -/
def checkedFollow (m : Machine) (entry state : Nat) (lexeme : List Char) (start stop : Position) :
    List Char → Option Traversal
  | [] => (m.state? state).map fun _ => ⟨state, lexeme, start, stop, []⟩
  | c :: rest =>
      match m.state? state with
      | none => none
      | some s =>
          if s.isDead then some ⟨state, lexeme, start, stop, c :: rest⟩
          else
            let lexeme := if state = entry then [] else lexeme
            let start := if state = entry then stop else start
            match m.transition? state c with
            | none => some ⟨state, lexeme, start, stop, c :: rest⟩
            | some target =>
                checkedFollow m entry target (c :: lexeme) start (stop.advance c) rest

theorem state_follow_lt (hsound : m.Sound) (entry : Nat) {state : Nat} (hstate : state < m.size)
    (lexeme : List Char) (start stop : Position) (text : List Char) :
    (follow m entry state lexeme start stop text).state < m.size := by
  induction text generalizing state lexeme start stop with
  | nil => exact hstate
  | cons c rest ih =>
      unfold follow
      cases htarget : m.transition? state c with
      | none => exact hstate
      | some target => exact ih (hsound.target_lt state c target htarget) _ _ _

/-- Halting in dead states makes no difference: a state without destinations has no transition, and a
dead entry state is never left, so there is no lexeme to start anew. -/
theorem checkedFollow_eq (hsound : m.Sound) (entry : Nat) {state : Nat} (hstate : state < m.size)
    {lexeme : List Char} {start stop : Position} (text : List Char)
    (hfresh : m.isDead entry → state = entry ∧ lexeme = [] ∧ start = stop) :
    checkedFollow m entry state lexeme start stop text =
      some (follow m entry state lexeme start stop text) := by
  induction text generalizing state lexeme start stop with
  | nil =>
      obtain ⟨s, hs⟩ := Machine.exists_state? hstate
      rw [checkedFollow, hs, Option.map_some, follow]
  | cons c rest ih =>
      obtain ⟨s, hs⟩ := Machine.exists_state? hstate
      have hdead : m.isDead state = s.isDead := by rw [Machine.isDead, hs]
      unfold checkedFollow follow
      by_cases hhalts : s.isDead
      · have hstuck := (hsound.isDead_iff hstate).mp (hdead.trans hhalts) c
        simp only [hs, hhalts, if_true, hstuck]
        by_cases hhome : state = entry
        · obtain ⟨-, rfl, rfl⟩ := hfresh (hhome ▸ hdead.trans hhalts)
          simp
        · simp [hhome]
      · simp only [hs, hhalts]
        cases htarget : m.transition? state c with
        | none => rfl
        | some target =>
            apply ih (hsound.target_lt state c target htarget)
            intro hentry
            obtain ⟨rfl, -⟩ := hfresh hentry
            exact absurd (hdead.symm.trans hentry) hhalts

end Traversal

namespace Lexer

/-- A scan that looks up each state by its number, the last one for its category. -/
def checkedScan (l : Lexer) (s : State) : Option (Outcome × State) :=
  match Traversal.checkedFollow l.machine l.entry l.entry [] s.position s.position s.rest with
  | none => none
  | some t =>
      match l.machine.state? t.state with
      | none => none
      | some final =>
          match if t.lexeme.isEmpty then none else final.accepted with
          | some category =>
              let (token, metrics) := l.accept s.metrics t.lexemeText category
              some (.token token, { s.after t with metrics })
          | none =>
              if t.state = l.entry then some (.none, s.after t)
              else
                some (.bad t.lexemeText,
                  { s.after t with metrics := s.metrics.addBad t.lexeme.length })

/-- No look-up of a scan is out of range. -/
theorem checkedScan_eq {l : Lexer} (hsound : l.machine.Sound) (hentry : l.entry < l.machine.size)
    (s : State) : l.checkedScan s = some (l.scan s) := by
  have hfollow : Traversal.checkedFollow l.machine l.entry l.entry [] s.position s.position s.rest =
      some (l.traverse s) :=
    Traversal.checkedFollow_eq hsound l.entry hentry s.rest fun _ => ⟨rfl, rfl, rfl⟩
  obtain ⟨final, hfinal⟩ : ∃ final, l.machine.state? (l.traverse s).state = some final :=
    Machine.exists_state? (Traversal.state_follow_lt hsound _ hentry _ _ _ _)
  have haccepted : (l.traverse s).accepted? l.machine =
      if (l.traverse s).lexeme.isEmpty then none else final.accepted := by
    rw [Traversal.accepted?, Machine.accepted?, hfinal]
  simp only [checkedScan, scan, hfollow, hfinal, haccepted]
  cases if (l.traverse s).lexeme.isEmpty then none else final.accepted with
  | some category => rfl
  | none =>
      by_cases hhome : (l.traverse s).state = l.entry
      · simp only [if_pos hhome]
      · simp only [if_neg hhome]

end Lexer

namespace Segment

/-- Reading a segment with each state looked up: the one before a character, which may accept, and
the one after it, which may be dead. -/
def checkedRead (m : Machine) (state : Nat) (lexeme : List Char) (place : Position) :
    List Char → Option Segment
  | [] => (m.state? state).map fun s => ⟨lexeme, s.accepted, place, []⟩
  | c :: rest =>
      match m.state? state with
      | none => none
      | some before =>
          if (m.transition? state c).isNone && before.isAccepting then
            some ⟨c :: lexeme, before.accepted, place.advance c, rest⟩
          else
            match m.state? (m.settle state c) with
            | none => none
            | some after =>
                if after.isDead then some ⟨c :: lexeme, after.accepted, place.advance c, rest⟩
                else checkedRead m (m.settle state c) (c :: lexeme) (place.advance c) rest

/-- No look-up in reading a segment is out of range. -/
theorem checkedRead_eq (hsound : m.Sound) {state : Nat} (hstate : state < m.size)
    (lexeme : List Char) (place : Position) (text : List Char) :
    checkedRead m state lexeme place text = some (read m state lexeme place text) := by
  induction text generalizing state lexeme place with
  | nil =>
      obtain ⟨s, hs⟩ := Machine.exists_state? hstate
      simp [checkedRead, read, Machine.accepted?, hs]
  | cons c rest ih =>
      have hsettle := hsound.settle_lt hstate c
      obtain ⟨before, hbefore⟩ := Machine.exists_state? hstate
      obtain ⟨after, hafter⟩ := Machine.exists_state? hsettle
      have haccepting : m.isAccepting state = before.isAccepting := by
        rw [Machine.isAccepting, Machine.accepted?, hbefore, State.isAccepting]
      have hdead : m.isDead (m.settle state c) = after.isDead := by rw [Machine.isDead, hafter]
      unfold checkedRead read
      simp only [hbefore, hafter, Machine.endsSegment, haccepting, hdead, Machine.accepted?]
      by_cases hstuck : ((m.transition? state c).isNone && before.isAccepting) = true
      · -- Without a transition the state before the character is the one after it, too.
        have hnone := Option.isNone_iff_eq_none.mp (Bool.and_eq_true_iff.mp hstuck).1
        obtain rfl : before = after := by
          rw [Machine.settle, hnone, Option.getD_none, hbefore] at hafter
          exact Option.some.inj hafter
        simp only [hstuck, Bool.true_or, if_true]
      · simp only [hstuck, Bool.false_or]
        by_cases hends : after.isDead
        · simp only [hends, if_true]
          rfl
        · simp only [hends]
          exact ih hsettle _ _

end Segment

/-- A machine that is read from a table is sound, and stays sound however it is pointed at entry
states; a name that is no state's changes nothing.  A state of it is dead if and only if it has no
transition.  So no lexer and no preprocessor of this machine looks up a state out of range. -/
theorem Table.setEntries_parse_sound (text : String) (names : List String) :
    let m := (Table.parse text).value.machine.setEntries names
    m.Sound ∧
    (∀ i < m.size, m.isDead i ↔ ∀ c, m.transition? i c = none) ∧
    (∀ name,
      (∃ i, m.stateId? name = some i ∧ m.setEntry name = .ok { m with entry := some i } ∧
        m.setEntries [name] = { m with entry := some i }) ∨
      (m.stateId? name = none ∧ m.setEntry name = .error (.unknownState name) ∧
        m.setEntries [name] = m)) ∧
    (∀ keywords preferences l, Lexer.ofTables m keywords preferences = .ok l →
      ∀ s, l.checkedScan s = some (l.scan s)) ∧
    (∀ preferences files p, Preprocessor.ofMachine m preferences files = .ok p →
      ∀ place program, Segment.checkedRead p.machine p.entry [] place program =
        some (Segment.read p.machine p.entry [] place program)) := by
  intro m
  have hsound : m.Sound := (sound_parse text).setEntries names
  refine ⟨hsound, fun i hi => hsound.isDead_iff hi, m.setEntry_cases, ?_, ?_⟩
  · intro keywords preferences l hl s
    cases hentry : m.entry with
    | none => simp [Lexer.ofTables, hentry] at hl
    | some entry =>
        simp only [Lexer.ofTables, hentry] at hl
        obtain rfl := Except.ok.inj hl
        exact Lexer.checkedScan_eq hsound (hsound.entry_lt entry hentry) s
  · intro preferences files p hp place program
    cases hentry : m.entry with
    | none => simp [Preprocessor.ofMachine, hentry] at hp
    | some entry =>
        simp only [Preprocessor.ofMachine, hentry] at hp
        obtain rfl := Except.ok.inj hp
        exact Segment.checkedRead_eq hsound (hsound.entry_lt entry hentry) [] place program

end TableLexer
