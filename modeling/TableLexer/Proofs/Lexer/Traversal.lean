import TableLexer.Lexer.Traversal
import TableLexer.Proofs.Automaton.Run
import TableLexer.Proofs.Place
/-!
What a traversal reads.  A traversal cuts the text before it into round trips, which lead back to
the entry state, a lexeme, on which the run does not come back, and the characters still to read.
Reading one character keeps this, so it holds when the traversal halts, and where it halts shows
that trips and lexeme are the longest run.
-/

namespace TableLexer.Traversal

variable {m : Machine} {entry : Nat} {origin : Position} {text trip : List Char} {t : Traversal}

/-- The state of a traversal that began at `origin`: what it has read of `text` are the round trips
`trip` and then the lexeme. -/
structure Reads (m : Machine) (entry : Nat) (origin : Position) (text trip : List Char)
    (t : Traversal) : Prop where
  splits : text = trip ++ t.lexeme.reverse ++ t.rest
  returns : m.run? entry trip = some entry
  leads : m.run? entry t.lexeme.reverse = some t.state
  away : m.Away entry t.lexeme.reverse
  start_eq : t.start = origin.past trip
  stop_eq : t.stop = origin.past (trip ++ t.lexeme.reverse)

theorem Reads.initial (m : Machine) (entry : Nat) (origin : Position) (text : List Char) :
    Reads m entry origin text [] ⟨entry, [], origin, origin, text⟩ :=
  ⟨rfl, rfl, rfl, m.away_nil entry, rfl, rfl⟩

/-- In the entry state the lexeme so far was a round trip. -/
theorem Reads.restart (hreads : Reads m entry origin text trip t) (hhome : t.state = entry) :
    Reads m entry origin text (trip ++ t.lexeme.reverse)
      { t with lexeme := [], start := t.stop } where
  splits := by simpa using hreads.splits
  returns := by
    rw [Machine.run?_append_of_run? hreads.returns, hreads.leads, hhome]
  leads := by simp [hhome]
  away := m.away_nil entry
  start_eq := hreads.stop_eq
  stop_eq := by simpa using hreads.stop_eq

/-- Before a character is looked at, a lexeme in the entry state is started anew. -/
theorem Reads.peek (hreads : Reads m entry origin text trip t) :
    ∃ trips, Reads m entry origin text trips
      { t with
        lexeme := if t.state = entry then [] else t.lexeme
        start := if t.state = entry then t.stop else t.start } := by
  by_cases hhome : t.state = entry
  · simp only [if_pos hhome]
    exact ⟨_, hreads.restart hhome⟩
  · simp only [if_neg hhome]
    exact ⟨trip, hreads⟩

/-- One character with a transition goes into the lexeme. -/
theorem Reads.read {c : Char} {tail : List Char} {target : Nat}
    (hreads : Reads m entry origin text trip t) (hrest : t.rest = c :: tail)
    (hfresh : t.state = entry → t.lexeme = []) (htarget : m.transition? t.state c = some target) :
    Reads m entry origin text trip ⟨target, c :: t.lexeme, t.start, t.stop.advance c, tail⟩ where
  splits := by simpa [hrest] using hreads.splits
  returns := hreads.returns
  leads := by
    rw [List.reverse_cons, Machine.run?_concat_of_run? hreads.leads, htarget]
  away := by
    rw [List.reverse_cons]
    by_cases hhome : t.state = entry
    · rw [hfresh hhome]
      exact m.away_singleton entry c
    · exact hreads.away.concat hreads.leads hhome c
  start_eq := hreads.start_eq
  stop_eq := by
    rw [hreads.stop_eq, List.reverse_cons, ← List.append_assoc, Position.past_concat]

/-- Where a traversal halts: at the end of the text, or before a character without a transition,
and then the entry state has no lexeme. -/
def Halted (m : Machine) (entry : Nat) (t : Traversal) : Prop :=
  ∀ c tail, t.rest = c :: tail →
    m.transition? t.state c = none ∧ (t.state = entry → t.lexeme = [])

theorem exists_reads_follow (state : Nat) (lexeme : List Char) (start stop : Position)
    (rest : List Char) (hreads : Reads m entry origin text trip ⟨state, lexeme, start, stop, rest⟩) :
    ∃ trips, Reads m entry origin text trips (follow m entry state lexeme start stop rest) ∧
      Halted m entry (follow m entry state lexeme start stop rest) := by
  induction rest generalizing state lexeme start stop trip with
  | nil => exact ⟨trip, hreads, fun c tail h => by simp [follow] at h⟩
  | cons c rest ih =>
      obtain ⟨trips, hpeek⟩ := hreads.peek
      have hfresh : state = entry → (if state = entry then [] else lexeme) = [] :=
        fun hhome => if_pos hhome
      unfold follow
      cases htarget : m.transition? state c with
      | none =>
          refine ⟨trips, hpeek, ?_⟩
          intro d tail hrest
          obtain ⟨rfl, rfl⟩ := List.cons.inj hrest
          exact ⟨htarget, hfresh⟩
      | some target => exact ih _ _ _ _ (hpeek.read rfl hfresh htarget)

/-- The whole traversal of a text. -/
theorem exists_reads_ofText (m : Machine) (entry : Nat) (origin : Position) (text : List Char) :
    ∃ trip, Reads m entry origin text trip (ofText m entry origin text) ∧
      Halted m entry (ofText m entry origin text) :=
  exists_reads_follow entry [] origin origin text (Reads.initial m entry origin text)

/-- A traversal that has come to the end of a text has a lexeme, unless the text is empty: the
lexeme is started anew only where a character follows. -/
theorem eq_nil_of_lexeme_follow_eq_nil (m : Machine) (entry state : Nat) (lexeme : List Char)
    (start stop : Position) (rest : List Char)
    (hended : (follow m entry state lexeme start stop rest).rest = [])
    (hnil : (follow m entry state lexeme start stop rest).lexeme = []) :
    lexeme = [] ∧ rest = [] := by
  induction rest generalizing state lexeme start stop with
  | nil => exact ⟨hnil, rfl⟩
  | cons c rest ih =>
      unfold follow at hended hnil
      cases htarget : m.transition? state c with
      | none => simp [htarget] at hended
      | some target =>
          simp only [htarget] at hended hnil
          exact absurd (ih _ _ _ _ hended hnil).1 (List.cons_ne_nil _ _)

theorem accepted?_of_lexeme (hlexeme : t.lexeme ≠ []) : t.accepted? m = m.accepted? t.state := by
  simp [accepted?, hlexeme]

theorem lexeme_ne_nil_of_accepted? {category : String} (haccepted : t.accepted? m = some category) :
    t.lexeme ≠ [] := by
  intro hnil
  simp [accepted?, hnil] at haccepted

/-- What a halted traversal has read is the longest run from the entry state. -/
theorem Reads.longestRun (hreads : Reads m entry origin text trip t) (hhalted : Halted m entry t) :
    m.LongestRun entry text (trip ++ t.lexeme.reverse) t.state := by
  have hleads : m.run? entry (trip ++ t.lexeme.reverse) = some t.state := by
    rw [Machine.run?_append_of_run? hreads.returns, hreads.leads]
  rw [hreads.splits]
  exact Machine.LongestRun.of_stuck hleads fun c tail hrest => (hhalted c tail hrest).1

/-- The lexeme begins where the run leaves the entry state for the last time. -/
theorem Reads.lastVisit (hreads : Reads m entry origin text trip t) (hlexeme : t.lexeme ≠ []) :
    m.LastVisit entry (trip ++ t.lexeme.reverse) trip :=
  Machine.LastVisit.of_away hreads.returns (by simpa using hlexeme) hreads.away

/-- Only the entry state is reached without a lexeme. -/
theorem Reads.lexeme_ne_nil (hreads : Reads m entry origin text trip t) (haway : t.state ≠ entry) :
    t.lexeme ≠ [] := by
  intro hnil
  have hleads := hreads.leads
  rw [hnil] at hleads
  exact haway (Option.some.inj hleads).symm

end TableLexer.Traversal
