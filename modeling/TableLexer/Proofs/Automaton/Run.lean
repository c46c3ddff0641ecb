import TableLexer.Automaton.Machine
/-!
Runs of a machine along words.  A run needs a transition for every character.  Of the beginnings of
a text that have a run there is a longest one, and the run visits its first state a last time before
it ends; both notions mention transitions only, and no traversal.
-/

namespace TableLexer.Machine

/-- The state to which a word leads, if there is a transition for every character on the way. -/
def run? (m : Machine) (state : Nat) : List Char → Option Nat
  | [] => some state
  | c :: word =>
      match m.transition? state c with
      | none => none
      | some target => m.run? target word

@[simp] theorem run?_nil (m : Machine) (state : Nat) : m.run? state [] = some state := rfl

theorem run?_cons (m : Machine) (state : Nat) (c : Char) (word : List Char) :
    m.run? state (c :: word) =
      (m.transition? state c).bind fun target => m.run? target word := by
  rw [run?]
  cases m.transition? state c <;> rfl

theorem run?_append (m : Machine) (state : Nat) (first second : List Char) :
    m.run? state (first ++ second) =
      (m.run? state first).bind fun middle => m.run? middle second := by
  induction first generalizing state with
  | nil => rfl
  | cons c first ih =>
      simp only [List.cons_append, run?_cons, ih, Option.bind_assoc]

/-- A run goes on with a word exactly where the word before has led. -/
theorem run?_append_of_run? {m : Machine} {state middle : Nat} {first : List Char}
    (hfirst : m.run? state first = some middle) (second : List Char) :
    m.run? state (first ++ second) = m.run? middle second := by
  rw [run?_append, hfirst, Option.bind_some]

theorem run?_concat_of_run? {m : Machine} {state middle : Nat} {word : List Char}
    (hword : m.run? state word = some middle) (c : Char) :
    m.run? state (word ++ [c]) = m.transition? middle c := by
  rw [run?_append_of_run? hword, run?_cons]
  cases m.transition? middle c <;> rfl

/-- Characters on which a state leads to itself do not leave it. -/
theorem run?_loop {m : Machine} {state : Nat} {word : List Char}
    (hloop : ∀ c ∈ word, m.transition? state c = some state) : m.run? state word = some state := by
  induction word with
  | nil => rfl
  | cons c word ih =>
      rw [run?_cons, hloop c List.mem_cons_self, Option.bind_some]
      exact ih fun d hmem => hloop d (List.mem_cons_of_mem c hmem)

/-- `word` is the longest beginning of `text` that has a run from `state`, and it leads to
`target`. -/
structure LongestRun (m : Machine) (state : Nat) (text word : List Char) (target : Nat) :
    Prop where
  begins : word <+: text
  leads : m.run? state word = some target
  longest : ∀ other, other <+: text → (m.run? state other).isSome →
    other.length ≤ word.length

theorem LongestRun.unique {m : Machine} {state : Nat} {text first second : List Char}
    {left right : Nat} (hfirst : m.LongestRun state text first left)
    (hsecond : m.LongestRun state text second right) : first = second ∧ left = right := by
  have hle : first.length ≤ second.length :=
    hsecond.longest first hfirst.begins (by simp [hfirst.leads])
  have hge : second.length ≤ first.length :=
    hfirst.longest second hsecond.begins (by simp [hsecond.leads])
  have hword : first = second :=
    (List.prefix_of_prefix_length_le hfirst.begins hsecond.begins hle).eq_of_length_le hge
  refine ⟨hword, ?_⟩
  have hleads := hfirst.leads
  rw [hword, hsecond.leads] at hleads
  exact (Option.some.inj hleads).symm

/-- A run that stops at the end of the text, or before a character without a transition, is the
longest one. -/
theorem LongestRun.of_stuck {m : Machine} {state target : Nat} {word rest : List Char}
    (hleads : m.run? state word = some target)
    (hstuck : ∀ c tail, rest = c :: tail → m.transition? target c = none) :
    m.LongestRun state (word ++ rest) word target := by
  refine ⟨List.prefix_append word rest, hleads, ?_⟩
  intro other hother hrun
  apply Nat.le_of_not_lt
  intro hlonger
  obtain ⟨more, hmore⟩ : word <+: other :=
    List.prefix_of_prefix_length_le (List.prefix_append word rest) hother (by omega)
  subst hmore
  cases more with
  | nil => simp at hlonger
  | cons c more =>
      have hrest : c :: more <+: rest := (List.prefix_append_right_inj word).mp hother
      obtain ⟨tail, htail⟩ := hrest
      have hnone := hstuck c (more ++ tail) htail.symm
      rw [run?_append_of_run? hleads, run?_cons, hnone] at hrun
      simp at hrun

/-- The character that the longest run leaves has no transition. -/
theorem LongestRun.stuck {m : Machine} {state target : Nat} {word rest : List Char} {c : Char}
    (hrun : m.LongestRun state (word ++ c :: rest) word target) :
    m.transition? target c = none := by
  cases hgoes : m.transition? target c with
  | none => rfl
  | some next =>
      have hlonger : m.run? state (word ++ [c]) = some next := by
        rw [run?_concat_of_run? hrun.leads, hgoes]
      have hbegins : word ++ [c] <+: word ++ c :: rest := ⟨rest, by simp⟩
      have hle := hrun.longest _ hbegins (by simp [hlonger])
      rw [List.length_append, List.length_singleton] at hle
      exact absurd hle (Nat.not_succ_le_self _)

/-- A run does not get past a character without transitions. -/
theorem prefix_of_isSome_run? {m : Machine} {state : Nat} {text rest word : List Char} {c : Char}
    (hforeign : ∀ i, m.transition? i c = none) (hword : word <+: text ++ c :: rest)
    (hrun : (m.run? state word).isSome) : word <+: text := by
  rcases List.prefix_or_prefix_of_prefix hword (List.prefix_append text (c :: rest)) with
    hinside | ⟨more, rfl⟩
  · exact hinside
  · cases more with
    | nil => simp
    | cons d more =>
        obtain ⟨rfl, -⟩ := List.cons_prefix_cons.mp ((List.prefix_append_right_inj text).mp hword)
        rw [run?_append] at hrun
        simp [run?_cons, hforeign] at hrun

/-- For a run, a text ends before a character without transitions. -/
theorem LongestRun.append_foreign {m : Machine} {state target : Nat} {text word : List Char}
    {c : Char} (hrun : m.LongestRun state text word target)
    (hforeign : ∀ i, m.transition? i c = none) (rest : List Char) :
    m.LongestRun state (text ++ c :: rest) word target where
  begins := hrun.begins.trans (List.prefix_append text (c :: rest))
  leads := hrun.leads
  longest other hother hsome :=
    hrun.longest other (prefix_of_isSome_run? hforeign hother hsome) hsome

/-- A word from which the run does not come back to `home` before its end. -/
def Away (m : Machine) (home : Nat) (word : List Char) : Prop :=
  ∀ first, first <+: word → first ≠ [] → first ≠ word → m.run? home first ≠ some home

theorem away_nil (m : Machine) (home : Nat) : m.Away home [] := by
  intro first hfirst hne
  exact absurd (List.prefix_nil.mp hfirst) hne

theorem away_singleton (m : Machine) (home : Nat) (c : Char) : m.Away home [c] := by
  intro first hfirst hne hproper
  have hconcat : first <+: [] ++ [c] := hfirst
  rcases List.prefix_concat_iff.mp hconcat with heq | hnil
  · exact absurd heq hproper
  · exact absurd (List.prefix_nil.mp hnil) hne

/-- One more character keeps a word away from home, unless the word has led home. -/
theorem Away.concat {m : Machine} {home state : Nat} {word : List Char}
    (haway : m.Away home word) (hleads : m.run? home word = some state) (hstate : state ≠ home)
    (c : Char) : m.Away home (word ++ [c]) := by
  intro first hfirst hne hproper
  rcases List.prefix_concat_iff.mp hfirst with heq | hfirst
  · exact absurd heq hproper
  · by_cases hword : first = word
    · rw [hword, hleads]
      exact fun h => hstate (Option.some.inj h)
    · exact haway first hfirst hne hword

/-- Away from home, characters on which a state leads to itself stay away. -/
theorem Away.append_loop {m : Machine} {home state : Nat} {word body : List Char}
    (haway : m.Away home word) (hleads : m.run? home word = some state) (hstate : state ≠ home)
    (hloop : ∀ c ∈ body, m.transition? state c = some state) : m.Away home (word ++ body) := by
  induction body generalizing word with
  | nil => simpa using haway
  | cons c body ih =>
      have hstay : m.run? home (word ++ [c]) = some state := by
        rw [run?_concat_of_run? hleads, hloop c List.mem_cons_self]
      rw [List.append_cons]
      exact ih (haway.concat hleads hstate c) hstay
        fun d hmem => hloop d (List.mem_cons_of_mem c hmem)

/-- `trip` is the part of `word` up to the last visit to `home` that is not the end of the word:
what a run from `home` has read when it leaves `home` for the last time. -/
structure LastVisit (m : Machine) (home : Nat) (word trip : List Char) : Prop where
  begins : trip <+: word
  leaves : trip ≠ word
  returns : m.run? home trip = some home
  last : ∀ other, other <+: word → other ≠ word → m.run? home other = some home →
    other.length ≤ trip.length

theorem LastVisit.unique {m : Machine} {home : Nat} {word first second : List Char}
    (hfirst : m.LastVisit home word first) (hsecond : m.LastVisit home word second) :
    first = second := by
  have hle := hsecond.last first hfirst.begins hfirst.leaves hfirst.returns
  have hge := hfirst.last second hsecond.begins hsecond.leaves hsecond.returns
  exact (List.prefix_of_prefix_length_le hfirst.begins hsecond.begins hle).eq_of_length_le hge

theorem LastVisit.of_away {m : Machine} {home : Nat} {trip lexeme : List Char}
    (hreturns : m.run? home trip = some home) (hlexeme : lexeme ≠ [])
    (haway : m.Away home lexeme) : m.LastVisit home (trip ++ lexeme) trip := by
  refine ⟨List.prefix_append trip lexeme, by simpa using hlexeme, hreturns, ?_⟩
  intro other hother hproper hhome
  apply Nat.le_of_not_lt
  intro hlonger
  obtain ⟨more, hmore⟩ : trip <+: other :=
    List.prefix_of_prefix_length_le (List.prefix_append trip lexeme) hother (by omega)
  subst hmore
  have hmore : more <+: lexeme := (List.prefix_append_right_inj trip).mp hother
  have hne : more ≠ [] := by
    rintro rfl
    simp at hlonger
  rw [run?_append_of_run? hreturns] at hhome
  exact haway more hmore hne (fun heq => hproper (by rw [heq])) hhome

/-- Something comes after the last visit. -/
theorem LastVisit.ne_nil {m : Machine} {home : Nat} {word trip lexeme : List Char}
    (hvisit : m.LastVisit home word trip) (hsplit : word = trip ++ lexeme) : lexeme ≠ [] := by
  rintro rfl
  exact hvisit.leaves (hsplit.trans (List.append_nil trip)).symm

/-- What comes after the last visit does not lead home again before its end. -/
theorem LastVisit.away {m : Machine} {home : Nat} {trip lexeme : List Char}
    (hvisit : m.LastVisit home (trip ++ lexeme) trip) : m.Away home lexeme := by
  intro first hfirst hne hproper hhome
  have hbegins : trip ++ first <+: trip ++ lexeme := (List.prefix_append_right_inj trip).mpr hfirst
  have hleaves : trip ++ first ≠ trip ++ lexeme := fun heq => hproper (List.append_cancel_left heq)
  have hlater : m.run? home (trip ++ first) = some home := by
    rw [run?_append_of_run? hvisit.returns, hhome]
  have hle := hvisit.last _ hbegins hleaves hlater
  have hpos := List.length_pos_iff.mpr hne
  rw [List.length_append] at hle
  omega

end TableLexer.Machine
