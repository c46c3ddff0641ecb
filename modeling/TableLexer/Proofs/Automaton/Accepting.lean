import TableLexer.Proofs.Automaton.Run
/-!
Accepting words.  What a word is accepted as is found character by character: after each one the rest of
the word is read from another state.  In a state that leads to itself the rest is read up to the first
character that leads elsewhere.
-/

namespace TableLexer.Machine

variable {m : Machine} {home state : Nat} {category : String}

/-- The category of the state to which a word leads. -/
def category? (m : Machine) (state : Nat) (word : List Char) : Option String :=
  (m.run? state word).bind m.accepted?

@[simp] theorem category?_nil (m : Machine) (state : Nat) :
    m.category? state [] = m.accepted? state := rfl

theorem category?_cons (m : Machine) (state : Nat) (c : Char) (word : List Char) :
    m.category? state (c :: word) =
      (m.transition? state c).bind fun target => m.category? target word := by
  rw [category?, run?_cons, Option.bind_assoc]
  rfl

theorem category?_cons_eq_some_iff {c : Char} {word : List Char} :
    m.category? state (c :: word) = some category ↔
      ∃ target, m.transition? state c = some target ∧ m.category? target word = some category := by
  rw [category?_cons, Option.bind_eq_some_iff]

theorem category?_cons_of_some {c : Char} {target : Nat} (hc : m.transition? state c = some target)
    (word : List Char) : m.category? state (c :: word) = m.category? target word := by
  rw [category?_cons, hc, Option.bind_some]

theorem category?_cons_of_none {c : Char} (hc : m.transition? state c = none) (word : List Char) :
    m.category? state (c :: word) = none := by
  rw [category?_cons, hc, Option.bind_none]

/-- A word that leads from `home`, without coming back, to a state that accepts a category. -/
def AcceptsAs (m : Machine) (home : Nat) (word : List Char) (category : String) : Prop :=
  ∃ state, m.run? home word = some state ∧ state ≠ home ∧ m.accepted? state = some category ∧
    m.Away home word

/-- No other state leads to `home`. -/
def Departs (m : Machine) (home : Nat) : Prop :=
  ∀ state c, state ≠ home → m.transition? state c ≠ some home

theorem Departs.run?_ne (hdeparts : m.Departs home) (hstate : state ≠ home) (word : List Char) :
    m.run? state word ≠ some home := by
  induction word generalizing state with
  | nil => simpa using hstate
  | cons c word ih =>
      rw [run?_cons]
      cases htarget : m.transition? state c with
      | none => simp
      | some target =>
          have htarget : target ≠ home := by
            rintro rfl
            exact hdeparts state c hstate htarget
          exact ih htarget

/-- Where no other state leads home, a word that has left stays away. -/
theorem Departs.away (hdeparts : m.Departs home) {c : Char} {first : Nat}
    (hopens : m.transition? home c = some first) (hfirst : first ≠ home) (rest : List Char) :
    m.Away home (c :: rest) := by
  intro word hword hne hproper
  cases word with
  | nil => exact absurd rfl hne
  | cons d word =>
      obtain ⟨rfl, -⟩ := List.cons_prefix_cons.mp hword
      rw [run?_cons, hopens]
      exact hdeparts.run?_ne hfirst word

/-- Such a word leaves home with its first character, and the rest of it is read from there. -/
theorem Departs.acceptsAs_iff (hdeparts : m.Departs home) (word : List Char) (category : String) :
    m.AcceptsAs home word category ↔
      ∃ c rest first, word = c :: rest ∧ m.transition? home c = some first ∧ first ≠ home ∧
        m.category? first rest = some category := by
  constructor
  · rintro ⟨state, hrun, hstate, haccepted, haway⟩
    cases word with
    | nil => exact absurd (Option.some.inj hrun).symm hstate
    | cons c rest =>
        rw [run?_cons] at hrun
        obtain ⟨first, hopens, hrest⟩ := Option.bind_eq_some_iff.mp hrun
        refine ⟨c, rest, first, rfl, hopens, ?_, by rw [category?, hrest]; exact haccepted⟩
        rintro rfl
        have hhome : m.run? first [c] = some first := by
          rw [run?_cons, hopens]
          rfl
        cases rest with
        | nil => exact hstate (Option.some.inj hrest).symm
        | cons d rest => exact haway [c] ⟨d :: rest, rfl⟩ (by simp) (by simp) hhome
  · rintro ⟨c, rest, first, rfl, hopens, hfirst, hcategory⟩
    obtain ⟨state, hrest, haccepted⟩ := Option.bind_eq_some_iff.mp hcategory
    refine ⟨state, ?_, ?_, haccepted, hdeparts.away hopens hfirst rest⟩
    · rw [run?_cons, hopens]
      exact hrest
    · rintro rfl
      exact hdeparts.run?_ne hfirst rest hrest

section Loops

variable {p : Char → Prop}

/-- What is read in a state that leads to nothing but itself. -/
theorem category?_eq_some_iff_of_loop (hloop : ∀ c, p c → m.transition? state c = some state)
    (hstop : ∀ c, ¬ p c → m.transition? state c = none) (word : List Char) :
    m.category? state word = some category ↔
      m.accepted? state = some category ∧ ∀ c ∈ word, p c := by
  induction word with
  | nil => simp
  | cons c word ih =>
      by_cases hc : p c
      · rw [category?_cons_of_some (hloop c hc), ih, List.forall_mem_cons]
        simp [hc]
      · rw [category?_cons_of_none (hstop c hc)]
        simp [hc]

/-- What is read in a state that leads to nothing. -/
theorem category?_eq_some_iff_of_dead (hdead : ∀ c, m.transition? state c = none)
    (word : List Char) :
    m.category? state word = some category ↔ m.accepted? state = some category ∧ word = [] := by
  rw [category?_eq_some_iff_of_loop (fun c => False.elim) (fun c _ => hdead c),
    List.eq_nil_iff_forall_not_mem]

/-- What is read in a state that leads to itself, and on one character elsewhere. -/
theorem category?_eq_some_iff_of_exit {exit : Char} {target : Nat}
    (hexit : m.transition? state exit = some target) (hother : ¬ p exit)
    (hloop : ∀ c, p c → m.transition? state c = some state)
    (hstop : ∀ c, c ≠ exit → ¬ p c → m.transition? state c = none) (word : List Char) :
    m.category? state word = some category ↔
      (m.accepted? state = some category ∧ ∀ c ∈ word, p c) ∨
      ∃ body rest, word = body ++ exit :: rest ∧ (∀ c ∈ body, p c) ∧
        m.category? target rest = some category := by
  induction word with
  | nil => simp
  | cons c word ih =>
      by_cases hc : p c
      · rw [category?_cons_of_some (hloop c hc), ih, List.forall_mem_cons]
        apply or_congr
        · simp [hc]
        · constructor
          · rintro ⟨body, rest, rfl, hbody, hrest⟩
            exact ⟨c :: body, rest, rfl, List.forall_mem_cons.mpr ⟨hc, hbody⟩, hrest⟩
          · rintro ⟨body, rest, hsplit, hbody, hrest⟩
            cases body with
            | nil =>
                obtain ⟨rfl, -⟩ := List.cons.inj hsplit
                exact absurd hc hother
            | cons d body =>
                obtain ⟨rfl, rfl⟩ := List.cons.inj hsplit
                exact ⟨body, rest, rfl, (List.forall_mem_cons.mp hbody).2, hrest⟩
      · have hnot : ¬ ∀ d ∈ c :: word, p d := fun hall => hc (hall c List.mem_cons_self)
        simp only [hnot, and_false, false_or]
        constructor
        · intro hcategory
          by_cases heq : c = exit
          · subst heq
            rw [category?_cons_of_some hexit] at hcategory
            exact ⟨[], word, rfl, nofun, hcategory⟩
          · rw [category?_cons_of_none (hstop c heq hc)] at hcategory
            contradiction
        · rintro ⟨body, rest, hsplit, hbody, hrest⟩
          cases body with
          | nil =>
              obtain ⟨rfl, rfl⟩ := List.cons.inj hsplit
              rwa [category?_cons_of_some hexit]
          | cons d body =>
              obtain ⟨rfl, -⟩ := List.cons.inj hsplit
              exact absurd (hbody c List.mem_cons_self) hc

end Loops

end TableLexer.Machine
