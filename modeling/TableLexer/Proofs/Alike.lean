import TableLexer.Preprocessor.Basic
import TableLexer.Proofs.Automaton.Soundness
import TableLexer.Proofs.Lexer.Moving
/-!
Machines that are alike.  The numbers of states are an inner matter of a machine: two machines whose
states of the same name accept the same and lead to states of the same name make the same of every
text, in a lexer as in a preprocessor.
-/

namespace TableLexer

namespace Machine

variable {m m' : Machine} {i j : Nat}

def name? (m : Machine) (id : Nat) : Option String := (m.state? id).map State.name

def targetName? (m : Machine) (id : Nat) (c : Char) : Option String :=
  (m.transition? id c).bind m.name?

/-- States of two machines that have the same name. -/
def Namesakes (m m' : Machine) (i j : Nat) : Prop :=
  ∃ name, m.name? i = some name ∧ m'.name? j = some name

/-- Machines that differ in nothing but the numbers of their states. -/
structure Alike (m m' : Machine) : Prop where
  left_sound : m.Sound
  right_sound : m'.Sound
  size_eq : m.size = m'.size
  entryName?_eq : m.entryName? = m'.entryName?
  accepted?_eq : ∀ {i j}, m.Namesakes m' i j → m.accepted? i = m'.accepted? j
  targetName?_eq : ∀ {i j}, m.Namesakes m' i j → ∀ c, m.targetName? i c = m'.targetName? j c

theorem exists_name? (hi : i < m.size) : ∃ name, m.name? i = some name := by
  obtain ⟨s, hs⟩ := exists_state? hi
  exact ⟨s.name, by rw [name?, hs, Option.map_some]⟩

theorem lt_size_of_name? {name : String} (hname : m.name? i = some name) : i < m.size := by
  obtain ⟨s, hs, -⟩ := Option.map_eq_some_iff.mp hname
  exact (Array.getElem?_eq_some_iff.mp hs).1

theorem entryName?_eq_bind (m : Machine) : m.entryName? = m.entry.bind m.name? := by
  rw [entryName?, Option.map_bind]
  rfl

/-- Numbers of the same name are both missing, or they are namesakes. -/
theorem namesakes_of_bind_eq {left right : Option Nat} (hleft : ∀ i, left = some i → i < m.size)
    (hright : ∀ j, right = some j → j < m'.size) (heq : left.bind m.name? = right.bind m'.name?) :
    (left = none ∧ right = none) ∨
      ∃ i j, left = some i ∧ right = some j ∧ m.Namesakes m' i j := by
  cases left with
  | none =>
      cases right with
      | none => exact .inl ⟨rfl, rfl⟩
      | some j =>
          obtain ⟨name, hname⟩ := exists_name? (hright j rfl)
          simp [hname] at heq
  | some i =>
      obtain ⟨name, hname⟩ := exists_name? (hleft i rfl)
      rw [Option.bind_some, hname] at heq
      obtain ⟨j, hj, hsame⟩ := Option.bind_eq_some_iff.mp heq.symm
      exact .inr ⟨i, j, rfl, hj, name, hname, hsame⟩

namespace Alike

theorem entry_cases (halike : m.Alike m') :
    (m.entry = none ∧ m'.entry = none) ∨
      ∃ i j, m.entry = some i ∧ m'.entry = some j ∧ m.Namesakes m' i j := by
  have heq := halike.entryName?_eq
  rw [entryName?_eq_bind, entryName?_eq_bind] at heq
  exact namesakes_of_bind_eq halike.left_sound.entry_lt halike.right_sound.entry_lt heq

theorem transition?_cases (halike : m.Alike m') (hstates : m.Namesakes m' i j) (c : Char) :
    (m.transition? i c = none ∧ m'.transition? j c = none) ∨
      ∃ i' j', m.transition? i c = some i' ∧ m'.transition? j c = some j' ∧
        m.Namesakes m' i' j' :=
  namesakes_of_bind_eq (halike.left_sound.target_lt i c) (halike.right_sound.target_lt j c)
    (halike.targetName?_eq hstates c)

/-- Names tell states apart in both machines. -/
theorem eq_iff (halike : m.Alike m') {i' j' : Nat} (hstates : m.Namesakes m' i j)
    (hothers : m.Namesakes m' i' j') : i = i' ↔ j = j' := by
  obtain ⟨name, hi, hj⟩ := hstates
  obtain ⟨name', hi', hj'⟩ := hothers
  constructor
  · rintro rfl
    obtain rfl := Option.some.inj (hi.symm.trans hi')
    have hid := (halike.right_sound.stateId?_iff name j).mpr hj
    have hid' := (halike.right_sound.stateId?_iff name j').mpr hj'
    exact Option.some.inj (hid.symm.trans hid')
  · rintro rfl
    obtain rfl := Option.some.inj (hj.symm.trans hj')
    have hid := (halike.left_sound.stateId?_iff name i).mpr hi
    have hid' := (halike.left_sound.stateId?_iff name i').mpr hi'
    exact Option.some.inj (hid.symm.trans hid')

theorem isDead_eq (halike : m.Alike m') (hstates : m.Namesakes m' i j) :
    m.isDead i = m'.isDead j := by
  obtain ⟨name, hi, hj⟩ := id hstates
  have hnone : ∀ c, m.transition? i c = none ↔ m'.transition? j c = none := by
    intro c
    rcases halike.transition?_cases hstates c with ⟨hleft, hright⟩ | ⟨i', j', hleft, hright, -⟩
    · simp [hleft, hright]
    · simp [hleft, hright]
  rw [Bool.eq_iff_iff, halike.left_sound.isDead_iff (lt_size_of_name? hi),
    halike.right_sound.isDead_iff (lt_size_of_name? hj)]
  exact forall_congr' hnone

/-- Alike machines follow a text through states of the same names, and read the same of it. -/
theorem follow (halike : m.Alike m') {entry entry' : Nat} (hentry : m.Namesakes m' entry entry')
    (hstates : m.Namesakes m' i j) (lexeme : List Char) (start stop : Position)
    (text : List Char) :
    ∃ reached, m.Namesakes m' (Traversal.follow m entry i lexeme start stop text).state reached ∧
      Traversal.follow m' entry' j lexeme start stop text =
        { Traversal.follow m entry i lexeme start stop text with state := reached } := by
  induction text generalizing i j lexeme start stop with
  | nil => exact ⟨j, hstates, rfl⟩
  | cons c rest ih =>
      have hhome := halike.eq_iff hstates hentry
      simp only [Traversal.follow, hhome]
      rcases halike.transition?_cases hstates c with ⟨hleft, hright⟩ | ⟨i', j', hleft, hright, htargets⟩
      · rw [hleft, hright]
        exact ⟨j, hstates, rfl⟩
      · rw [hleft, hright]
        exact ih htargets _ _ _

end Alike

end Machine

namespace Lexer

variable {l l' : Lexer}

/-- Lexers that differ in nothing but the numbers of their states. -/
structure Alike (l l' : Lexer) : Prop where
  machine : l.machine.Alike l'.machine
  entry : l.machine.Namesakes l'.machine l.entry l'.entry
  keywords_eq : l'.keywords = l.keywords
  preferences_eq : l'.preferences = l.preferences

theorem Alike.scan_eq (halike : l.Alike l') (s : State) : l'.scan s = l.scan s := by
  obtain ⟨reached, hstates, htraverse⟩ :=
    halike.machine.follow halike.entry halike.entry [] s.position s.position s.rest
  have htraverse : l'.traverse s = { l.traverse s with state := reached } := htraverse
  have hstates : l.machine.Namesakes l'.machine (l.traverse s).state reached := hstates
  have haccepted : (l'.traverse s).accepted? l'.machine = (l.traverse s).accepted? l.machine := by
    rw [htraverse, Traversal.accepted?, Traversal.accepted?, halike.machine.accepted?_eq hstates]
  have hhome := halike.machine.eq_iff hstates halike.entry
  rw [scan, scan, haccepted, htraverse]
  simp only [accept, halike.keywords_eq, halike.preferences_eq, State.after,
    Traversal.lexemeText, hhome]

theorem Alike.next_eq (halike : l.Alike l') (s : State) : l'.next s = l.next s := by
  fun_induction next l s with
  | case1 s t reached hscan hdiscards ih =>
      have hscan' : l'.scan s = (.token t, reached) := (halike.scan_eq s).trans hscan
      have hdiscards' : l'.discards t := by rwa [discards, halike.preferences_eq]
      rw [next_of_discards (congrArg Prod.fst hscan') hdiscards', hscan']
      exact ih
  | case2 s t reached hscan hkeeps =>
      have hscan' : l'.scan s = (.token t, reached) := (halike.scan_eq s).trans hscan
      have hkeeps' : ¬ l'.discards t := by rwa [discards, halike.preferences_eq]
      refine (next_of_keeps ?_).trans hscan'
      intro other hother
      rw [hscan'] at hother
      rwa [← Outcome.token.inj hother]
  | case3 s lexeme reached hscan =>
      have hscan' : l'.scan s = (.bad lexeme, reached) := (halike.scan_eq s).trans hscan
      exact (next_of_keeps (by simp [hscan'])).trans hscan'
  | case4 s reached hscan =>
      have hscan' : l'.scan s = (.none, reached) := (halike.scan_eq s).trans hscan
      exact (next_of_keeps (by simp [hscan'])).trans hscan'

theorem Alike.item_eq (halike : l.Alike l') (s : State) : l'.item s = l.item s := by
  rw [item, item, halike.next_eq]

theorem Alike.tokenizeFrom_eq (halike : l.Alike l') (s : State) (stream : TokenStream)
    (said : List Notice) : l'.tokenizeFrom s stream said = l.tokenizeFrom s stream said := by
  fun_induction tokenizeFrom l s stream said with
  | case1 s stream said hended => rw [tokenizeFrom, if_pos hended]
  | case2 s stream said hmore hfull e => rw [tokenizeFrom, if_neg hmore, if_pos hfull]
  | case3 s stream said hmore hroom reached hitem =>
      rw [← halike.item_eq] at hitem
      rw [tokenizeFrom, if_neg hmore, if_neg hroom]
      split
      next reached' hitem' => rw [(Prod.mk.inj (hitem.symm.trans hitem')).2]
      next found reached' hitem' => simp [hitem] at hitem'
  | case4 s stream said hmore hroom found reached hitem e herror =>
      rw [← halike.item_eq] at hitem
      rw [tokenizeFrom, if_neg hmore, if_neg hroom]
      split
      next reached' hitem' => simp [hitem] at hitem'
      next found' reached' hitem' =>
        obtain ⟨hfound, rfl⟩ := Prod.mk.inj (hitem.symm.trans hitem')
        obtain rfl := Option.some.inj hfound
        simp only [herror]
  | case5 s stream said hmore hroom found reached hitem hfits ih =>
      rw [← halike.item_eq] at hitem
      rw [tokenizeFrom, if_neg hmore, if_neg hroom]
      split
      next reached' hitem' => simp [hitem] at hitem'
      next found' reached' hitem' =>
        obtain ⟨hfound, rfl⟩ := Prod.mk.inj (hitem.symm.trans hitem')
        obtain rfl := Option.some.inj hfound
        simp only [hfits]
        rw [← ih, itemNotices, itemNotices, halike.preferences_eq]

theorem Alike.tokenize_eq (halike : l.Alike l') (text : String) :
    l'.tokenize text = l.tokenize text := by
  have hnotice : l'.startNotice text = l.startNotice text := by
    rw [startNotice, startNotice, halike.keywords_eq, halike.machine.size_eq]
  rw [tokenize, tokenize, hnotice, halike.tokenizeFrom_eq]

/-- Lexers with alike machines and the same tables tokenize alike, or there is no lexer. -/
theorem map_tokenize_ofTables {m m' : Machine} (halike : m.Alike m') (keywords : Keywords)
    (preferences : Preferences.Lexical) (text : String) :
    (ofTables m' keywords preferences).map (·.tokenize text) =
      (ofTables m keywords preferences).map (·.tokenize text) := by
  rw [ofTables, ofTables]
  rcases halike.entry_cases with ⟨hnone, hnone'⟩ | ⟨entry, entry', hentry, hentry', hstates⟩
  · rw [hnone, hnone']
  · rw [hentry, hentry']
    have hlexers : Alike ⟨m, entry, keywords, preferences⟩ ⟨m', entry', keywords, preferences⟩ :=
      ⟨halike, hstates, rfl, rfl⟩
    exact congrArg Except.ok (hlexers.tokenize_eq text)

end Lexer

namespace Machine.Alike

variable {m m' : Machine} {i j : Nat}

theorem settle (halike : m.Alike m') (hstates : m.Namesakes m' i j) (c : Char) :
    m.Namesakes m' (m.settle i c) (m'.settle j c) := by
  rw [Machine.settle, Machine.settle]
  rcases halike.transition?_cases hstates c with ⟨hleft, hright⟩ | ⟨i', j', hleft, hright, htargets⟩
  · rwa [hleft, hright]
  · rwa [hleft, hright]

theorem endsSegment_eq (halike : m.Alike m') (hstates : m.Namesakes m' i j) (c : Char) :
    m.endsSegment i c = m'.endsSegment j c := by
  have hnone : (m.transition? i c).isNone = (m'.transition? j c).isNone := by
    rcases halike.transition?_cases hstates c with ⟨hleft, hright⟩ | ⟨i', j', hleft, hright, -⟩
    · rw [hleft, hright]
    · rw [hleft, hright]
      rfl
  rw [endsSegment, endsSegment, hnone, isAccepting, isAccepting, halike.accepted?_eq hstates,
    halike.isDead_eq (halike.settle hstates c)]

theorem read_eq (halike : m.Alike m') (hstates : m.Namesakes m' i j) (lexeme : List Char)
    (place : Position) (text : List Char) :
    Segment.read m' j lexeme place text = Segment.read m i lexeme place text := by
  induction text generalizing i j lexeme place with
  | nil => rw [Segment.read, Segment.read, halike.accepted?_eq hstates]
  | cons c rest ih =>
      have hsettled := halike.settle hstates c
      rw [Segment.read, Segment.read, halike.endsSegment_eq hstates,
        halike.accepted?_eq hsettled, ih hsettled]

theorem segmentsFrom_eq (halike : m.Alike m') {entry entry' : Nat}
    (hentry : m.Namesakes m' entry entry') (done : List (Located Token)) (place : Position)
    (text : List Char) :
    m'.segmentsFrom entry' done place text = m.segmentsFrom entry done place text := by
  fun_induction segmentsFrom m entry done place text with
  | case1 done place => rw [segmentsFrom]
  | case2 done place c rest s ih =>
      have hsegment : Segment.read m' entry' [] place (c :: rest) = s :=
        halike.read_eq hentry [] place (c :: rest)
      rw [segmentsFrom, hsegment]
      exact ih

end Machine.Alike

/-- Preprocessors with alike machines work alike, or there is no preprocessor. -/
theorem Preprocessor.map_process_ofMachine {m m' : Machine} (halike : m.Alike m')
    (preferences : Preferences.Preprocessing) (files : Preferences.Files) (tracing : Bool)
    (s : Preprocessor.State) :
    (ofMachine m' preferences files).map (·.process tracing s) =
      (ofMachine m preferences files).map (·.process tracing s) := by
  rw [ofMachine, ofMachine]
  rcases halike.entry_cases with ⟨hnone, hnone'⟩ | ⟨entry, entry', hentry, hentry', hstates⟩
  · rw [hnone, hnone']
  · rw [hentry, hentry']
    apply congrArg Except.ok
    cases hunread : s.unread with
    | none => simp only [process, hunread]
    | some text =>
        have hsegments : m'.segments entry' text = m.segments entry text :=
          halike.segmentsFrom_eq hstates [] .start text.toList
        simp only [process, hunread, processText, hsegments]

end TableLexer
