import TableLexer.Preprocessor.Segment
import TableLexer.Proofs.Place
/-!
Segmentation.  Whether reading stops after a word depends on the word alone, and a segment is the
shortest word after which it stops.  So a text is cut into segments in exactly one way, and every
segment has the span that it covers.
-/

namespace TableLexer

namespace Machine

/-- The state after a word is read from `state` on. -/
def settled (m : Machine) (state : Nat) (word : List Char) : Nat :=
  word.foldl m.settle state

theorem settled_concat (m : Machine) (state : Nat) (word : List Char) (c : Char) :
    m.settled state (word ++ [c]) = m.settle (m.settled state word) c := by
  simp [settled]

/-- Reading stops after a word: its last character led to a dead state, or had no transition from
an accepting one. -/
def Stops (m : Machine) (entry : Nat) (word : List Char) : Prop :=
  m.isDead (m.settled entry word) ∨
    ∃ before c, word = before ++ [c] ∧ m.transition? (m.settled entry before) c = none ∧
      m.isAccepting (m.settled entry before)

theorem endsSegment_iff_stops (m : Machine) (entry : Nat) (word : List Char) (c : Char) :
    m.endsSegment (m.settled entry word) c ↔ m.Stops entry (word ++ [c]) := by
  rw [Stops, settled_concat, endsSegment, Bool.or_eq_true, Bool.and_eq_true,
    Option.isNone_iff_eq_none]
  constructor
  · rintro (hstuck | hdead)
    · exact .inr ⟨word, c, rfl, hstuck⟩
    · exact .inl hdead
  · rintro (hdead | ⟨before, d, hsplit, hstuck⟩)
    · exact .inr hdead
    · obtain ⟨rfl, hlast⟩ := List.append_inj' hsplit rfl
      obtain rfl := List.singleton_inj.mp hlast
      exact .inl hstuck

/-- `word` is the first segment of `text`: the shortest non-empty beginning after which reading
stops, or the text has ended. -/
structure FirstSegment (m : Machine) (entry : Nat) (text word : List Char) : Prop where
  begins : word <+: text
  nonempty : word ≠ []
  ends : m.Stops entry word ∨ word = text
  shortest : ∀ other, other <+: text → other ≠ [] → m.Stops entry other ∨ other = text →
    word.length ≤ other.length

theorem FirstSegment.unique {m : Machine} {entry : Nat} {text first second : List Char}
    (hfirst : m.FirstSegment entry text first) (hsecond : m.FirstSegment entry text second) :
    first = second := by
  have hle := hfirst.shortest second hsecond.begins hsecond.nonempty hsecond.ends
  have hge := hsecond.shortest first hfirst.begins hfirst.nonempty hfirst.ends
  exact (List.prefix_of_prefix_length_le hfirst.begins hsecond.begins hle).eq_of_length_le hge

/-- A text is cut into its segments, one after another. -/
inductive Cut (m : Machine) (entry : Nat) : List Char → List (List Char) → Prop
  | nil : Cut m entry [] []
  | cons {text word rest : List Char} {words : List (List Char)} (hsplit : text = word ++ rest)
      (hfirst : m.FirstSegment entry text word) (hrest : Cut m entry rest words) :
      Cut m entry text (word :: words)

theorem Cut.unique {m : Machine} {entry : Nat} {text : List Char}
    {first second : List (List Char)} (hfirst : m.Cut entry text first)
    (hsecond : m.Cut entry text second) : first = second := by
  induction hfirst generalizing second with
  | nil =>
      cases hsecond with
      | nil => rfl
      | cons hsplit hword hrest => exact absurd (List.prefix_nil.mp hword.begins) hword.nonempty
  | cons hsplit hword hrest ih =>
      cases hsecond with
      | nil => exact absurd (List.prefix_nil.mp hword.begins) hword.nonempty
      | cons hsplit' hword' hrest' =>
          obtain rfl := hword.unique hword'
          rw [hsplit] at hsplit'
          obtain rfl := List.append_cancel_left hsplit'
          rw [ih hrest']

theorem Cut.flatten_eq {m : Machine} {entry : Nat} {text : List Char} {words : List (List Char)}
    (hcut : m.Cut entry text words) : words.flatten = text := by
  induction hcut with
  | nil => rfl
  | cons hsplit hword hrest ih => rw [List.flatten_cons, ih, hsplit]

/-- The token of a segment that begins at a place: its category is the one of the state in which it
has ended. -/
def segmentToken (m : Machine) (entry : Nat) (place : Position) (word : List Char) :
    Located Token :=
  ⟨⟨String.ofList word, m.accepted? (m.settled entry word)⟩, ⟨place, place.past word⟩⟩

/-- The tokens of segments that follow each other from a place on. -/
def segmentTokens (m : Machine) (entry : Nat) (place : Position) :
    List (List Char) → List (Located Token)
  | [] => []
  | word :: words =>
      m.segmentToken entry place word :: m.segmentTokens entry (place.past word) words

end Machine

namespace Segment

/-- What a segment is that was read from the text at `origin`. -/
structure Reads (m : Machine) (entry : Nat) (origin : Position) (text : List Char) (s : Segment) :
    Prop where
  splits : text = s.lexeme.reverse ++ s.rest
  category_eq : s.category = m.accepted? (m.settled entry s.lexeme.reverse)
  stop_eq : s.stop = origin.past s.lexeme.reverse
  ends : m.Stops entry s.lexeme.reverse ∨ s.rest = []
  goes_on : ∀ first, first <+: s.lexeme.reverse → first ≠ [] → first ≠ s.lexeme.reverse →
    ¬ m.Stops entry first

/-- Reading goes on through words after which it does not stop, and ends with the first one after
which it does. -/
theorem reads_read {m : Machine} {entry : Nat} {origin : Position} {text : List Char}
    (lexeme rest : List Char) (hsplit : text = lexeme.reverse ++ rest)
    (hgoes : ∀ first, first <+: lexeme.reverse → first ≠ [] → ¬ m.Stops entry first) :
    (read m (m.settled entry lexeme.reverse) lexeme (origin.past lexeme.reverse) rest).Reads
      m entry origin text := by
  induction rest generalizing lexeme with
  | nil => exact ⟨hsplit, rfl, rfl, .inr rfl, fun first hfirst hne _ => hgoes first hfirst hne⟩
  | cons c rest ih =>
      have hsettle : m.settle (m.settled entry lexeme.reverse) c =
          m.settled entry (c :: lexeme).reverse := by
        rw [List.reverse_cons, Machine.settled_concat]
      have hplace : (origin.past lexeme.reverse).advance c =
          origin.past (c :: lexeme).reverse := by
        rw [List.reverse_cons, Position.past_concat]
      have hsplit' : text = (c :: lexeme).reverse ++ rest := by simpa using hsplit
      unfold read
      rw [hsettle, hplace]
      have hends := m.endsSegment_iff_stops entry lexeme.reverse c
      rw [← List.reverse_cons] at hends
      have hproper : ∀ first, first <+: (c :: lexeme).reverse → first ≠ [] →
          first ≠ (c :: lexeme).reverse → ¬ m.Stops entry first := by
        intro first hfirst hne hproper
        rw [List.reverse_cons] at hfirst hproper
        rcases List.prefix_concat_iff.mp hfirst with heq | hfirst
        · exact absurd heq hproper
        · exact hgoes first hfirst hne
      -- The code asks whether `c` ends the segment, the invariant whether the longer word stops.
      by_cases hstops : m.Stops entry (c :: lexeme).reverse
      · rw [if_pos (hends.mpr hstops)]
        exact ⟨hsplit', rfl, rfl, .inl hstops, hproper⟩
      · rw [if_neg (fun h => hstops (hends.mp h))]
        refine ih (c :: lexeme) hsplit' ?_
        intro first hfirst hne
        by_cases heq : first = (c :: lexeme).reverse
        · rwa [heq]
        · exact hproper first hfirst hne heq

theorem Reads.firstSegment {m : Machine} {entry : Nat} {origin : Position} {text : List Char}
    {s : Segment} (hreads : s.Reads m entry origin text) (hlexeme : s.lexeme ≠ []) :
    m.FirstSegment entry text s.lexeme.reverse where
  begins := ⟨s.rest, hreads.splits.symm⟩
  nonempty := by simpa using hlexeme
  ends := by
    rcases hreads.ends with hstops | hended
    · exact .inl hstops
    · right
      rw [hreads.splits, hended, List.append_nil]
  shortest := by
    intro other hother hne hends
    apply Nat.le_of_not_lt
    intro hshorter
    have hword : s.lexeme.reverse <+: text := ⟨s.rest, hreads.splits.symm⟩
    have hfirst : other <+: s.lexeme.reverse :=
      List.prefix_of_prefix_length_le hother hword (Nat.le_of_lt hshorter)
    have hproper : other ≠ s.lexeme.reverse := by
      rintro rfl
      exact Nat.lt_irrefl _ hshorter
    rcases hends with hstops | rfl
    · exact hreads.goes_on other hfirst hne hproper hstops
    · exact absurd hword.length_le (Nat.not_le_of_lt hshorter)

end Segment

namespace Machine

/-- The segments of a text are the words of its cut, with their categories and places. -/
theorem exists_cut_segmentsFrom (m : Machine) (entry : Nat) (done : List (Located Token))
    (place : Position) (text : List Char) :
    ∃ words, m.Cut entry text words ∧
      m.segmentsFrom entry done place text = done.reverse ++ m.segmentTokens entry place words := by
  fun_induction segmentsFrom m entry done place text with
  | case1 done place => exact ⟨[], .nil, by simp [segmentTokens]⟩
  | case2 done place c rest s ih =>
      have hreads : s.Reads m entry place (c :: rest) :=
        Segment.reads_read [] (c :: rest) rfl fun first hfirst hne =>
          absurd (List.prefix_nil.mp hfirst) hne
      have hlexeme : s.lexeme ≠ [] := by
        intro hnil
        have hsplit := hreads.splits
        rw [hnil, List.reverse_nil, List.nil_append] at hsplit
        have hshorter : s.rest.length < (c :: rest).length :=
          Segment.length_rest_read_cons_lt ..
        rw [hsplit] at hshorter
        exact Nat.lt_irrefl _ hshorter
      obtain ⟨words, hcut, hsegments⟩ := ih
      refine ⟨s.lexeme.reverse :: words,
        .cons hreads.splits (hreads.firstSegment hlexeme) hcut, ?_⟩
      have htoken : s.toToken place = m.segmentToken entry place s.lexeme.reverse := by
        rw [Segment.toToken, segmentToken, hreads.category_eq, hreads.stop_eq]
      rw [hsegments, htoken, hreads.stop_eq]
      simp [segmentTokens]

/-- Every text is cut into segments in exactly one way. -/
theorem exists_cut_segments (m : Machine) (entry : Nat) (text : String) :
    ∃ words, m.Cut entry text.toList words ∧
      m.segments entry text = m.segmentTokens entry .start words := by
  obtain ⟨words, hcut, hsegments⟩ := m.exists_cut_segmentsFrom entry [] .start text.toList
  exact ⟨words, hcut, by simpa [segments] using hsegments⟩

/-- A segment has the place to which the segments before it lead. -/
theorem exists_of_mem_segmentTokens {m : Machine} {entry : Nat} {place : Position}
    {words : List (List Char)} {t : Located Token} (hmem : t ∈ m.segmentTokens entry place words) :
    ∃ before word after, words = before ++ word :: after ∧
      t = m.segmentToken entry (place.past before.flatten) word := by
  induction words generalizing place with
  | nil => simp [segmentTokens] at hmem
  | cons first words ih =>
      rcases List.mem_cons.mp hmem with rfl | hmem
      · exact ⟨[], first, words, rfl, rfl⟩
      · obtain ⟨before, word, after, rfl, rfl⟩ := ih hmem
        refine ⟨first :: before, word, after, rfl, ?_⟩
        rw [List.flatten_cons, Position.past_append]

end Machine

end TableLexer
