import TableLexer.Proofs.StandardLexer
import TableLexer.Proofs.StandardPreprocessor
/-!
Places in a program that goes through both passes.  The preprocessor reads the program, and its warnings
and errors cover their lexemes there.  The lexer reads the text that passes, and its tokens cover their
lexemes in that text: where a token stands in the program is told by the origin of its first character,
which is the place of the token if and only if nothing before it was dropped.
-/

namespace TableLexer

/-- The characters of a word that begins at a place, each with its own place. -/
def Position.placed (p : Position) : List Char → List (Char × Position)
  | [] => []
  | c :: word => (c, p) :: (p.advance c).placed word

namespace Position

theorem placed_append (p : Position) (first second : List Char) :
    p.placed (first ++ second) = p.placed first ++ (p.past first).placed second := by
  induction first generalizing p with
  | nil => rfl
  | cons c first ih => rw [List.cons_append, placed, ih, placed, past_cons, List.cons_append]

@[simp] theorem map_fst_placed (p : Position) (word : List Char) :
    (p.placed word).map Prod.fst = word := by
  induction word generalizing p with
  | nil => rfl
  | cons c word ih => rw [placed, List.map_cons, ih]

/-- A character of a word has the place to which the word before it leads. -/
theorem eq_of_placed_eq {p origin : Position} {c : Char} {word : List Char}
    {before after : List (Char × Position)} (hplaced : p.placed word = before ++ (c, origin) :: after) :
    origin = p.past (before.map Prod.fst) := by
  induction before generalizing p word with
  | nil =>
      cases word with
      | nil => simp [placed] at hplaced
      | cons d word =>
          obtain ⟨hhead, -⟩ := List.cons.inj hplaced
          exact (Prod.mk.inj hhead).2.symm
  | cons first before ih =>
      cases word with
      | nil => simp [placed] at hplaced
      | cons d word =>
          obtain ⟨rfl, htail⟩ := List.cons.inj hplaced
          exact ih htail

end Position

namespace Preprocessor

/-- The origins of a text that passes: its characters, each with its place in the program. -/
def origins (p : Preprocessor) (text : String) : List (Char × Position) :=
  (ofRole p.preferences .passed (p.machine.segments p.entry text)).flatMap fun t =>
    t.span.start.placed t.value.lexeme.toList

theorem map_fst_origins (p : Preprocessor) (tracing : Bool) (text : String) :
    (p.origins text).map Prod.fst = (p.processText tracing text).value.text.toList := by
  have htext := toList_text_respond p.preferences (p.machine.segments p.entry text)
  rw [charactersOf] at htext
  rw [origins, List.map_flatMap]
  simp only [Position.map_fst_placed]
  exact htext.symm

theorem placed_sublist (p : Preprocessor) (place : Position) (words : List (List Char)) :
    ((ofRole p.preferences .passed (p.machine.segmentTokens p.entry place words)).flatMap fun t =>
      t.span.start.placed t.value.lexeme.toList).Sublist (place.placed words.flatten) := by
  induction words generalizing place with
  | nil => exact .slnil
  | cons word words ih =>
      rw [List.flatten_cons, Position.placed_append, Machine.segmentTokens, ofRole,
        List.filter_cons]
      split
      · have hword : (Machine.segmentToken p.machine p.entry place word).value.lexeme.toList = word :=
          String.toList_ofList
        rw [List.flatMap_cons, hword]
        exact (List.Sublist.refl _).append (ih (place.past word))
      · exact (ih (place.past word)).trans (List.sublist_append_right _ _)

/-- The origins are, in order, some of the characters of the program with their places. -/
theorem origins_sublist (p : Preprocessor) (text : String) :
    (p.origins text).Sublist (Position.start.placed text.toList) := by
  obtain ⟨words, hcut, hsegments⟩ := p.machine.exists_cut_segments p.entry text
  rw [origins, hsegments, ← hcut.flatten_eq]
  exact p.placed_sublist .start words

/-- Before the origin of a character stand, in the program, the characters that pass before it. -/
theorem origin_of_getElem? {p : Preprocessor} {text : String} {k : Nat} {c : Char}
    {origin : Position} (horigin : (p.origins text)[k]? = some (c, origin)) :
    ∃ before after, text.toList = before ++ c :: after ∧ origin = Position.start.past before ∧
      (((p.origins text).take k).map Prod.fst).Sublist before := by
  obtain ⟨hlt, hget⟩ := List.getElem?_eq_some_iff.mp horigin
  have hsublist := p.origins_sublist text
  rw [← List.take_append_drop k (p.origins text), List.drop_eq_getElem_cons hlt, hget,
    List.append_sublist_iff] at hsublist
  obtain ⟨first, second, hplaced, hfirst, hsecond⟩ := hsublist
  obtain ⟨third, fourth, rfl, hmem, -⟩ := List.cons_sublist_iff.mp hsecond
  obtain ⟨left, right, rfl⟩ := List.append_of_mem hmem
  have hsplit : Position.start.placed text.toList =
      (first ++ left) ++ (c, origin) :: (right ++ fourth) := by
    rw [hplaced]
    simp
  have htext := congrArg (List.map Prod.fst) hsplit
  rw [Position.map_fst_placed, List.map_append, List.map_cons] at htext
  exact ⟨_, _, htext, Position.eq_of_placed_eq hsplit,
    (hfirst.trans (List.sublist_append_left first left)).map Prod.fst⟩

/-- The first character of a token of the text that passes has its origin in the program.  The token
begins at the place of this origin if and only if what stands there before it is what passes before it. -/
theorem exists_origin_of_covers {p : Preprocessor} {tracing : Bool} {text : String}
    {t : Located Token} (hcovers : t.Covers .start (p.processText tracing text).value.text.toList)
    (hne : t.value.lexeme.toList ≠ []) :
    ∃ before c after, text.toList = before ++ c :: after ∧
      (p.origins text)[t.span.start.offset]? = some (c, Position.start.past before) ∧
      t.value.lexeme.toList.head? = some c ∧
      (t.span.start = Position.start.past before ↔
        before = (p.processText tracing text).value.text.toList.take t.span.start.offset) := by
  obtain ⟨passed, after, htext, hspan⟩ := hcovers
  obtain ⟨c, lexeme, hlexeme⟩ := List.exists_cons_of_ne_nil hne
  have horigins := p.map_fst_origins tracing text
  rw [htext] at horigins
  have hstart : t.span.start = Position.start.past passed := by rw [hspan]
  have hoffset : t.span.start.offset = passed.length := by
    rw [hstart, Position.offset_past, Position.start, Nat.zero_add]
  have hfirst : ((p.origins text).map Prod.fst)[passed.length]? = some c := by
    rw [horigins, hlexeme]
    simp
  rw [List.getElem?_map, Option.map_eq_some_iff] at hfirst
  obtain ⟨⟨d, origin⟩, horigin, rfl⟩ := hfirst
  obtain ⟨before, rest, hsource, rfl, hsublist⟩ := origin_of_getElem? horigin
  have htake : (passed ++ t.value.lexeme.toList ++ after).take passed.length = passed := by
    rw [List.append_assoc, List.take_left]
  rw [List.map_take, horigins, htake] at hsublist
  refine ⟨before, d, rest, hsource, hoffset ▸ horigin, by rw [hlexeme]; rfl, ?_⟩
  rw [htext, hoffset, htake, hstart]
  constructor
  · -- What passes before the origin is a part of what stands there, and offsets count both.
    intro hplace
    have hlength := congrArg Position.offset hplace
    rw [Position.offset_past, Position.offset_past] at hlength
    exact (hsublist.eq_of_length (by omega)).symm
  · rintro rfl
    rfl

end Preprocessor

namespace Pipeline

/-- What an open program gives: the preprocessor reads the program, and the lexer the text that passes. -/
theorem value_processOpen (p : Pipeline) (tracing : Bool) (source : String) {text : String}
    {s : State} (hopen : s.preprocessor = .ofText text) :
    (p.processOpen tracing source s).1.value =
      match (p.lexer.tokenize (p.preprocessor.processText tracing text).value.text).1.value with
      | .error e => .error (.lexicalAnalysis e)
      | .ok tokens => .ok ⟨(p.preprocessor.processText tracing text).value, tokens,
          (p.lexer.tokenize (p.preprocessor.processText tracing text).value.text).2.metrics⟩ := by
  rw [processOpen, hopen, Preprocessor.process]
  simp only [Preprocessor.State.ofText, Logged.map]
  cases (p.lexer.tokenize (p.preprocessor.processText tracing text).value.text).1.value with
  | error e => rfl
  | ok tokens => rfl

theorem value_processText (p : Pipeline) (tracing : Bool) (text : String) (s : State) :
    (p.processText tracing text s).1.value =
      match (p.lexer.tokenize (p.preprocessor.processText tracing text).value.text).1.value with
      | .error e => .error (.lexicalAnalysis e)
      | .ok tokens => .ok ⟨(p.preprocessor.processText tracing text).value, tokens,
          (p.lexer.tokenize (p.preprocessor.processText tracing text).value.text).2.metrics⟩ :=
  p.value_processOpen tracing "<source>" rfl

theorem of_processText {p : Pipeline} {tracing : Bool} {text : String} {s : State} {r : Result}
    (hok : (p.processText tracing text s).1.value = .ok r) :
    r.response = (p.preprocessor.processText tracing text).value ∧
      (p.lexer.tokenize r.response.text).1.value = .ok r.tokens := by
  rw [value_processText] at hok
  cases htokens : (p.lexer.tokenize (p.preprocessor.processText tracing text).value.text).1.value with
  | error e => simp [htokens] at hok
  | ok tokens =>
      rw [htokens] at hok
      obtain rfl := Except.ok.inj hok
      exact ⟨rfl, htokens⟩

theorem exists_of_tokenize {p : Pipeline} {text : String} {tokens : TokenStream}
    (htokens : (p.lexer.tokenize (String.ofList (p.preprocessor.passed text.toList))).1.value =
      .ok tokens) (tracing : Bool) (s : State) :
    ∃ r, (p.processText tracing text s).1.value = .ok r ∧ r.tokens = tokens := by
  rw [← p.preprocessor.text_processText tracing text] at htokens
  rw [value_processText, htokens]
  exact ⟨_, rfl, rfl⟩

end Pipeline

/-- A number after a directive is at the start of the text that passes. -/
theorem StandardTables.exists_number_after_directive (body : List Char) (c : Char)
    (digits : List Char) (hbody : ∀ d ∈ body, d ∈ symbols ∧ d ≠ '\n')
    (hdigits : ∀ d ∈ c :: digits, d ∈ symbols ∧ d.isDigit)
    (hshort : (c :: digits).length ≤ limits.lexemeLength) (tracing : Bool) (s : Pipeline.State) :
    ∃ r, (pipeline.processText tracing (String.ofList ('#' :: body ++ '\n' :: c :: digits)) s
        ).1.value = .ok r ∧
      r.tokens = ⟨#[⟨⟨String.ofList (c :: digits), some "Integer Literal"⟩,
        ⟨.start, Position.start.past (c :: digits)⟩⟩], 0⟩ := by
  have hplain : ∀ d ∈ c :: digits, d ∈ symbols ∧ d ≠ '#' ∧ d ≠ '?' ∧ d ≠ '\\' := by
    intro d hmem
    obtain ⟨hd, hdigit⟩ := hdigits d hmem
    exact ⟨hd, plain_of_isDigit d hd hdigit⟩
  apply Pipeline.exists_of_tokenize
  rw [String.toList_ofList, passed_directive body hbody, passed_eq_self hplain]
  exact tokenize_number c digits hdigits hshort

namespace Pipeline

/-- What the spans of a result say about the program. -/
structure Places (p : Pipeline) (text : String) (r : Result) : Prop where
  /-- Warnings and errors cover their lexemes in the program. -/
  diagnostics : ∀ t ∈ r.response.warnings ++ r.response.errors, t.Covers .start text.toList
  /-- Tokens cover their lexemes in the text that passes. -/
  tokens : ∀ t ∈ r.tokens.toList, t.Covers .start r.response.text.toList
  /-- The first character of a token has its origin in the program.  The token begins at the place of
  this origin if and only if what stands there before it is what passes before it. -/
  origins : ∀ t ∈ r.tokens.toList, ∃ before c after, text.toList = before ++ c :: after ∧
    (p.preprocessor.origins text)[t.span.start.offset]? = some (c, Position.start.past before) ∧
    t.value.lexeme.toList.head? = some c ∧
    (t.span.start = Position.start.past before ↔
      before = r.response.text.toList.take t.span.start.offset)

theorem places_of_processText {p : Pipeline} {tracing : Bool} {text : String} {s : State} {r : Result}
    (hok : (p.processText tracing text s).1.value = .ok r) : p.Places text r := by
  obtain ⟨hresponse, htokens⟩ := of_processText hok
  have hcovers := (Lexer.reading_of_tokenize htokens).covers
  rw [hresponse] at hcovers
  constructor
  · obtain ⟨words, hcut, hsegments⟩ :=
      p.preprocessor.machine.exists_cut_segments p.preprocessor.entry text
    have hanswers := Preprocessor.answers_respond hcut
    rw [← hsegments] at hanswers
    rw [hresponse]
    exact hanswers.covers
  · intro t hmem
    rw [hresponse]
    exact (hcovers t hmem).1
  · intro t hmem
    rw [hresponse]
    exact Preprocessor.exists_origin_of_covers (hcovers t hmem).1 (hcovers t hmem).2

/-- The places in a program of a directive and a number. -/
theorem places_after_directive :
    ∃ r, (StandardTables.pipeline.processText false "#\n1" .initial).1.value = .ok r ∧
      StandardTables.pipeline.Places "#\n1" r := by
  obtain ⟨r, hok, -⟩ := StandardTables.exists_number_after_directive [] '1' [] (by simp)
    (by decide) (by decide) false .initial
  exact ⟨r, hok, places_of_processText hok⟩

/-- Not every token begins at its origin: after a directive the number begins where the directive
begins in the program. -/
theorem start_ne_origin_after_directive :
    ∃ r, (StandardTables.pipeline.processText false "#\n1" .initial).1.value = .ok r ∧
      ∃ t ∈ r.tokens.toList, t.value.lexeme.toList.head? = some '1' ∧
        "#\n1".toList[t.span.start.offset]? = some '#' := by
  obtain ⟨r, hok, htokens⟩ := StandardTables.exists_number_after_directive [] '1' [] (by simp)
    (by decide) (by decide) false .initial
  refine ⟨r, hok, ⟨⟨"1", some "Integer Literal"⟩, ⟨.start, Position.start.past ['1']⟩⟩, ?_, rfl,
    rfl⟩
  rw [htokens]
  exact List.mem_singleton_self _

end Pipeline

end TableLexer
