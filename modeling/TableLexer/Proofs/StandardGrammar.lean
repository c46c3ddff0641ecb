import TableLexer.Proofs.Lexer.Categories
import TableLexer.Proofs.StandardWords
/-!
The literals of the standard lexer.  For every kind of literal the words that are accepted as it are
told without a machine: identifiers, numbers, quoted texts with escapes, and comments.  A word of such a
kind is tokenized as one token, and a comment as none.
-/

namespace TableLexer

/-- A text that is accepted as some category is one token of it, or none if the category is left
out. -/
theorem Lexer.tokenize_of_acceptsAs {l : Lexer} (hempty : l.keywords = .empty) {text category : String}
    (haccepts : l.machine.AcceptsAs l.entry text.toList category)
    (hshort : text.length ≤ limits.lexemeLength) :
    (l.tokenize text).1.value =
      .ok ⟨if l.preferences.skips category then #[]
        else #[⟨⟨text, some category⟩, ⟨.start, Position.start.past text.toList⟩⟩], 0⟩ := by
  obtain ⟨state, hrun, hstate, haccepted, haway⟩ := haccepts
  have hemitted : l.emitted state .start text.toList =
      if l.preferences.skips category then []
      else [⟨⟨text, some category⟩, ⟨.start, Position.start.past text.toList⟩⟩] := by
    rw [emitted, verdict?, haccepted, String.ofList_toList]
    simp only [hempty, Keywords.resolve_empty, Bool.or_self]
    split <;> rfl
  have hstream := tokenize_eq_emitted_of_run hrun hstate haway fun _ _ _ => hshort
  rw [String.ofList_toList, hemitted] at hstream
  rw [hstream]
  split <;> rfl

namespace StandardTables

/-- The kinds of literals. -/
inductive Literal where
  | identifier
  | integer
  | float
  | string
  | character
  | lineComment
  | blockComment
deriving DecidableEq, Repr

namespace Literal

def category : Literal → String
  | identifier => "Identifier"
  | integer => "Integer Literal"
  | float => "Float Literal"
  | string => "String Literal"
  | character => "Character Literal"
  | lineComment => "Line Comment"
  | blockComment => "Block Comment"

def isComment : Literal → Bool
  | lineComment | blockComment => true
  | _ => false

/-- The words of a kind. -/
def Matches : Literal → List Char → Prop
  | identifier, word => ∃ c rest, word = c :: rest ∧ (c.isAlpha ∨ c = '_') ∧
      ∀ d ∈ rest, d.isAlphanum ∨ d = '_'
  | integer, word => word ≠ [] ∧ ∀ d ∈ word, d.isDigit
  | float, word => ∃ whole fraction, word = whole ++ '.' :: fraction ∧ (∀ d ∈ whole, d.isDigit) ∧
      fraction ≠ [] ∧ ∀ d ∈ fraction, d.isDigit
  | string, word => ∃ items : List (List Char), (∀ item ∈ items, Item '"' item) ∧
      word = ['"'] ++ items.flatten ++ ['"']
  | character, word => ∃ item, Item '\'' item ∧ word = ['\''] ++ item ++ ['\'']
  | lineComment, word => ∃ body, (∀ c ∈ body, c ∈ symbols ∧ c ≠ '\n') ∧
      word = ['/', '/'] ++ body ++ ['\n']
  | blockComment, word => ∃ body, (∀ c ∈ body, c ∈ symbols) ∧ ¬ ['*', '/'] <:+: body ∧
      word = ['/', '*'] ++ body ++ ['*', '/']

end Literal

/-- A word is accepted as a literal if it begins with an opening character and the rest of it is read
as this literal from the state of that character on. -/
theorem acceptsAs_iff_opens (kind : Literal) (word : List Char) :
    pipeline.lexer.machine.AcceptsAs 0 word kind.category ↔
      ∃ c rest state, word = c :: rest ∧ Opens c state ∧
        pipeline.lexer.machine.category? state rest = some kind.category := by
  rw [departs_lexer.acceptsAs_iff]
  constructor
  · rintro ⟨c, rest, state, rfl, htransition, hstate, hcategory⟩
    have hliteral : kind.category ∈ literalCategories := by cases kind <;> decide
    exact ⟨c, rest, state, rfl, opens_of_transition? htransition hliteral
      (mem_prospects_of_category? hstate hcategory), hcategory⟩
  · rintro ⟨c, rest, state, rfl, hopens, hcategory⟩
    exact ⟨c, rest, state, rfl, hopens.transition?, hopens.state_ne_zero, hcategory⟩

/-- Where a literal is in prospect in one of the states only to which opening characters lead, it opens
with a character that leads there. -/
theorem acceptsAs_iff_of_first {kind : Literal} {first : Nat}
    (honly : ∀ state ∈ openStates, kind.category ∈ prospects state → state = first)
    (word : List Char) :
    pipeline.lexer.machine.AcceptsAs 0 word kind.category ↔
      ∃ c rest, word = c :: rest ∧ Opens c first ∧
        pipeline.lexer.machine.category? first rest = some kind.category := by
  rw [acceptsAs_iff_opens]
  constructor
  · rintro ⟨c, rest, state, rfl, hopens, hcategory⟩
    have hprospect := mem_prospects_of_category? hopens.state_ne_zero hcategory
    obtain rfl := honly state hopens.mem_openStates hprospect
    exact ⟨c, rest, rfl, hopens, hcategory⟩
  · rintro ⟨c, rest, rfl, hopens, hcategory⟩
    exact ⟨c, rest, first, rfl, hopens, hcategory⟩

section Kinds

variable (word : List Char)

theorem acceptsAs_identifier_iff :
    pipeline.lexer.machine.AcceptsAs 0 word Literal.identifier.category ↔
      Literal.identifier.Matches word := by
  have honly : ∀ state ∈ openStates,
      Literal.identifier.category ∈ prospects state → state = 1 := by
    decide
  rw [acceptsAs_iff_of_first honly]
  constructor
  · rintro ⟨c, rest, rfl, hopens, hrest⟩
    exact ⟨c, rest, rfl, by simpa [Opens] using hopens, category?_identifier.mp hrest⟩
  · rintro ⟨c, rest, rfl, hc, hrest⟩
    exact ⟨c, rest, rfl, by simpa [Opens] using hc, category?_identifier.mpr hrest⟩

theorem acceptsAs_integer_iff :
    pipeline.lexer.machine.AcceptsAs 0 word Literal.integer.category ↔
      Literal.integer.Matches word := by
  have honly : ∀ state ∈ openStates, Literal.integer.category ∈ prospects state → state = 2 := by
    decide
  rw [acceptsAs_iff_of_first honly]
  constructor
  · rintro ⟨c, rest, rfl, hopens, hrest⟩
    have hc : c.isDigit := by simpa [Opens] using hopens
    exact ⟨List.cons_ne_nil c rest,
      List.forall_mem_cons.mpr ⟨hc, category?_integer.mp hrest⟩⟩
  · rintro ⟨hne, hdigits⟩
    obtain ⟨c, rest, rfl⟩ := List.exists_cons_of_ne_nil hne
    obtain ⟨hc, hrest⟩ := List.forall_mem_cons.mp hdigits
    exact ⟨c, rest, rfl, by simpa [Opens] using hc, category?_integer.mpr hrest⟩

/-- A number with a fraction begins with a digit, or with its dot. -/
theorem acceptsAs_float_iff :
    pipeline.lexer.machine.AcceptsAs 0 word Literal.float.category ↔
      Literal.float.Matches word := by
  have honly : ∀ state ∈ openStates,
      Literal.float.category ∈ prospects state → state = 2 ∨ state = 5 := by
    decide
  rw [acceptsAs_iff_opens]
  constructor
  · rintro ⟨c, rest, state, rfl, hopens, hrest⟩
    have hprospect := mem_prospects_of_category? hopens.state_ne_zero hrest
    rcases honly state hopens.mem_openStates hprospect with rfl | rfl
    · obtain ⟨whole, fraction, rfl, hwhole, hfraction⟩ := category?_float.mp hrest
      have hc : c.isDigit := by simpa [Opens] using hopens
      exact ⟨c :: whole, fraction, rfl, List.forall_mem_cons.mpr ⟨hc, hwhole⟩, hfraction⟩
    · obtain rfl : c = '.' := by simpa [Opens] using hopens
      exact ⟨[], rest, rfl, nofun, (category?_fraction (by decide)).mp hrest⟩
  · rintro ⟨whole, fraction, rfl, hwhole, hfraction⟩
    cases whole with
    | nil =>
        exact ⟨'.', fraction, 5, rfl, by decide, (category?_fraction (by decide)).mpr hfraction⟩
    | cons c whole =>
        obtain ⟨hc, hwhole⟩ := List.forall_mem_cons.mp hwhole
        exact ⟨c, whole ++ '.' :: fraction, 2, rfl, by simpa [Opens] using hc,
          category?_float.mpr ⟨whole, fraction, rfl, hwhole, hfraction⟩⟩

theorem acceptsAs_string_iff :
    pipeline.lexer.machine.AcceptsAs 0 word Literal.string.category ↔
      Literal.string.Matches word := by
  have honly : ∀ state ∈ openStates, Literal.string.category ∈ prospects state → state = 6 := by
    decide
  rw [acceptsAs_iff_of_first honly]
  constructor
  · rintro ⟨c, rest, rfl, hopens, hrest⟩
    obtain rfl : c = '"' := by simpa [Opens] using hopens
    obtain ⟨items, hitems, rfl⟩ := category?_string.mp hrest
    exact ⟨items, hitems, rfl⟩
  · rintro ⟨items, hitems, rfl⟩
    exact ⟨'"', items.flatten ++ ['"'], rfl, by decide, category?_string.mpr ⟨items, hitems, rfl⟩⟩

theorem acceptsAs_character_iff :
    pipeline.lexer.machine.AcceptsAs 0 word Literal.character.category ↔
      Literal.character.Matches word := by
  have honly : ∀ state ∈ openStates,
      Literal.character.category ∈ prospects state → state = 9 := by
    decide
  rw [acceptsAs_iff_of_first honly]
  constructor
  · rintro ⟨c, rest, rfl, hopens, hrest⟩
    obtain rfl : c = '\'' := by simpa [Opens] using hopens
    obtain ⟨item, hitem, rfl⟩ := category?_character.mp hrest
    exact ⟨item, hitem, rfl⟩
  · rintro ⟨item, hitem, rfl⟩
    exact ⟨'\'', item ++ ['\''], rfl, by decide, category?_character.mpr ⟨item, hitem, rfl⟩⟩

theorem acceptsAs_lineComment_iff :
    pipeline.lexer.machine.AcceptsAs 0 word Literal.lineComment.category ↔
      Literal.lineComment.Matches word := by
  have honly : ∀ state ∈ openStates,
      Literal.lineComment.category ∈ prospects state → state = 13 := by
    decide
  rw [acceptsAs_iff_of_first honly]
  constructor
  · rintro ⟨c, rest, rfl, hopens, hrest⟩
    obtain rfl : c = '/' := by simpa [Opens] using hopens
    rcases (category?_afterSlash (by decide)).mp hrest with ⟨rest, rfl, hline⟩ | ⟨rest, -, hblock⟩
    · obtain ⟨body, hbody, rfl⟩ := category?_lineComment.mp hline
      exact ⟨body, hbody, rfl⟩
    · have hnot : Literal.lineComment.category ∉ prospects 16 := by decide
      exact absurd (mem_prospects_of_category? (by decide) hblock) hnot
  · rintro ⟨body, hbody, rfl⟩
    have hline := category?_lineComment.mpr ⟨body, hbody, rfl⟩
    exact ⟨'/', '/' :: (body ++ ['\n']), rfl, by decide,
      (category?_afterSlash (by decide)).mpr (.inl ⟨_, rfl, hline⟩)⟩

theorem acceptsAs_blockComment_iff :
    pipeline.lexer.machine.AcceptsAs 0 word Literal.blockComment.category ↔
      Literal.blockComment.Matches word := by
  have honly : ∀ state ∈ openStates,
      Literal.blockComment.category ∈ prospects state → state = 13 := by
    decide
  rw [acceptsAs_iff_of_first honly]
  constructor
  · rintro ⟨c, rest, rfl, hopens, hrest⟩
    obtain rfl : c = '/' := by simpa [Opens] using hopens
    rcases (category?_afterSlash (by decide)).mp hrest with ⟨rest, -, hline⟩ | ⟨rest, rfl, hblock⟩
    · have hnot : Literal.blockComment.category ∉ prospects 14 := by decide
      exact absurd (mem_prospects_of_category? (by decide) hline) hnot
    · obtain ⟨body, hbody, hopen, rfl⟩ := category?_blockComment.1.mp hblock
      exact ⟨body, hbody, hopen, rfl⟩
  · rintro ⟨body, hbody, hopen, rfl⟩
    have hblock := category?_blockComment.1.mpr ⟨body, hbody, hopen, rfl⟩
    exact ⟨'/', '*' :: (body ++ ['*', '/']), rfl, by decide,
      (category?_afterSlash (by decide)).mpr (.inr ⟨_, rfl, hblock⟩)⟩

end Kinds

/-- The words that are accepted as a literal are those of its kind. -/
theorem acceptsAs_iff_matches (kind : Literal) (word : List Char) :
    pipeline.lexer.machine.AcceptsAs 0 word kind.category ↔ kind.Matches word := by
  cases kind with
  | identifier => exact acceptsAs_identifier_iff word
  | integer => exact acceptsAs_integer_iff word
  | float => exact acceptsAs_float_iff word
  | string => exact acceptsAs_string_iff word
  | character => exact acceptsAs_character_iff word
  | lineComment => exact acceptsAs_lineComment_iff word
  | blockComment => exact acceptsAs_blockComment_iff word

/-- The default preferences leave out comments, and nothing else. -/
theorem skips_category (kind : Literal) :
    pipeline.lexer.preferences.skips kind.category = kind.isComment := by
  cases kind <;> decide

/-- The standard lexer accepts the words of every kind of literal as that kind, and no others.  Without
keywords, and with the default preferences, such a word that is not too long is one token that spans it,
and a comment is none. -/
theorem acceptsAs_and_tokenize_literal (kind : Literal) (text : String) :
    (pipeline.lexer.machine.AcceptsAs pipeline.lexer.entry text.toList kind.category ↔
      kind.Matches text.toList) ∧
    (kind.Matches text.toList → text.length ≤ limits.lexemeLength →
      ((pipeline.lexer.withKeywords .empty).tokenize text).1.value =
        .ok ⟨if kind.isComment then #[]
          else #[⟨⟨text, some kind.category⟩, ⟨.start, Position.start.past text.toList⟩⟩], 0⟩) := by
  refine ⟨acceptsAs_iff_matches kind text.toList, ?_⟩
  intro hmatches hshort
  have haccepts : (pipeline.lexer.withKeywords .empty).machine.AcceptsAs
      (pipeline.lexer.withKeywords .empty).entry text.toList kind.category :=
    (acceptsAs_iff_matches kind text.toList).mpr hmatches
  rw [← skips_category]
  exact Lexer.tokenize_of_acceptsAs rfl haccepts hshort

/-- A quote after a backslash does not end a string. -/
theorem tokenize_escaped_quote :
    Literal.string.Matches "\"\\\"\"".toList ∧
      ((pipeline.lexer.withKeywords .empty).tokenize "\"\\\"\"").1.value =
        .ok ⟨#[⟨⟨"\"\\\"\"", some "String Literal"⟩, ⟨⟨0, 1, 1⟩, ⟨4, 1, 5⟩⟩⟩], 0⟩ := by
  have hitem : Item '"' ['\\', '"'] := .escaped (by decide) (by decide)
  have hmatches : Literal.string.Matches "\"\\\"\"".toList :=
    ⟨[['\\', '"']], List.forall_mem_singleton.mpr hitem, by decide⟩
  have htokenize := (acceptsAs_and_tokenize_literal .string "\"\\\"\"").2 hmatches (by decide)
  have hspan : Position.start.past "\"\\\"\"".toList = ⟨4, 1, 5⟩ := by decide
  rw [hspan] at htokenize
  exact ⟨hmatches, htokenize⟩

end StandardTables

end TableLexer
