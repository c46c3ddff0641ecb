import TableLexer.Proofs.Lexer.Items
import TableLexer.Proofs.StandardLexer
/-!
The limit on lexemes.  Tokenizing measures a token before it takes it in, and gives up at the first good
one that is too long.  Bad tokens are not measured, so a literal or a comment without an end goes into the
stream at any length.
-/

namespace TableLexer

namespace Lexer

variable {l : Lexer} {text : String} {stream : TokenStream} {n : Nat}

def Item.isToken : Item → Bool
  | token _ => true
  | _ => false

/-- The length of the first item over the limit among those that are measured. -/
def firstLong? (measured : Item → Bool) (items : List (Located Item)) : Option Nat :=
  (items.find? fun i => measured i.value && limits.lexemeLength < i.value.toToken.length).map
    fun i => i.value.toToken.length

/-- The limit bounds the lexeme of every token, good or bad: those of a stream keep to it, and what is
given up for is the first token over it. -/
structure BoundsLexemes (l : Lexer) (text : String) : Prop where
  short : ∀ stream, (l.tokenize text).1.value = .ok stream →
    ∀ t ∈ stream.toList, t.value.length ≤ limits.lexemeLength
  long : ∀ n, (l.tokenize text).1.value = .error (.lexemeTooLong n) →
    limits.lexemeLength < n ∧ firstLong? (fun _ => true) (l.items (.ofText text)) = some n

section FirstLong

variable {measured : Item → Bool} {items : List (Located Item)}

theorem firstLong?_eq_none_iff :
    firstLong? measured items = none ↔
      ∀ i ∈ items, measured i.value → i.value.toToken.length ≤ limits.lexemeLength := by
  simp [firstLong?]

theorem lt_of_firstLong? (hfirst : firstLong? measured items = some n) : limits.lexemeLength < n := by
  obtain ⟨i, hfound, rfl⟩ := Option.map_eq_some_iff.mp hfirst
  have hlong := List.find?_some hfound
  simp only [Bool.and_eq_true, decide_eq_true_eq] at hlong
  exact hlong.2

theorem firstLong?_cons (i : Located Item) (items : List (Located Item)) :
    firstLong? measured (i :: items) =
      if measured i.value ∧ limits.lexemeLength < i.value.toToken.length then
        some i.value.toToken.length
      else firstLong? measured items := by
  simp only [firstLong?, List.find?_cons]
  split <;> simp_all

/-- The first item over the limit stays the first one before other items. -/
theorem firstLong?_append (hfirst : firstLong? measured items = some n) (rest : List (Located Item)) :
    firstLong? measured (items ++ rest) = some n := by
  obtain ⟨i, hfound, rfl⟩ := Option.map_eq_some_iff.mp hfirst
  rw [firstLong?, List.find?_append, hfound]
  rfl

end FirstLong

/-- What an item is given up for is its length, if it is a good token over the limit. -/
theorem firstLong?_cons_isToken (i : Located Item) (items : List (Located Item)) :
    firstLong? Item.isToken (i :: items) = some n ↔
      itemError? i.value = some (.lexemeTooLong n) ∨
        itemError? i.value = none ∧ firstLong? Item.isToken items = some n := by
  rw [firstLong?_cons]
  cases i.value with
  | token t =>
    simp only [Item.isToken, itemError?, Item.toToken]
    split <;> simp_all
  | bad lexeme => simp [Item.isToken, itemError?]
  | unrecognized c => simp [Item.isToken, itemError?]

theorem exists_length_of_itemError? {item : Item} {e : LexerError} (herror : itemError? item = some e) :
    ∃ n, e = .lexemeTooLong n := by
  cases item with
  | token t =>
      simp only [itemError?, Option.ite_none_right_eq_some, Option.some.injEq] at herror
      exact ⟨t.length, herror.2.symm⟩
  | bad lexeme => simp [itemError?] at herror
  | unrecognized c => simp [itemError?] at herror

/-- The loop gives up for a lexeme exactly if a good token is too long among the items that there is room
for, and then for the first one. -/
theorem tokenizeFrom_eq_lexemeTooLong_iff (l : Lexer) (s : State) (stream : TokenStream)
    (said : List Notice) :
    (l.tokenizeFrom s stream said).1.value = .error (.lexemeTooLong n) ↔
      firstLong? Item.isToken ((l.items s).take (limits.tokens - stream.size)) = some n := by
  fun_induction tokenizeFrom l s stream said with
  | case1 s stream said hended =>
      simp [items_of_rest_eq_nil (List.isEmpty_iff.mp hended), firstLong?]
  | case2 s stream said hmore hfull e =>
      simp [e, Nat.sub_eq_zero_of_le hfull, firstLong?]
  | case3 s stream said hmore hopen reached hitem =>
      simp [items_of_item_eq_none hitem, firstLong?]
  | case4 s stream said hmore hopen item reached hitem e herror =>
      have hroom : limits.tokens - stream.size = limits.tokens - (stream.size + 1) + 1 := by omega
      rw [items_of_item hitem, hroom, List.take_succ_cons, firstLong?_cons_isToken, herror]
      simp
  | case5 s stream said hmore hopen item reached hitem hfits ih =>
      have hroom : limits.tokens - stream.size = limits.tokens - (stream.size + 1) + 1 := by omega
      rw [ih, TokenStream.size_push, items_counting, items_of_item hitem, hroom, List.take_succ_cons,
        firstLong?_cons_isToken, hfits]
      simp

theorem tokenize_eq_lexemeTooLong_iff (l : Lexer) (text : String) :
    (l.tokenize text).1.value = .error (.lexemeTooLong n) ↔
      firstLong? Item.isToken ((l.items (.ofText text)).take limits.tokens) = some n :=
  l.tokenizeFrom_eq_lexemeTooLong_iff (.ofText text) .empty _

/-- If tokenizing gives a stream, no good token is too long, and the limit bounds every lexeme exactly if
no bad one is. -/
theorem boundsLexemes_iff_of_ok (hok : (l.tokenize text).1.value = .ok stream) :
    firstLong? Item.isToken (l.items (.ofText text)) = none ∧
      (l.BoundsLexemes text ↔ firstLong? (fun _ => true) (l.items (.ofText text)) = none) := by
  have hstream := toList_of_tokenize hok
  constructor
  · have hfew := ((l.tokenize_eq_ok_iff text stream).mp hok).2.1.few
    rw [hstream, List.length_map] at hfew
    rw [Option.eq_none_iff_forall_ne_some]
    intro n hlong
    rw [← List.take_of_length_le (l := l.items (.ofText text)) (i := limits.tokens) (by omega),
      ← tokenize_eq_lexemeTooLong_iff, hok] at hlong
    cases hlong
  · rw [firstLong?_eq_none_iff]
    constructor
    · intro hbounds i hmem _
      refine hbounds.short stream hok (i.map Item.toToken) ?_
      rw [hstream]
      exact List.mem_map_of_mem hmem
    · intro hshort
      constructor
      · intro other hother t hmem
        obtain rfl := Except.ok.inj (hok.symm.trans hother)
        rw [hstream] at hmem
        obtain ⟨i, hitem, rfl⟩ := List.mem_map.mp hmem
        exact hshort i hitem rfl
      · intro n hlong
        rw [hok] at hlong
        cases hlong

/-- If tokenizing gives up for a lexeme, it is the first good token over the limit, and the limit bounds
every lexeme exactly if it is the first of all. -/
theorem boundsLexemes_iff_of_lexemeTooLong
    (herror : (l.tokenize text).1.value = .error (.lexemeTooLong n)) :
    firstLong? Item.isToken (l.items (.ofText text)) = some n ∧
      (l.BoundsLexemes text ↔ firstLong? (fun _ => true) (l.items (.ofText text)) = some n) := by
  have hfirst := (l.tokenize_eq_lexemeTooLong_iff text).mp herror
  constructor
  · rw [← List.take_append_drop limits.tokens (l.items (.ofText text))]
    exact firstLong?_append hfirst _
  · constructor
    · exact fun hbounds => (hbounds.long n herror).2
    · intro hlength
      constructor
      · intro stream hok
        rw [herror] at hok
        cases hok
      · intro other hother
        obtain rfl := LexerError.lexemeTooLong.inj (Except.error.inj (herror.symm.trans hother))
        exact ⟨lt_of_firstLong? hfirst, hlength⟩

/-- What the limit on lexemes does.  The good tokens of a stream keep to it.  Tokenizing gives up for a
lexeme exactly if one of the items that there is room for is a good token over the limit, and then for the
first such token.  As bad tokens are not measured, the limit bounds every lexeme if and only if tokenizing
gives up for too many tokens, or the first token over the limit is as long as the first good one. -/
theorem lexemeTooLong_iff_and_boundsLexemes_iff (l : Lexer) (text : String) :
    (∀ stream, (l.tokenize text).1.value = .ok stream →
      ∀ t ∈ stream.toList, t.value.isBad = false → t.value.length ≤ limits.lexemeLength) ∧
    (∀ n, (l.tokenize text).1.value = .error (.lexemeTooLong n) ↔
      firstLong? Item.isToken ((l.items (.ofText text)).take limits.tokens) = some n) ∧
    (l.BoundsLexemes text ↔
      (∃ count, (l.tokenize text).1.value = .error (.tooManyTokens count)) ∨
        firstLong? (fun _ => true) (l.items (.ofText text)) =
          firstLong? Item.isToken (l.items (.ofText text))) := by
  refine ⟨?_, fun n => l.tokenize_eq_lexemeTooLong_iff text, ?_⟩
  · exact fun stream hok => ((l.tokenize_eq_ok_iff text stream).mp hok).2.1.short
  · cases hvalue : (l.tokenize text).1.value with
    | ok stream =>
        obtain ⟨hgood, hbounds⟩ := boundsLexemes_iff_of_ok hvalue
        simp [hbounds, hgood]
    | error e =>
        rcases error_of_tokenizeFrom (Nat.zero_le _) hvalue with rfl | ⟨i, -, herror⟩
        · exact iff_of_true ⟨by simp [hvalue], by simp [hvalue]⟩ (.inl ⟨_, rfl⟩)
        · obtain ⟨n, rfl⟩ := exists_length_of_itemError? herror
          obtain ⟨hgood, hbounds⟩ := boundsLexemes_iff_of_lexemeTooLong hvalue
          simp [hbounds, hgood]

end Lexer

namespace StandardTables

open Lexer

/-- A comment without an end, with as many letters as a lexeme may have. -/
def longComment : List Char := '/' :: '/' :: List.replicate limits.lexemeLength 'a'

/-- The limit does not bound every lexeme: a comment without an end goes into the stream, though it is too
long. -/
theorem not_boundsLexemes_longComment :
    ¬ pipeline.lexer.BoundsLexemes (String.ofList longComment) := by
  have hbody : ∀ c ∈ List.replicate limits.lexemeLength 'a', c ∈ symbols ∧ c ≠ '\n' := by
    intro c hmem
    rw [List.eq_of_mem_replicate hmem]
    decide
  intro hbounds
  have hshort := hbounds.short _ (tokenize_openComment _ hbody) _ (List.mem_singleton_self _)
  change (String.ofList longComment).length ≤ limits.lexemeLength at hshort
  rw [String.length_ofList, longComment, List.length_cons, List.length_cons,
    List.length_replicate] at hshort
  omega

end StandardTables

end TableLexer
