import TableLexer.Proofs.Lexer.Items
import TableLexer.Proofs.StandardLexer
/-!
The limit on tokens.  It is tested before an item is read, as long as there are characters still to read,
and not when there is an item too many.  So a program with as many items as the limit is given up if
anything follows the last of them, even if it is left out.
-/

namespace TableLexer

namespace Lexer

variable {l : Lexer} {text : String}

/-- The limit on tokens rejects exactly the texts with more items than it allows. -/
def RejectsExactlyTooMany (l : Lexer) (text : String) : Prop :=
  ((∃ count, (l.tokenize text).1.value = .error (.tooManyTokens count)) ↔
    limits.tokens < (l.items (.ofText text)).length) ∧
  ((l.items (.ofText text)).length ≤ limits.tokens → ∃ stream, (l.tokenize text).1.value = .ok stream)

def tokensOf (l : Lexer) (text : String) : List (Located Token) :=
  (l.items (.ofText text)).map (Located.map Item.toToken)

/-- A text has as many items as the limit allows, and goes on after the last of them. -/
def GoesOnAtLimit (l : Lexer) (text : String) : Prop :=
  (l.items (.ofText text)).length = limits.tokens ∧
    lastStop .start (l.tokensOf text) ≠ .past .start text.toList

/-- No good token of a text is too long. -/
def HasShortTokens (l : Lexer) (text : String) : Prop :=
  ∀ i ∈ l.items (.ofText text), ∀ t, i.value = .token t → t.length ≤ limits.lexemeLength

theorem length_tokensOf (l : Lexer) (text : String) :
    (l.tokensOf text).length = (l.items (.ofText text)).length :=
  List.length_map _

/-- Tokenizing gives a stream exactly when the limits let the tokens of the items through. -/
theorem exists_ok_iff_fitsLimits (l : Lexer) (text : String) :
    (∃ stream, (l.tokenize text).1.value = .ok stream) ↔
      FitsLimits 0 .start (Position.start.past text.toList) (l.tokensOf text) := by
  have hreading : l.Reading .start text.toList (l.tokensOf text) := l.reading_items (.ofText text)
  constructor
  · rintro ⟨stream, hok⟩
    obtain ⟨hstream, hfits, -⟩ := (tokenize_eq_ok_iff l text stream).mp hok
    rwa [hreading.unique hstream]
  · intro hfits
    exact ⟨⟨(l.tokensOf text).toArray, 0⟩, (tokenize_eq_ok_iff l text _).mpr ⟨hreading, hfits, rfl⟩⟩

theorem HasShortTokens.itemError? (hshort : l.HasShortTokens text) {i : Located Item}
    (hmem : i ∈ l.items (.ofText text)) : itemError? i.value = none := by
  have hlength := hshort i hmem
  cases hitem : i.value with
  | token t => exact if_neg (Nat.not_lt.mpr (hlength t hitem))
  | bad lexeme => rfl
  | unrecognized c => rfl

/-- If no good token is too long, the limits let the tokens through unless there are too many of them, or
the text goes on where the limit is reached. -/
theorem HasShortTokens.exists_ok_iff (hshort : l.HasShortTokens text) :
    (∃ stream, (l.tokenize text).1.value = .ok stream) ↔
      (l.items (.ofText text)).length ≤ limits.tokens ∧ ¬ l.GoesOnAtLimit text := by
  rw [exists_ok_iff_fitsLimits, GoesOnAtLimit, ← length_tokensOf]
  constructor
  · rintro ⟨hfew, -⟩
    rw [Nat.zero_add] at hfew
    rcases hfew with hfewer | ⟨hfull, hends⟩
    · exact ⟨Nat.le_of_lt hfewer, fun hgoesOn => Nat.ne_of_lt hfewer hgoesOn.1⟩
    · exact ⟨Nat.le_of_eq hfull, fun hgoesOn => hgoesOn.2 hends⟩
  · rintro ⟨hle, hends⟩
    refine ⟨?_, fun t hmem hgood => ?_⟩
    · rw [Nat.zero_add]
      refine (Nat.lt_or_eq_of_le hle).imp id fun hfull => ⟨hfull, ?_⟩
      exact not_not.mp fun hne => hends ⟨hfull, hne⟩
    · obtain ⟨⟨item, span⟩, hitem, rfl⟩ := List.mem_map.mp hmem
      cases item with
      | token t => exact hshort _ hitem t rfl
      | bad lexeme => cases hgood
      | unrecognized c => cases hgood

/-- If no good token is too long, only the limit on tokens is in the way, and it names itself. -/
theorem HasShortTokens.error_eq (hshort : l.HasShortTokens text) {e : LexerError}
    (herror : (l.tokenize text).1.value = .error e) : e = .tooManyTokens limits.tokens := by
  rcases error_of_tokenizeFrom (Nat.zero_le _) herror with hmany | ⟨i, hmem, hlong⟩
  · exact hmany
  · rw [hshort.itemError? hmem] at hlong
    cases hlong

theorem HasShortTokens.exists_tooManyTokens_iff (hshort : l.HasShortTokens text) :
    (∃ count, (l.tokenize text).1.value = .error (.tooManyTokens count)) ↔
      limits.tokens < (l.items (.ofText text)).length ∨ l.GoesOnAtLimit text := by
  have hok := hshort.exists_ok_iff
  cases hvalue : (l.tokenize text).1.value with
  | ok stream =>
      obtain ⟨hle, hends⟩ := hok.mp ⟨stream, hvalue⟩
      exact iff_of_false (by simp) (not_or.mpr ⟨Nat.not_lt.mpr hle, hends⟩)
  | error e =>
      refine iff_of_true ⟨_, congrArg Except.error (hshort.error_eq hvalue)⟩ ?_
      by_contra hneither
      obtain ⟨hle, hends⟩ := not_or.mp hneither
      obtain ⟨stream, hstream⟩ := hok.mpr ⟨Nat.not_lt.mp hle, hends⟩
      rw [hvalue] at hstream
      cases hstream

theorem HasShortTokens.rejectsExactlyTooMany_iff (hshort : l.HasShortTokens text) :
    l.RejectsExactlyTooMany text ↔ ¬ l.GoesOnAtLimit text := by
  rw [RejectsExactlyTooMany, hshort.exists_tooManyTokens_iff, hshort.exists_ok_iff]
  constructor
  · rintro ⟨-, haccepts⟩ hgoesOn
    exact (haccepts (Nat.le_of_eq hgoesOn.1)).2 hgoesOn
  · intro hends
    exact ⟨or_iff_left hends, fun hle => ⟨hle, hends⟩⟩

/-- What the limit on tokens does to a text whose good tokens are not too long.  It rejects the texts with
more items than it allows, and also a text with as many that goes on after the last of them; in both
cases the error counts as many tokens as are allowed.  So it rejects exactly the texts with too many items
unless the text goes on at the limit. -/
theorem rejects_iff_too_many_or_goesOnAtLimit (hshort : l.HasShortTokens text) :
    ((∃ count, (l.tokenize text).1.value = .error (.tooManyTokens count)) ↔
      limits.tokens < (l.items (.ofText text)).length ∨ l.GoesOnAtLimit text) ∧
    (∀ e, (l.tokenize text).1.value = .error e → e = .tooManyTokens limits.tokens) ∧
    (l.RejectsExactlyTooMany text ↔ ¬ l.GoesOnAtLimit text) :=
  ⟨hshort.exists_tooManyTokens_iff, fun _ => hshort.error_eq, hshort.rejectsExactlyTooMany_iff⟩

end Lexer

namespace StandardTables

open Lexer

/-- A blank, and then the digit one so many times, each with a blank after it. -/
def ones (n : Nat) : List Char := ' ' :: (List.replicate n ['1', ' ']).flatten

theorem run?_blank : pipeline.lexer.machine.run? 0 [' '] = some 0 := by
  rw [Machine.run?_cons, transition?_blank, Option.bind_some, Machine.run?_nil]

theorem accepted?_start : pipeline.lexer.machine.accepted? 0 = none := by
  rw [machine_lexer, accepted?_lexicalMachine]
  decide

/-- A one is a number, also after a blank and before one. -/
theorem reading_one (n : Nat) (place : Position) {tokens : List (Located Token)}
    (hreading : pipeline.lexer.Reading (place.past [' ', '1']) (ones n) tokens) :
    pipeline.lexer.Reading place (ones (n + 1))
      (⟨⟨"1", some "Integer Literal"⟩, ⟨place.past [' '], place.past [' ', '1']⟩⟩ :: tokens) := by
  have hone : pipeline.lexer.machine.run? 0 ['1'] = some 2 := by
    rw [Machine.run?_cons, transition?_digit '1' (by decide) (by decide), Option.bind_some,
      Machine.run?_nil]
  have hstuck : ∀ c tail, ones n = c :: tail → pipeline.lexer.machine.transition? 2 c = none := by
    intro c tail hsplit
    rw [← (List.cons.inj hsplit).1, transition?_number ' ' (by decide)]
    decide
  have hverdict := Lexer.verdict?_of_ne (l := pipeline.lexer) accepted?_number (by decide) (by decide) "1"
  have hemitted : pipeline.lexer.emitted 2 (place.past [' ']) ['1'] =
      [⟨⟨"1", some "Integer Literal"⟩, ⟨place.past [' '], place.past [' ', '1']⟩⟩] := by
    rw [Lexer.emitted, show String.ofList ['1'] = "1" from rfl, hverdict]
    rfl
  have hjoined := Reading.of_run run?_blank hone (by decide) (Machine.away_singleton _ 0 '1') hstuck
    hreading
  rwa [hemitted] at hjoined

/-- Each of the ones is a number, and a blank follows the last of them. -/
theorem exists_reading_ones (n : Nat) (place : Position) :
    ∃ tokens, pipeline.lexer.Reading place (ones n) tokens ∧ tokens.length = n ∧
      (∀ t ∈ tokens, t.value.lexeme = "1") ∧
      (lastStop place tokens).advance ' ' = place.past (ones n) := by
  induction n generalizing place with
  | zero =>
      have hrun : pipeline.lexer.machine.LongestRun 0 ([' '] ++ []) [' '] 0 :=
        .of_stuck run?_blank fun c tail hrest => absurd hrest (List.cons_ne_nil c tail).symm
      have hquiet : pipeline.lexer.machine.isAccepting 0 = false := by
        rw [Machine.isAccepting, accepted?_start]
        rfl
      exact ⟨[], .finished hrun (.inr hquiet), rfl, List.forall_mem_nil _, rfl⟩
  | succ n ih =>
      obtain ⟨tokens, hreading, hlength, hlexeme, hlast⟩ := ih (place.past [' ', '1'])
      refine ⟨_, reading_one n place hreading, congrArg Nat.succ hlength,
        List.forall_mem_cons.mpr ⟨rfl, hlexeme⟩, ?_⟩
      rw [← Position.past_append] at hlast
      exact hlast

/-- A text of ones has as many items, none of them too long, and goes on after the last of them. -/
theorem items_ones (n : Nat) :
    pipeline.lexer.HasShortTokens (String.ofList (ones n)) ∧
      (pipeline.lexer.items (.ofText (String.ofList (ones n)))).length = n ∧
      lastStop .start (pipeline.lexer.tokensOf (String.ofList (ones n))) ≠
        .past .start (String.ofList (ones n)).toList := by
  obtain ⟨tokens, hreading, hlength, hlexeme, hlast⟩ := exists_reading_ones n .start
  have hitems : pipeline.lexer.Reading .start (String.ofList (ones n)).toList
      (pipeline.lexer.tokensOf (String.ofList (ones n))) :=
    pipeline.lexer.reading_items (.ofText _)
  rw [String.toList_ofList] at hitems ⊢
  obtain rfl := hreading.unique hitems
  refine ⟨?_, ?_, ?_⟩
  · intro i hmem t ht
    have hone : t.lexeme = "1" := by
      have hvalue := hlexeme _ (List.mem_map_of_mem hmem)
      rwa [Located.map, ht] at hvalue
    rw [Token.length, hone]
    decide
  · rwa [length_tokensOf] at hlength
  · intro hends
    have hoffset := congrArg Position.offset hlast
    rw [hends, Position.offset_advance] at hoffset
    omega

/-- With as many ones as the limit allows the text goes on at the limit. -/
theorem goesOnAtLimit_ones :
    pipeline.lexer.HasShortTokens (String.ofList (ones limits.tokens)) ∧
      pipeline.lexer.GoesOnAtLimit (String.ofList (ones limits.tokens)) :=
  items_ones limits.tokens

/-- A million ones with a blank after the last of them are rejected as too many, though they are not. -/
theorem not_rejectsExactlyTooMany_ones :
    pipeline.lexer.HasShortTokens (String.ofList (ones limits.tokens)) ∧
      (pipeline.lexer.items (.ofText (String.ofList (ones limits.tokens)))).length = limits.tokens ∧
      ¬ pipeline.lexer.RejectsExactlyTooMany (String.ofList (ones limits.tokens)) := by
  obtain ⟨hshort, hgoesOn⟩ := goesOnAtLimit_ones
  exact ⟨hshort, hgoesOn.1, fun hrejects => hshort.rejectsExactlyTooMany_iff.mp hrejects hgoesOn⟩

theorem rejects_ones_goesOnAtLimit :
    pipeline.lexer.HasShortTokens (String.ofList (ones limits.tokens)) ∧
      ∃ count, (pipeline.lexer.tokenize (String.ofList (ones limits.tokens))).1.value =
        .error (.tooManyTokens count) := by
  obtain ⟨hshort, hgoesOn⟩ := goesOnAtLimit_ones
  exact ⟨hshort, (rejects_iff_too_many_or_goesOnAtLimit hshort).1.mpr (.inr hgoesOn)⟩

end StandardTables

end TableLexer
