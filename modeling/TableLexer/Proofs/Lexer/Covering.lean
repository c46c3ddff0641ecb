import TableLexer.Proofs.Lexer.Limits
/-!
What tokens cover.  The tokens of a reading stand where their lexemes stand in the text, and none of
them is empty; so do the tokens of a stream in the text that was tokenized.
-/

namespace TableLexer

/-- A token covers its lexeme: the lexeme stands in a text that begins at a place, and the span of the
token is the stretch from the place before it to the place after it. -/
def Located.Covers (t : Located Token) (place : Position) (text : List Char) : Prop :=
  ∃ before after, text = before ++ t.value.lexeme.toList ++ after ∧
    t.span = ⟨place.past before, place.past (before ++ t.value.lexeme.toList)⟩

theorem Located.Covers.prepend {t : Located Token} {place : Position} {word text : List Char}
    (hcovers : t.Covers (place.past word) text) : t.Covers place (word ++ text) := by
  obtain ⟨before, after, rfl, hspan⟩ := hcovers
  refine ⟨word ++ before, after, by simp, ?_⟩
  rw [hspan, List.append_assoc, ← Position.past_append, ← Position.past_append]

namespace Lexer

variable {l : Lexer}

theorem of_mem_emitted {state : Nat} {start : Position} {lexeme : List Char} {t : Located Token}
    (hmem : t ∈ l.emitted state start lexeme) :
    t.value.lexeme = String.ofList lexeme ∧ t.span = ⟨start, start.past lexeme⟩ := by
  obtain ⟨token, hverdict, rfl⟩ := Option.map_eq_some_iff.mp (Option.mem_toList.mp hmem)
  refine ⟨?_, rfl⟩
  unfold verdict? at hverdict
  split at hverdict
  next => rw [← Option.some.inj hverdict]; rfl
  next category hcategory =>
    simp only [Option.ite_none_left_eq_some] at hverdict
    rw [← Option.some.inj hverdict.2]

/-- The tokens of a reading cover their lexemes, which are not empty. -/
theorem Reading.covers {place : Position} {text : List Char} {tokens : List (Located Token)}
    (hreading : l.Reading place text tokens) :
    ∀ t ∈ tokens, t.Covers place text ∧ t.value.lexeme.toList ≠ [] := by
  induction hreading with
  | @lexeme place text trip lexeme rest state tokens hsplit hrun haway hvisit hrest ih =>
      intro t hmem
      rw [hsplit]
      rcases List.mem_append.mp hmem with hmem | hmem
      · obtain ⟨hlexeme, hspan⟩ := of_mem_emitted hmem
        rw [hlexeme, String.toList_ofList]
        refine ⟨⟨trip, rest, by rw [hlexeme, String.toList_ofList], ?_⟩, ?_⟩
        · rw [hspan, hlexeme, String.toList_ofList, Position.past_append]
        · exact hvisit.ne_nil rfl
      · obtain ⟨hcovers, hne⟩ := ih t hmem
        exact ⟨hcovers.prepend, hne⟩
  | @unrecognized place text run rest c tokens hsplit hrun hrest ih =>
      intro t hmem
      rw [hsplit]
      rcases List.mem_cons.mp hmem with rfl | hmem
      · refine ⟨⟨run, rest, by simp [Token.bad], ?_⟩, by simp [Token.bad]⟩
        simp [Token.bad, Position.past_append]
      · obtain ⟨hcovers, hne⟩ := ih t hmem
        rw [← Position.past_concat] at hcovers
        rw [List.append_cons]
        exact ⟨hcovers.prepend, hne⟩
  | @roundTrip place text trip lexeme hsplit hrun haccepts hvisit =>
      intro t hmem
      obtain ⟨hlexeme, hspan⟩ := of_mem_emitted hmem
      rw [hlexeme, String.toList_ofList]
      refine ⟨⟨trip, [], by rw [hlexeme, String.toList_ofList, List.append_nil, hsplit], ?_⟩, ?_⟩
      · rw [hspan, hlexeme, String.toList_ofList, Position.past_append]
      · exact hvisit.ne_nil hsplit
  | finished hrun hnone => exact fun t hmem => absurd hmem List.not_mem_nil

/-- The tokens of a stream are the reading of its text. -/
theorem reading_of_tokenize {text : String} {stream : TokenStream}
    (hok : (l.tokenize text).1.value = .ok stream) :
    l.Reading .start text.toList stream.toList :=
  ((l.tokenize_eq_ok_iff text stream).mp hok).1

/-- Only identifiers are renamed. -/
theorem verdict?_of_ne {state : Nat} {category : String}
    (haccepted : l.machine.accepted? state = some category)
    (hne : category ≠ l.preferences.identifierCategory)
    (hkeeps : l.preferences.skips category = false) (lexeme : String) :
    l.verdict? state lexeme = some ⟨lexeme, some category⟩ := by
  have hname : l.keywords.resolve category lexeme l.preferences.identifierCategory = category :=
    if_neg hne
  simp [verdict?, haccepted, hname, hkeeps]

/-- A text that is one run away from the entry state is one token or none, if it is not too long for a
good one. -/
theorem tokenize_eq_emitted_of_run {word : List Char} {state : Nat}
    (hrun : l.machine.run? l.entry word = some state) (hstate : state ≠ l.entry)
    (haway : l.machine.Away l.entry word)
    (hshort : ∀ t ∈ l.emitted state .start word, t.value.isBad = false →
      word.length ≤ limits.lexemeLength) :
    (l.tokenize (String.ofList word)).1.value =
      .ok ⟨(l.emitted state .start word).toArray, 0⟩ := by
  have hreading : l.Reading .start ([] ++ word ++ []) (l.emitted state .start word ++ []) :=
    .of_run rfl hrun hstate haway (fun c tail hnil => absurd hnil (List.cons_ne_nil c tail).symm)
      (.nil l _)
  rw [List.nil_append, List.append_nil, List.append_nil] at hreading
  rw [tokenize_eq_ok_iff, String.toList_ofList]
  refine ⟨hreading, ⟨.inl ?_, ?_⟩, rfl⟩
  · rw [TokenStream.toList, emitted, Nat.zero_add]
    exact Nat.lt_of_le_of_lt Option.length_toList_le (by decide)
  · intro t hmem hgood
    rw [Token.length, (of_mem_emitted hmem).1, String.length_ofList]
    exact hshort t hmem hgood

/-- The one token of such a text, unless it is left out. -/
theorem tokenize_of_run {word : List Char} {state : Nat} {token : Token}
    (hrun : l.machine.run? l.entry word = some state) (hstate : state ≠ l.entry)
    (haway : l.machine.Away l.entry word)
    (hverdict : l.verdict? state (String.ofList word) = some token)
    (hshort : token.isBad = false → word.length ≤ limits.lexemeLength) :
    (l.tokenize (String.ofList word)).1.value =
      .ok ⟨#[⟨token, ⟨.start, Position.start.past word⟩⟩], 0⟩ := by
  have hemitted : l.emitted state .start word = [⟨token, ⟨.start, Position.start.past word⟩⟩] := by
    rw [emitted, hverdict]
    rfl
  rw [tokenize_eq_emitted_of_run hrun hstate haway, hemitted]
  simpa [hemitted] using hshort

end Lexer

end TableLexer
