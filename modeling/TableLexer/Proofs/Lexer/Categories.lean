import TableLexer.Proofs.Keywords
import TableLexer.Proofs.Lexer.Limits
import TableLexer.Proofs.StandardLexer
/-!
Categories that are looked up, and categories that are left out.  Neither the keyword table nor the
categories to leave out have a part in the traversal: lexers that share a machine cut a text into the
same lexemes, and only what becomes of a lexeme differs.  So the stream of one lexer is got from that
of another token by token, and the limits that let the longer stream through let the shorter one
through as well.
-/

namespace TableLexer

/-- What is made of a value, at the same place; nothing where nothing is made of it. -/
def Located.filterMap? {α β : Type} (f : α → Option β) (x : Located α) : Option (Located β) :=
  (f x.value).map fun value => ⟨value, x.span⟩

namespace Lexer

section Reworking

variable {l l' : Lexer} {f : Token → Option Token}

/-- The tokens of `l'` are those of `l` after `f`, which may change the category of a good token, or
leave the token out. -/
structure Reworks (l l' : Lexer) (f : Token → Option Token) : Prop where
  machine_eq : l'.machine = l.machine
  entry_eq : l'.entry = l.entry
  verdict?_eq : ∀ state lexeme, l'.verdict? state lexeme = (l.verdict? state lexeme).bind f
  bad_eq : ∀ lexeme, f (.bad lexeme) = some (.bad lexeme)
  keeps : ∀ t t', f t = some t' → t'.lexeme = t.lexeme ∧ t'.isBad = t.isBad

theorem Reworks.emitted_eq (hworks : l.Reworks l' f) (state : Nat) (start : Position)
    (lexeme : List Char) :
    l'.emitted state start lexeme =
      (l.emitted state start lexeme).filterMap (Located.filterMap? f) := by
  rw [emitted, emitted, hworks.verdict?_eq]
  cases l.verdict? state (String.ofList lexeme) with
  | none => rfl
  | some token => cases htoken : f token <;> simp [Located.filterMap?, htoken]

/-- Both lexers cut a text alike. -/
theorem Reworks.reading (hworks : l.Reworks l' f) {place : Position} {text : List Char}
    {tokens : List (Located Token)} (hreading : l.Reading place text tokens) :
    l'.Reading place text (tokens.filterMap (Located.filterMap? f)) := by
  -- The runs are those of one machine, so each case is the same case of the other reading.
  induction hreading with
  | lexeme hsplit hrun haway hvisit hrest ih =>
      rw [← hworks.machine_eq, ← hworks.entry_eq] at hrun hvisit
      rw [← hworks.entry_eq] at haway
      rw [List.filterMap_append, ← hworks.emitted_eq]
      exact .lexeme hsplit hrun haway hvisit ih
  | unrecognized hsplit hrun hrest ih =>
      rw [← hworks.machine_eq, ← hworks.entry_eq] at hrun
      rw [List.filterMap_cons_some (by rw [Located.filterMap?, hworks.bad_eq]; rfl)]
      exact .unrecognized hsplit hrun ih
  | roundTrip hsplit hrun haccepts hvisit =>
      rw [← hworks.machine_eq, ← hworks.entry_eq] at hrun haccepts hvisit
      rw [← hworks.emitted_eq, ← hworks.entry_eq]
      exact .roundTrip hsplit hrun haccepts hvisit
  | finished hrun hnone =>
      rw [← hworks.machine_eq, ← hworks.entry_eq] at hrun hnone
      exact .finished hrun hnone

/-- If no token goes, the last one ends where it ended. -/
theorem lastStop_filterMap {tokens : List (Located Token)} (place : Position)
    (hlength : (tokens.filterMap (Located.filterMap? f)).length = tokens.length) :
    lastStop place (tokens.filterMap (Located.filterMap? f)) = lastStop place tokens := by
  induction tokens generalizing place with
  | nil => rfl
  | cons t tokens ih =>
      cases htoken : f t.value with
      | none =>
          have hle := List.length_filterMap_le (Located.filterMap? f) tokens
          rw [List.filterMap_cons_none (by rw [Located.filterMap?, htoken]; rfl),
            List.length_cons] at hlength
          omega
      | some token =>
          have hcons : (t :: tokens).filterMap (Located.filterMap? f) =
              ⟨token, t.span⟩ :: tokens.filterMap (Located.filterMap? f) :=
            List.filterMap_cons_some (by rw [Located.filterMap?, htoken]; rfl)
          rw [hcons, List.length_cons, List.length_cons] at hlength
          rw [hcons]
          exact ih t.span.stop (Nat.succ.inj hlength)

/-- If a token goes there is room to spare, and if none goes the tokens end where they ended. -/
theorem Reworks.fitsLimits (hworks : l.Reworks l' f) {count : Nat} {place finish : Position}
    {tokens : List (Located Token)} (hfits : FitsLimits count place finish tokens) :
    FitsLimits count place finish (tokens.filterMap (Located.filterMap? f)) := by
  constructor
  · rcases Nat.lt_or_eq_of_le (List.length_filterMap_le (Located.filterMap? f) tokens) with
      hless | hsame
    · left
      rcases hfits.few with hfew | ⟨hfew, -⟩ <;> omega
    · rw [lastStop_filterMap place hsame, hsame]
      exact hfits.few
  · intro t' hmem hgood
    obtain ⟨t, ht, hf⟩ := List.mem_filterMap.mp hmem
    obtain ⟨token, htoken, rfl⟩ := Option.map_eq_some_iff.mp hf
    obtain ⟨hlexeme, hbad⟩ := hworks.keeps t.value token htoken
    rw [Token.length, hlexeme]
    exact hfits.short t ht (hbad.symm.trans hgood)

/-- A text that one lexer tokenizes is tokenized by the other. -/
theorem Reworks.tokenize (hworks : l.Reworks l' f) {text : String} {stream : TokenStream}
    (hok : (l.tokenize text).1.value = .ok stream) :
    (l'.tokenize text).1.value =
      .ok ⟨(stream.toList.filterMap (Located.filterMap? f)).toArray, 0⟩ := by
  obtain ⟨hreading, hfits, -⟩ := (l.tokenize_eq_ok_iff text stream).mp hok
  rw [tokenize_eq_ok_iff]
  exact ⟨hworks.reading hreading, hworks.fitsLimits hfits, rfl⟩

end Reworking

def withKeywords (l : Lexer) (keywords : Keywords) : Lexer := { l with keywords }

def skipping (l : Lexer) (categories : List String) : Lexer :=
  { l with preferences := { l.preferences with skipCategories := categories } }

section Conditional

/-- Two words, for any lexer of the standard table. -/
theorem tokenize_if_x {l : Lexer} (hmachine : l.machine = StandardTables.pipeline.lexer.machine)
    (hentry : l.entry = 0) (hcategory : l.preferences.identifierCategory = "Identifier")
    {first second : String} (hfirst : (l.keywords.get? "if").getD "Identifier" = first)
    (hsecond : (l.keywords.get? "x").getD "Identifier" = second) :
    (l.tokenize "if x").1.value = .ok ⟨(
      (if l.preferences.skips "Identifier" || l.preferences.skips first then []
        else ([⟨⟨"if", some first⟩, ⟨⟨0, 1, 1⟩, ⟨2, 1, 3⟩⟩⟩] : List (Located Token))) ++
      (if l.preferences.skips "Identifier" || l.preferences.skips second then []
        else ([⟨⟨"x", some second⟩, ⟨⟨3, 1, 4⟩, ⟨4, 1, 5⟩⟩⟩] : List (Located Token)))).toArray,
      0⟩ := by
  rw [show "if x" = String.ofList (['i', 'f'] ++ ' ' :: ['x']) from rfl,
    StandardTables.tokenize_letters_letters hmachine hentry (by decide) (by decide) (by decide),
    StandardTables.emitted_letters hmachine hcategory _ hfirst,
    StandardTables.emitted_letters hmachine hcategory _ hsecond]
  rfl

/-- A lexer of the standard table with a single keyword. -/
def conditional : Lexer :=
  StandardTables.pipeline.lexer.withKeywords (Keywords.parse "if,If\n").value

theorem get?_conditional : conditional.keywords.get? "if" = some "If" ∧
    conditional.keywords.get? "x" = none := by
  have hlines : (Text.lines "if,If\n").filter (· ≠ "") = ["if,If"] := by decide
  have hentry : Keywords.entryOf? "if,If" = some ("if", "If") := by decide
  exact ⟨Keywords.get?_parse_line hlines hentry "if", Keywords.get?_parse_line hlines hentry "x"⟩

/-- A keyword and an identifier, with any categories to leave out. -/
theorem tokenize_conditional (categories : List String) :
    ((conditional.skipping categories).tokenize "if x").1.value = .ok ⟨(
      (if categories.contains "Identifier" || categories.contains "If" then []
        else ([⟨⟨"if", some "If"⟩, ⟨⟨0, 1, 1⟩, ⟨2, 1, 3⟩⟩⟩] : List (Located Token))) ++
      (if categories.contains "Identifier" || categories.contains "Identifier" then []
        else ([⟨⟨"x", some "Identifier"⟩, ⟨⟨3, 1, 4⟩, ⟨4, 1, 5⟩⟩⟩] : List (Located Token)))).toArray,
      0⟩ := by
  have hmachine : (conditional.skipping categories).machine =
      StandardTables.pipeline.lexer.machine := rfl
  have hentry : (conditional.skipping categories).entry = 0 := rfl
  have hcategory : (conditional.skipping categories).preferences.identifierCategory =
      "Identifier" := rfl
  have hif : ((conditional.skipping categories).keywords.get? "if").getD "Identifier" = "If" := by
    rw [skipping, get?_conditional.1]
    rfl
  have hx : ((conditional.skipping categories).keywords.get? "x").getD "Identifier" =
      "Identifier" := by
    rw [skipping, get?_conditional.2]
    rfl
  exact tokenize_if_x hmachine hentry hcategory hif hx

end Conditional

section Keyword

/-- What the keyword table makes of a token: an identifier with an entry gets the category of the entry,
and goes if that is left out. -/
def lookUp? (l : Lexer) (t : Token) : Option Token :=
  if t.category = some l.preferences.identifierCategory then
    match l.keywords.get? t.lexeme with
    | some name => if l.preferences.skips name then none else some ⟨t.lexeme, some name⟩
    | none => some t
  else some t

theorem lookUp?_bad (l : Lexer) (lexeme : String) : l.lookUp? (.bad lexeme) = some (.bad lexeme) :=
  if_neg nofun

theorem lookUp?_keeps {l : Lexer} {t t' : Token} (ht : l.lookUp? t = some t') :
    t'.lexeme = t.lexeme ∧ t'.isBad = t.isBad := by
  unfold lookUp? at ht
  split at ht
  next hidentifier =>
    split at ht
    next name hname =>
      rw [Option.ite_none_left_eq_some] at ht
      rw [← Option.some.inj ht.2, Token.isBad, Token.isBad, hidentifier]
      exact ⟨rfl, rfl⟩
    next => exact ⟨by rw [Option.some.inj ht], by rw [Option.some.inj ht]⟩
  next => exact ⟨by rw [Option.some.inj ht], by rw [Option.some.inj ht]⟩

/-- A category that is left out before the keyword table is asked is left out without a table, too. -/
theorem reworks_lookUp? (l : Lexer) : (l.withKeywords .empty).Reworks l l.lookUp? where
  machine_eq := rfl
  entry_eq := rfl
  bad_eq := l.lookUp?_bad
  keeps _ _ := lookUp?_keeps
  verdict?_eq := by
    intro state lexeme
    unfold verdict? withKeywords
    cases l.machine.accepted? state with
    | none => exact (l.lookUp?_bad lexeme).symm
    | some category =>
        simp only [Keywords.resolve_empty, Bool.or_self]
        -- What is left out before the table is asked is no token on either side.
        by_cases hskips : l.preferences.skips category
        · simp [hskips]
        by_cases hidentifier : category = l.preferences.identifierCategory
        · subst hidentifier
          cases hname : l.keywords.get? lexeme with
          | none => simp [lookUp?, Keywords.resolve, hname, hskips]
          | some name => simp [lookUp?, Keywords.resolve, hname, hskips]
        · simp [lookUp?, Keywords.resolve, hidentifier, hskips]

/-- The keyword table takes no part in the traversal: it only renames identifiers, and of those it only
takes away the ones whose new category is left out. -/
theorem tokenize_of_withoutKeywords {l : Lexer} {text : String} {plain : TokenStream}
    (hplain : ((l.withKeywords .empty).tokenize text).1.value = .ok plain) :
    (l.tokenize text).1.value =
      .ok ⟨(plain.toList.filterMap (Located.filterMap? l.lookUp?)).toArray, 0⟩ :=
  l.reworks_lookUp?.tokenize hplain

/-- The first of two words is a keyword: it is renamed, and nothing else changes. -/
theorem tokenize_conditional_keyword :
    ((conditional.withKeywords .empty).tokenize "if x").1.value =
        .ok ⟨#[⟨⟨"if", some "Identifier"⟩, ⟨⟨0, 1, 1⟩, ⟨2, 1, 3⟩⟩⟩,
          ⟨⟨"x", some "Identifier"⟩, ⟨⟨3, 1, 4⟩, ⟨4, 1, 5⟩⟩⟩], 0⟩ ∧
      (conditional.tokenize "if x").1.value =
        .ok ⟨#[⟨⟨"if", some "If"⟩, ⟨⟨0, 1, 1⟩, ⟨2, 1, 3⟩⟩⟩,
          ⟨⟨"x", some "Identifier"⟩, ⟨⟨3, 1, 4⟩, ⟨4, 1, 5⟩⟩⟩], 0⟩ := by
  have hmachine : (conditional.withKeywords .empty).machine =
      StandardTables.pipeline.lexer.machine := rfl
  have hentry : (conditional.withKeywords .empty).entry = 0 := rfl
  have hcategory : (conditional.withKeywords .empty).preferences.identifierCategory =
      "Identifier" := rfl
  have hnone : ∀ word, ((conditional.withKeywords .empty).keywords.get? word).getD "Identifier" =
      "Identifier" := fun word => by rw [withKeywords, Keywords.get?_empty]; rfl
  have hskips : (conditional.withKeywords .empty).preferences.skips "Identifier" = false := by
    decide
  have hplain := tokenize_if_x hmachine hentry hcategory (hnone "if") (hnone "x")
  rw [hskips] at hplain
  refine ⟨hplain, (tokenize_of_withoutKeywords hplain).trans ?_⟩
  have hcategory : conditional.preferences.identifierCategory = "Identifier" := rfl
  have hkept : conditional.preferences.skips "If" = false := by decide
  have hif : conditional.lookUp? ⟨"if", some "Identifier"⟩ = some ⟨"if", some "If"⟩ := by
    simp [lookUp?, hcategory, get?_conditional.1, hkept]
  have hx : conditional.lookUp? ⟨"x", some "Identifier"⟩ = some ⟨"x", some "Identifier"⟩ := by
    simp [lookUp?, hcategory, get?_conditional.2]
  simp [Located.filterMap?, TokenStream.toList, hif, hx]

end Keyword

section Skipping

/-- The token after the keyword table was asked. -/
def rename (l : Lexer) (t : Token) : Token :=
  { t with category := t.category.map fun category =>
      l.keywords.resolve category t.lexeme l.preferences.identifierCategory }

/-- What is left of a token: it is left out if its category is, before the keyword table is asked or
after it. -/
def resolve? (l : Lexer) (t : Token) : Option Token :=
  if l.discards t || l.discards (l.rename t) then none else some (l.rename t)

theorem rename_keeps (l : Lexer) (t : Token) :
    (l.rename t).lexeme = t.lexeme ∧ (l.rename t).isBad = t.isBad := by
  simp [rename, Token.isBad]

/-- The verdict on a lexeme is what is left of it in the category that the machine accepts. -/
theorem verdict?_eq_resolve? (l : Lexer) (state : Nat) (lexeme : String) :
    l.verdict? state lexeme = l.resolve? ⟨lexeme, l.machine.accepted? state⟩ := by
  unfold verdict?
  cases l.machine.accepted? state with
  | none => rfl
  | some category => rfl

theorem resolve?_skipping_nil (l : Lexer) (t : Token) :
    (l.skipping []).resolve? t = some (l.rename t) := by
  have hkeeps : ∀ t, (l.skipping []).discards t = false := by
    intro t
    rw [discards]
    split <;> rfl
  rw [resolve?, hkeeps, hkeeps]
  rfl

/-- A lexer without keywords that leaves nothing out gives the categories of the machine. -/
theorem reworks_resolve? (l : Lexer) :
    ((l.withKeywords .empty).skipping []).Reworks l l.resolve? where
  machine_eq := rfl
  entry_eq := rfl
  bad_eq := fun _ => rfl
  keeps := by
    intro t t' ht
    rw [resolve?, Option.ite_none_left_eq_some] at ht
    rw [← Option.some.inj ht.2]
    exact l.rename_keeps t
  verdict?_eq := by
    intro state lexeme
    rw [verdict?_eq_resolve?, verdict?_eq_resolve?, resolve?_skipping_nil, Option.bind_some]
    have hrename : ∀ t, (l.withKeywords .empty).rename t = t := by
      rintro ⟨lexeme, category⟩
      cases category with
      | none => rfl
      | some category => simp [rename, withKeywords, Keywords.resolve_empty]
    rw [hrename]
    rfl

theorem fitsLimits_map_rename (l : Lexer) {count : Nat} {place finish : Position}
    {tokens : List (Located Token)} :
    FitsLimits count place finish (tokens.map (Located.map l.rename)) ↔
      FitsLimits count place finish tokens := by
  induction tokens generalizing count place with
  | nil => rfl
  | cons t tokens ih =>
      obtain ⟨hlexeme, hbad⟩ := l.rename_keeps t.value
      rw [List.map_cons, fitsLimits_cons_iff, fitsLimits_cons_iff, ih, Located.map, Token.length,
        Token.length, hlexeme, hbad]

/-- A stream of a lexer that leaves nothing out is the renamed stream without keywords. -/
theorem exists_plain_of_skipping_nil {l : Lexer} {text : String} {full : TokenStream}
    (hfull : ((l.skipping []).tokenize text).1.value = .ok full) :
    ∃ plain, (((l.withKeywords .empty).skipping []).tokenize text).1.value = .ok plain ∧
      full.toList = plain.toList.map (Located.map l.rename) := by
  obtain ⟨hreading, hfits, -⟩ := ((l.skipping []).tokenize_eq_ok_iff text full).mp hfull
  obtain ⟨tokens, hplain⟩ := ((l.withKeywords .empty).skipping []).exists_reading (.ofText text)
  have hmap : tokens.filterMap (Located.filterMap? (l.skipping []).resolve?) =
      tokens.map (Located.map l.rename) := by
    rw [← List.filterMap_eq_map]
    congr 1
    funext t
    rw [Located.filterMap?, resolve?_skipping_nil]
    rfl
  have htokens := hreading.unique ((l.skipping []).reworks_resolve?.reading hplain)
  rw [hmap] at htokens
  rw [htokens, fitsLimits_map_rename] at hfits
  refine ⟨⟨tokens.toArray, 0⟩, ?_, htokens⟩
  exact (tokenize_eq_ok_iff ..).mpr ⟨hplain, hfits, rfl⟩

/-- Two tests leave the same as one of them if and only if the one leaves nothing that the other does
not. -/
theorem map_filter_and_eq_iff {α β : Type} (f : α → β) (p q : α → Bool) (xs : List α) :
    (xs.filter fun x => p x && q x).map f = (xs.filter q).map f ↔ ∀ x ∈ xs, q x → p x := by
  constructor
  · intro hsame
    have hlength := congrArg List.length hsame
    rw [List.length_map, List.length_map, ← List.filter_filter,
      List.length_filter_eq_length_iff] at hlength
    exact fun x hmem hq => hlength x (List.mem_filter.mpr ⟨hmem, hq⟩)
  · intro himplies
    congr 1
    apply List.filter_congr
    intro x hmem
    cases hq : q x with
    | false => rw [Bool.and_false]
    | true => rw [himplies x hmem hq, Bool.and_true]

/-- Only an identifier can have been left out before the keyword table was asked and not after it. -/
theorem discards_rename {l : Lexer} {t : Token}
    (hkeeps : l.preferences.skips l.preferences.identifierCategory = false) (ht : l.discards t) :
    l.discards (l.rename t) := by
  cases hcategory : t.category with
  | none => simp [discards, hcategory] at ht
  | some category =>
      have hskips : l.preferences.skips category := by simpa [discards, hcategory] using ht
      have hne : category ≠ l.preferences.identifierCategory := by
        rintro rfl
        simp [hkeeps] at hskips
      simpa [rename, discards, hcategory, Keywords.resolve, hne] using hskips

/-- Leaving out is a filter on two categories: of the stream in which nothing is left out, those tokens
go whose category is left out before the keyword table is asked, or after it.  It is a filter on the
second category alone if and only if no token of the first kind gets a category that stays, and so
always if identifiers are not left out. -/
theorem tokenize_of_skipping_nil {l : Lexer} {text : String} {full : TokenStream}
    (hfull : ((l.skipping []).tokenize text).1.value = .ok full) :
    ∃ plain stream,
      (((l.withKeywords .empty).skipping []).tokenize text).1.value = .ok plain ∧
      (l.tokenize text).1.value = .ok stream ∧
      full.toList = plain.toList.map (Located.map l.rename) ∧
      stream.toList = (plain.toList.filter fun t =>
        !l.discards t.value && !l.discards (l.rename t.value)).map (Located.map l.rename) ∧
      ((stream.toList = full.toList.filter fun t => !l.discards t.value) ↔
        ∀ t ∈ plain.toList, l.discards t.value → l.discards (l.rename t.value)) ∧
      (l.preferences.skips l.preferences.identifierCategory = false →
        stream.toList = full.toList.filter fun t => !l.discards t.value) := by
  obtain ⟨plain, hplain, hrenamed⟩ := exists_plain_of_skipping_nil hfull
  have hkept : plain.toList.filterMap (Located.filterMap? l.resolve?) =
      (plain.toList.filter fun t => !l.discards t.value && !l.discards (l.rename t.value)).map
        (Located.map l.rename) := by
    rw [← List.filterMap_eq_map, List.filterMap_filter]
    congr 1
    funext t
    rw [Located.filterMap?, resolve?, ← Bool.not_or]
    cases l.discards t.value || l.discards (l.rename t.value) <;> rfl
  have hfilter : (full.toList.filter fun t => !l.discards t.value) =
      (plain.toList.filter fun t => !l.discards (l.rename t.value)).map (Located.map l.rename) := by
    rw [hrenamed, List.filter_map]
    rfl
  have hexact : (plain.toList.filterMap (Located.filterMap? l.resolve?) =
      full.toList.filter fun t => !l.discards t.value) ↔
        ∀ t ∈ plain.toList, l.discards t.value → l.discards (l.rename t.value) := by
    rw [hkept, hfilter, map_filter_and_eq_iff]
    refine forall₂_congr fun t hmem => ?_
    cases l.discards t.value <;> simp
  refine ⟨plain, _, hplain, l.reworks_resolve?.tokenize hplain, hrenamed, hkept, hexact, ?_⟩
  exact fun hkeeps => hexact.mpr fun t hmem => discards_rename hkeeps

/-- A keyword that is left out, and an identifier that stays. -/
theorem tokenize_conditional_skipping_keyword :
    (((conditional.skipping ["If"]).skipping []).tokenize "if x").1.value =
        .ok ⟨#[⟨⟨"if", some "If"⟩, ⟨⟨0, 1, 1⟩, ⟨2, 1, 3⟩⟩⟩,
          ⟨⟨"x", some "Identifier"⟩, ⟨⟨3, 1, 4⟩, ⟨4, 1, 5⟩⟩⟩], 0⟩ ∧
      ∃ stream, ((conditional.skipping ["If"]).tokenize "if x").1.value = .ok stream ∧
        stream.toList = [⟨⟨"x", some "Identifier"⟩, ⟨⟨3, 1, 4⟩, ⟨4, 1, 5⟩⟩⟩] := by
  have hfull := tokenize_conditional []
  obtain ⟨plain, stream, -, hstream, -, -, -, hfilter⟩ := tokenize_of_skipping_nil
    (show (((conditional.skipping ["If"]).skipping []).tokenize "if x").1.value = _ from hfull)
  refine ⟨hfull, stream, hstream, (hfilter (by decide)).trans ?_⟩
  decide

/-- Identifiers are left out, and a keyword goes with them, whose category is not: the filter on the
categories after the keyword table would let it stay. -/
theorem tokenize_conditional_skipping_identifiers :
    Lexer.ofTables StandardTables.lexicalMachine (Keywords.parse "if,If\n").value
        { Preferences.Lexical.ofEnvironment ⟨[]⟩ with skipCategories := ["Identifier"] } =
        .ok (conditional.skipping ["Identifier"]) ∧
      ∃ full, (((conditional.skipping ["Identifier"]).skipping []).tokenize "if x").1.value =
          .ok full ∧
        ¬ ∃ stream, ((conditional.skipping ["Identifier"]).tokenize "if x").1.value = .ok stream ∧
          stream.toList =
            full.toList.filter fun t => !(conditional.skipping ["Identifier"]).discards t.value := by
  constructor
  · rw [Lexer.ofTables, StandardTables.entry_lexicalMachine]
    rfl
  refine ⟨_, tokenize_conditional [], ?_⟩
  rintro ⟨stream, hstream, htokens⟩
  rw [tokenize_conditional, Except.ok.injEq] at hstream
  rw [← hstream] at htokens
  revert htokens
  decide

end Skipping

end Lexer

end TableLexer
