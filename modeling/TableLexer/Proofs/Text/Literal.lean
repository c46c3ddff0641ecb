import Mathlib.Algebra.Group.Nat.Even
import TableLexer.Proofs.Text.HexSymbol
import TableLexer.Text.Literal
/-!
Reading literals.  A literal is read back by undoing its escapes from left to right, and gives the text
that it was made of.  So no two texts have the same literal, whatever the escapes stand next to.
-/

namespace TableLexer.Literal

open HexSymbol (IsNumeral numeral digitValue)

/-- The characters that are escaped by a name of one character, each after its name. -/
def names : List (Char × Char) :=
  [('n', '\n'), ('r', '\r'), ('t', '\t'), ('0', '\x00'), ('\\', '\\'), ('"', '"')]

theorem toNat_le_of_isControl {c : Char} (hc : isControl c) : c.toNat ≤ 0x9F := by
  rw [isControl, Bool.or_eq_true, Bool.and_eq_true, decide_eq_true_iff, decide_eq_true_iff,
    decide_eq_true_iff] at hc
  omega

/-- A character is escaped by its name or by its number, or stands for itself. -/
theorem escape_cases (c : Char) :
    (∃ name, (name, c) ∈ names ∧ escape c = ['\\', name]) ∨
    (isControl c ∧ escape c = '\\' :: 'u' :: '\x7b' :: (hex4 c.toNat ++ ['\x7d'])) ∨
    (c ≠ '"' ∧ c ≠ '\\' ∧ ¬ isControl c ∧ escape c = [c]) := by
  by_cases hnamed : c ∈ names.map Prod.snd
  · left
    obtain ⟨⟨name, c⟩, hmem, rfl⟩ := List.mem_map.mp hnamed
    exact ⟨name, hmem, (by decide : ∀ entry ∈ names, escape entry.2 = ['\\', entry.1]) _ hmem⟩
  · simp only [names, List.map_cons, List.map_nil, List.mem_cons, List.not_mem_nil, or_false,
      not_or] at hnamed
    obtain ⟨hfeed, hreturn, htab, hnul, hslash, hquote⟩ := hnamed
    have hescape : escape c = if isControl c then
        ['\\', 'u', '\x7b'] ++ hex4 c.toNat ++ ['\x7d'] else [c] := by
      rw [escape, if_neg hfeed, if_neg hreturn, if_neg htab, if_neg hnul, if_neg hslash,
        if_neg hquote]
    by_cases hcontrol : isControl c
    · exact .inr (.inl ⟨hcontrol, hescape.trans (if_pos hcontrol)⟩)
    · exact .inr (.inr ⟨hquote, hslash, hcontrol, hescape.trans (if_neg hcontrol)⟩)

theorem hexDigit_spec : ∀ n < 16, (hexDigit n).isHexDigit ∧ digitValue (hexDigit n) = n := by
  decide

/-- Four digits are enough for a number below 16 ^ 4. -/
theorem numeral_hex4 {n : Nat} (hn : n < 65536) : IsNumeral (hex4 n) ∧ numeral (hex4 n) = n := by
  have hdigit : ∀ k, (hexDigit (k % 16)).isHexDigit ∧ digitValue (hexDigit (k % 16)) = k % 16 :=
    fun k => hexDigit_spec _ (Nat.mod_lt k (by decide))
  constructor
  · refine ⟨List.cons_ne_nil _ _, ?_⟩
    simp [hex4, hdigit]
  · have hnil : numeral [] = 0 := rfl
    simp only [hex4, HexSymbol.numeral_cons, hdigit, List.length_cons, List.length_nil, hnil]
    omega

section Reading

mutual

/-- What stands between the quotes, read up to the closing quote, which has to come last. -/
def readBody : List Char → Option (List Char)
  | '\\' :: 'u' :: '\x7b' :: rest => readNumber [] rest
  | '\\' :: name :: rest => (names.lookup name).bind fun c => (readBody rest).map (c :: ·)
  | ['"'] => some []
  | c :: rest => if c = '"' ∨ c = '\\' then none else (readBody rest).map (c :: ·)
  | [] => none

/-- The number of a character up to its closing brace, and what comes after it.  The digits that were
read before are last first. -/
def readNumber (word : List Char) : List Char → Option (List Char)
  | '\x7d' :: rest =>
    if IsNumeral word.reverse then
      (HexSymbol.scalar? (numeral word.reverse)).bind fun c => (readBody rest).map (c :: ·)
    else none
  | c :: rest => readNumber (c :: word) rest
  | [] => none

end

/-- The text of a literal. -/
def decode? (literal : String) : Option String :=
  match literal.toList with
  | '"' :: body => (readBody body).map String.ofList
  | _ => none

theorem readBody_name {name c : Char} (hmem : (name, c) ∈ names) (rest : List Char) :
    readBody ('\\' :: name :: rest) = (readBody rest).map (c :: ·) := by
  have hname : name ≠ 'u' := (by decide : ∀ entry ∈ names, entry.1 ≠ 'u') _ hmem
  have hlookup : names.lookup name = some c :=
    (by decide : ∀ entry ∈ names, names.lookup entry.1 = some entry.2) _ hmem
  rw [readBody, hlookup, Option.bind_some]
  exact fun _ heq _ => hname heq

theorem readBody_plain {c : Char} (hquote : c ≠ '"') (hslash : c ≠ '\\') (rest : List Char) :
    readBody (c :: rest) = (readBody rest).map (c :: ·) := by
  rw [readBody, if_neg (not_or.mpr ⟨hquote, hslash⟩)]
  · exact fun _ heq _ => hslash heq
  · exact fun _ _ heq _ => hslash heq
  · exact fun heq _ => hquote heq

theorem readNumber_append {digits : List Char} (hdigits : ∀ c ∈ digits, c.isHexDigit)
    (word rest : List Char) :
    readNumber word (digits ++ rest) = readNumber (digits.reverse ++ word) rest := by
  induction digits generalizing word with
  | nil => rfl
  | cons c digits ih =>
      rw [List.forall_mem_cons] at hdigits
      have hc : c ≠ '\x7d' := by
        rintro rfl
        exact absurd hdigits.1 (by decide)
      rw [List.cons_append, readNumber, ih hdigits.2, List.reverse_cons, List.append_assoc,
        List.singleton_append]
      exact hc

/-- Four digits and a closing brace are read as the character with their number. -/
theorem readNumber_hex4 {c : Char} (hc : c.toNat < 65536) (rest : List Char) :
    readNumber [] (hex4 c.toNat ++ '\x7d' :: rest) = (readBody rest).map (c :: ·) := by
  obtain ⟨hnumeral, hvalue⟩ := numeral_hex4 hc
  have hscalar := (HexSymbol.scalar?_eq_some_iff c.toNat c).mpr rfl
  rw [readNumber_append hnumeral.2, List.append_nil, readNumber, List.reverse_reverse,
    if_pos hnumeral, hvalue, hscalar, Option.bind_some]

/-- An escape is read as the character that it stands for, whatever comes after it. -/
theorem readBody_escape (c : Char) (rest : List Char) :
    readBody (escape c ++ rest) = (readBody rest).map (c :: ·) := by
  rcases escape_cases c with ⟨name, hmem, hescape⟩ | ⟨hcontrol, hescape⟩ |
    ⟨hquote, hslash, -, hescape⟩
  · rw [hescape]
    exact readBody_name hmem rest
  · have hlt : c.toNat < 65536 := Nat.lt_of_le_of_lt (toNat_le_of_isControl hcontrol) (by decide)
    rw [hescape, List.cons_append, List.cons_append, List.cons_append, readBody,
      List.append_assoc, List.singleton_append]
    exact readNumber_hex4 hlt rest
  · rw [hescape]
    exact readBody_plain hquote hslash rest

theorem readBody_flatMap (text rest : List Char) :
    readBody (text.flatMap escape ++ rest) = (readBody rest).map (text ++ ·) := by
  induction text with
  | nil => simp
  | cons c text ih =>
      rw [List.flatMap_cons, List.append_assoc, readBody_escape, ih, Option.map_map]
      rfl

/-- A literal is read as the text that it was made of. -/
theorem decode?_ofText (text : String) : decode? (ofText text) = some text := by
  have hbody : readBody (text.toList.flatMap escape ++ ['"']) = some text.toList := by
    rw [readBody_flatMap, readBody, Option.map_some, List.append_nil]
  rw [decode?, ofText, String.toList_ofList, encode]
  simp only [hbody, Option.map_some, String.ofList_toList]

/-- Digits are read in either case and in any number, and a quote that is not escaped has to come
last. -/
example : decode? "\"a\\t\\u\x7b4a\x7d\\u\x7b00004A\x7d\"" = some "a\tJJ" ∧ decode? "\"a\"b\"" = none := by
  decide

end Reading

section Shape

/-- How many backslashes a text ends with.  They escape each other from the left, so the character after
them is escaped if and only if their number is odd. -/
def slashes (text : List Char) : Nat := (text.reverse.takeWhile (· = '\\')).length

theorem slashes_concat {c : Char} (hc : c ≠ '\\') (text : List Char) :
    slashes (text ++ [c]) = 0 := by
  simp [slashes, hc]

/-- An even number of backslashes before a text changes nothing for what comes after the text. -/
theorem odd_slashes_append_iff {first : List Char} (hfirst : Even (slashes first))
    (second : List Char) : Odd (slashes (first ++ second)) ↔ Odd (slashes second) := by
  rw [slashes, List.reverse_append, List.takeWhile_append]
  split_ifs with hall
  · have hsecond : slashes second = second.reverse.length := hall
    rw [List.length_append, ← hsecond, Nat.odd_add]
    exact iff_true_right hfirst
  · rfl

/-- No character of an escape is a control character, and only the double quote has one in its escape. -/
theorem mem_escape {c d : Char} (hd : d ∈ escape c) : ¬ isControl d ∧ (d = '"' → c = '"') := by
  rcases escape_cases c with ⟨name, hmem, hescape⟩ | ⟨-, hescape⟩ | ⟨-, -, hprints, hescape⟩
  · rw [hescape] at hd
    have hentry := (by decide : ∀ entry ∈ names, ∀ d ∈ ['\\', entry.1],
      ¬ isControl d ∧ (d = '"' → entry.2 = '"'))
    exact hentry _ hmem d hd
  · have hdigit : ∀ n < 16, ¬ isControl (hexDigit n) ∧ hexDigit n ≠ '"' := by decide
    have hlow : ∀ n, ¬ isControl (hexDigit (n % 16)) ∧ hexDigit (n % 16) ≠ '"' :=
      fun n => hdigit _ (Nat.mod_lt n (by decide))
    have hchars : ∀ d ∈ escape c, ¬ isControl d ∧ d ≠ '"' := by
      rw [hescape]
      simp only [hex4, List.cons_append, List.nil_append, List.forall_mem_cons]
      exact ⟨by decide, by decide, by decide, hlow _, hlow _, hlow _, hlow _, by decide, by simp⟩
    exact ⟨(hchars d hd).1, fun heq => absurd heq (hchars d hd).2⟩
  · rw [hescape, List.mem_singleton] at hd
    exact ⟨hd ▸ hprints, fun heq => hd ▸ heq⟩

theorem even_slashes_escape (c : Char) : Even (slashes (escape c)) := by
  rcases escape_cases c with ⟨name, hmem, hescape⟩ | ⟨-, hescape⟩ | ⟨-, hslash, -, hescape⟩
  · rw [hescape]
    exact (by decide : ∀ entry ∈ names, Even (slashes ['\\', entry.1])) _ hmem
  · have hzero : slashes (escape c) = 0 := by
      rw [hescape]
      exact slashes_concat (by decide) ('\\' :: 'u' :: '\x7b' :: hex4 c.toNat)
    exact hzero ▸ Even.zero
  · have hzero : slashes (escape c) = 0 := by
      rw [hescape]
      exact slashes_concat hslash []
    exact hzero ▸ Even.zero

theorem even_slashes_flatMap (text : List Char) : Even (slashes (text.flatMap escape)) := by
  induction text with
  | nil => decide
  | cons c text ih =>
      rw [← Nat.not_odd_iff_even] at ih ⊢
      rwa [List.flatMap_cons, odd_slashes_append_iff (even_slashes_escape c)]

/-- A double quote in an escape is the double quote that is escaped. -/
theorem eq_slash_of_escape {c : Char} {before after : List Char}
    (hescape : escape c = before ++ '"' :: after) : before = ['\\'] := by
  obtain rfl : c = '"' := (mem_escape (by simp [hescape])).2 rfl
  have hpair : ['\\', '"'] = before ++ '"' :: after := hescape
  cases before with
  | nil => simp at hpair
  | cons d before =>
      obtain ⟨rfl, rfl, -⟩ : '\\' = d ∧ before = [] ∧ after = [] := by
        simpa [List.singleton_eq_append_iff] using hpair
      rfl

/-- Every double quote between the quotes of a literal is escaped. -/
theorem odd_slashes_of_flatMap {text before after : List Char}
    (htext : text.flatMap escape = before ++ '"' :: after) : Odd (slashes before) := by
  induction text generalizing before with
  | nil => simp at htext
  | cons c text ih =>
      have heven := even_slashes_escape c
      rw [List.flatMap_cons, List.append_eq_append_iff] at htext
      rcases htext with ⟨middle, rfl, hrest⟩ | ⟨middle, hescape, hrest⟩
      · exact (odd_slashes_append_iff heven middle).mpr (ih hrest)
      · cases middle with
        | nil =>
            have hempty : Odd (slashes []) := ih hrest.symm
            have hodd := (odd_slashes_append_iff heven []).mpr hempty
            rwa [List.append_nil, hescape, List.append_nil] at hodd
        | cons d middle =>
            obtain ⟨rfl, -⟩ := List.cons.inj hrest
            rw [eq_slash_of_escape hescape]
            decide

/-- The double quotes of a literal are escaped but for the first character and the last. -/
theorem odd_slashes_encode_iff {text before after : List Char}
    (hsplit : encode text = before ++ '"' :: after) :
    Odd (slashes before) ↔ before ≠ [] ∧ after ≠ [] := by
  rw [encode] at hsplit
  cases before with
  | nil => exact iff_of_false (by decide) fun hinner => hinner.1 rfl
  | cons d before =>
      rw [List.cons_append, List.cons.injEq] at hsplit
      obtain ⟨rfl, hsplit⟩ := hsplit
      rw [← List.singleton_append, odd_slashes_append_iff (by decide)]
      rcases List.eq_nil_or_concat after with rfl | ⟨inner, e, rfl⟩
      · obtain ⟨rfl, -⟩ := List.append_inj' hsplit rfl
        have heven := even_slashes_flatMap text
        exact iff_of_false (Nat.not_odd_iff_even.mpr heven) fun hinner => hinner.2 rfl
      · rw [List.concat_eq_append, ← List.cons_append, ← List.append_assoc] at hsplit
        obtain ⟨hbody, -⟩ := List.append_inj' hsplit rfl
        exact iff_of_true (odd_slashes_of_flatMap hbody) (by simp)

/-- The shape of literals. A literal has no control characters and stands between two double quotes;
those of its double quotes are escaped that are neither the first character nor the last.  It is read as
the text that it was made of, so two texts with the same literal are the same. -/
theorem reversible_ofText (text : String) :
    (∀ c ∈ (ofText text).toList, ¬ isControl c) ∧
    (∃ body, (ofText text).toList = '"' :: (body ++ ['"'])) ∧
    (∀ before after, (ofText text).toList = before ++ '"' :: after →
      (Odd (slashes before) ↔ before ≠ [] ∧ after ≠ [])) ∧
    decode? (ofText text) = some text ∧
    ∀ other, ofText other = ofText text → other = text := by
  have hliteral : (ofText text).toList = '"' :: (text.toList.flatMap escape ++ ['"']) := by
    rw [ofText, String.toList_ofList, encode]
  refine ⟨?_, ⟨_, hliteral⟩, ?_, decode?_ofText text, ?_⟩
  · intro c hc
    rw [hliteral, List.mem_cons, List.mem_append, List.mem_flatMap, List.mem_singleton] at hc
    rcases hc with rfl | ⟨d, -, hmem⟩ | rfl
    · decide
    · exact (mem_escape hmem).1
    · decide
  · intro before after hsplit
    rw [ofText, String.toList_ofList] at hsplit
    exact odd_slashes_encode_iff hsplit
  · intro other hother
    have hread := decode?_ofText other
    rw [hother, decode?_ofText] at hread
    exact (Option.some.inj hread).symm

end Shape

end TableLexer.Literal
