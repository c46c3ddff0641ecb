import TableLexer.CommandLine.Invocation
import TableLexer.Proofs.Lexer.Categories
/-!
Stepping shows the tokens that tokenizing gives.  Each line of input leaves the lexer where it stands,
or takes it to the next item, or to the end; so what was shown is always the beginning of the token
stream, and what is still to read gives the rest of it.  Only a command to quit that was answered with
yes ends the program early.
-/

namespace TableLexer.CommandLine

/-- A token on its own line.  Of a bad one not even the lexeme is shown. -/
def tokenLine (t : Token) : String :=
  if t.isBad then asLine "Invalid token" else asLine (goodTokenText t)

/-- The line that an utterance shows of a token, if it shows one. -/
def Utterance.tokenLine? : Utterance → Option String
  | item i => some (item i).text
  | _ => none

def tokenLines (utterances : List Utterance) : List String :=
  utterances.filterMap Utterance.tokenLine?

theorem tokenLines_append (first second : List Utterance) :
    tokenLines (first ++ second) = tokenLines first ++ tokenLines second :=
  List.filterMap_append

def streamLines (tokens : List (Located Token)) : List String :=
  tokens.map fun t => tokenLine t.value

theorem streamLines_append (first second : List (Located Token)) :
    streamLines (first ++ second) = streamLines first ++ streamLines second :=
  List.map_append

namespace Stepping

variable {l : Lexer} {s : Lexer.State} {tokens : List (Located Token)}

/-- What is still to read of a program consists of some tokens. -/
def Awaits (l : Lexer) (s : Lexer.State) (tokens : List (Located Token)) : Prop :=
  l.Reading s.position s.rest tokens

theorem tokenLine_toToken {item : Lexer.Item} {reached : Lexer.State}
    (hitem : l.item s = (some item, reached)) :
    (Utterance.item item).text = tokenLine item.toToken := by
  cases item with
  | token t =>
      have hgood : t.isBad = false := Lexer.isBad_of_item_eq_token hitem
      rw [tokenLine, Lexer.Item.toToken, hgood]
      rfl
  | bad lexeme => rfl
  | unrecognized c => rfl

/-- The next item is the first of the tokens that are awaited; without an item none is. -/
theorem Awaits.item (hawaits : Awaits l s tokens) :
    (∃ reached, l.item s = (none, reached) ∧ tokens = []) ∨
    (∃ item reached t rest, l.item s = (some item, reached) ∧ tokens = t :: rest ∧
      (Utterance.item item).text = tokenLine t.value ∧ Awaits l reached rest) := by
  cases hitem : l.item s with
  | mk found reached =>
      cases found with
      | none => exact .inl ⟨reached, rfl, hawaits.unique (Lexer.reading_of_item_eq_none hitem)⟩
      | some item =>
          obtain ⟨rest, hrest⟩ := l.exists_reading reached
          exact .inr ⟨item, reached, _, rest, rfl,
            hawaits.unique (Lexer.reading_of_item hitem hrest), tokenLine_toToken hitem, hrest⟩

theorem Awaits.eq_nil (hawaits : Awaits l s tokens) (hended : ¬ s.hasNext) : tokens = [] := by
  have hrest : s.rest = [] := by simpa [Lexer.State.hasNext] using hended
  rw [Awaits, hrest] at hawaits
  exact hawaits.unique (.nil l s.position)

/-- All that is still to come are the tokens that are awaited. -/
theorem tokenLines_remainingFrom (shown : List Utterance) (hawaits : Awaits l s tokens) :
    tokenLines (remainingFrom l shown s) = tokenLines shown.reverse ++ streamLines tokens := by
  fun_induction remainingFrom l shown s generalizing tokens with
  | case1 shown s hnext item reached hitem ih =>
      rcases hawaits.item with ⟨_, hnone, -⟩ | ⟨item', reached', t, rest, hsome, rfl, hline, hrest⟩
      · simp [hitem] at hnone
      · obtain ⟨hsame, rfl⟩ := Prod.mk.inj (hitem.symm.trans hsome)
        obtain rfl := Option.some.inj hsame
        rw [ih hrest, List.reverse_cons, tokenLines_append, List.append_assoc]
        simp [tokenLines, Utterance.tokenLine?, streamLines, hline]
  | case2 shown s hnext reached hitem =>
      rcases hawaits.item with ⟨_, -, rfl⟩ | ⟨_, _, _, _, hsome, -⟩
      · simp [streamLines]
      · simp [hitem] at hsome
  | case3 shown s hended =>
      rw [hawaits.eq_nil hended]
      simp [streamLines]

theorem tokenLines_remaining (hawaits : Awaits l s tokens) :
    tokenLines (remaining l s) = streamLines tokens :=
  tokenLines_remainingFrom [] hawaits

/-- A step shows some of the tokens that are awaited: `shown` of them, before `rest`.  It waits for more
where `rest` comes from, and if it waits no more nothing is left, unless the user quits. -/
structure Shows (l : Lexer) (step : List Utterance × Option Stepping)
    (shown rest : List (Located Token)) (quits : Prop) : Prop where
  lines : tokenLines step.1 = streamLines shown
  waits : ∀ w, step.2 = some w → Awaits l w.state rest
  ends : step.2 = none → rest = [] ∨ quits

theorem shows_proceed (hawaits : Awaits l s tokens) :
    ∃ shown rest, tokens = shown ++ rest ∧ Shows l (proceed l s) shown rest False := by
  unfold proceed
  by_cases hnext : s.hasNext
  · rw [if_pos hnext]
    rcases hawaits.item with ⟨reached, hnone, rfl⟩ | ⟨item, reached, t, rest, hsome, rfl, hline, hrest⟩
    · rw [hnone]
      exact ⟨[], [], rfl, rfl, nofun, fun _ => .inl rfl⟩
    · rw [hsome]
      refine ⟨[t], rest, rfl, ?_, ?_, nofun⟩
      · simp [tokenLines, Utterance.tokenLine?, streamLines, hline]
      · intro w hw
        rw [← Option.some.inj hw]
        exact hrest
  · rw [if_neg hnext, hawaits.eq_nil hnext]
    exact ⟨[], [], rfl, rfl, nofun, fun _ => .inl rfl⟩

/-- An utterance that is no token, before going on, shows nothing more. -/
theorem Shows.after_other {step : List Utterance × Option Stepping}
    {shown rest : List (Located Token)} {quits : Prop} (hshows : Shows l step shown rest quits)
    {u : Utterance} (hother : u.tokenLine? = none) :
    Shows l (u :: step.1, step.2) shown rest quits where
  lines := by
    rw [tokenLines, List.filterMap_cons_none hother]
    exact hshows.lines
  waits := hshows.waits
  ends := hshows.ends

/-- Where the lexer stays, nothing is shown. -/
theorem shows_staying {u : Utterance} (hother : u.tokenLine? = none) (w : Stepping)
    (hawaits : Awaits l w.state tokens) {quits : Prop} : Shows l ([u], some w) [] tokens quits where
  lines := by simp [tokenLines, hother, streamLines]
  waits := by
    intro w' hw
    rw [← Option.some.inj hw]
    exact hawaits
  ends := nofun

/-- What a line of input can do. -/
theorem shows_feed {w : Stepping} (hawaits : Awaits l w.state tokens) (line : String) :
    ∃ shown rest, tokens = shown ++ rest ∧
      Shows l (feed l w line) shown rest (∃ s, w = .quitting s ∧ line.toLower = "y") := by
  have hproceed : ∃ shown rest, tokens = shown ++ rest ∧ Shows l (proceed l w.state) shown rest
      (∃ s, w = .quitting s ∧ line.toLower = "y") := by
    obtain ⟨shown, rest, hsplit, hlines, hwaits, hends⟩ := shows_proceed hawaits
    exact ⟨shown, rest, hsplit, hlines, hwaits, fun hnone => (hends hnone).imp_right False.elim⟩
  unfold feed
  split
  next s hline => exact ⟨[], tokens, rfl, shows_staying rfl (.quitting s) hawaits⟩
  next s hline => exact ⟨[], tokens, rfl, shows_staying rfl (.rushing s) hawaits⟩
  next s hline =>
    obtain ⟨shown, rest, hsplit, hshows⟩ := hproceed
    exact ⟨shown, rest, hsplit, hshows.after_other rfl⟩
  next s hline => exact hproceed
  next s hline => exact ⟨[], tokens, rfl, rfl, nofun, fun _ => .inr ⟨s, rfl, hline⟩⟩
  next s hline =>
    exact ⟨tokens, [], (List.append_nil tokens).symm, tokenLines_remaining hawaits, nofun,
      fun _ => .inl rfl⟩
  next s hline => exact hproceed
  next s hline => exact hproceed
  next s hyes hno => exact ⟨[], tokens, rfl, shows_staying rfl (.quitting s) hawaits⟩
  next s hyes hno => exact ⟨[], tokens, rfl, shows_staying rfl (.rushing s) hawaits⟩

/-- What was shown and what is waited for after one more line.  A line that comes when nothing is waited
for any more is not looked at. -/
def stepLine (l : Lexer) (step : List Utterance × Option Stepping) (line : String) :
    List Utterance × Option Stepping :=
  match step.2 with
  | some w => (step.1 ++ (feed l w line).1, (feed l w line).2)
  | none => step

/-- What was shown of a program and what is waited for after some lines. -/
def after (l : Lexer) (text : String) (lines : List String) : List Utterance × Option Stepping :=
  lines.foldl (stepLine l) (begin l text)

theorem after_concat_of_waits {text : String} {lines : List String} {w : Stepping}
    (hwaits : (after l text lines).2 = some w) (line : String) :
    after l text (lines ++ [line]) =
      ((after l text lines).1 ++ (feed l w line).1, (feed l w line).2) := by
  rw [after, List.foldl_append, ← after, List.foldl_cons, List.foldl_nil, stepLine]
  simp only [hwaits]

theorem after_append_of_ended {text : String} {lines : List String}
    (hended : (after l text lines).2 = none) (more : List String) :
    after l text (lines ++ more) = after l text lines := by
  rw [after, List.foldl_append, ← after]
  induction more with
  | nil => rfl
  | cons line more ih => rwa [List.foldl_cons, stepLine, hended]

/-- When the input has ended, what is still to come is shown after what was shown line by line. -/
theorem run_eq_foldl (l : Lexer) (step : List Utterance × Option Stepping) (lines : List String) :
    run l step.1 step.2 lines =
      (lines.foldl (stepLine l) step).1 ++
        ((lines.foldl (stepLine l) step).2.map (conclude l)).getD [] := by
  induction lines generalizing step with
  | nil => cases hnext : step.2 <;> simp [run, hnext]
  | cons line lines ih =>
      rw [List.foldl_cons, ← ih]
      cases hnext : step.2 with
      | some w => simp only [run, stepLine, hnext]
      | none => cases lines <;> simp [run, stepLine, hnext]

/-- After `before` comes a command to quit, and of the lines after it none is an answer yet. -/
structure AsksToQuit (l : Lexer) (text : String) (lines before : List String) : Prop where
  waits : ∃ s, (after l text before).2 = some (.command s)
  splits : ∃ quit unclear, lines = before ++ quit :: unclear ∧ quit.toLower = "q" ∧
    ∀ line ∈ unclear, line.toLower ≠ "y" ∧ line.toLower ≠ "n"

/-- After `before` comes a command to quit, and of the lines after it the first that is an answer says
yes. -/
def ConfirmsQuit (l : Lexer) (text : String) (lines before : List String) : Prop :=
  ∃ asking yes rest, AsksToQuit l text asking before ∧ lines = asking ++ yes :: rest ∧
    yes.toLower = "y"

theorem ConfirmsQuit.concat {text line : String} {lines before : List String}
    (hquits : ConfirmsQuit l text lines before) : ConfirmsQuit l text (lines ++ [line]) before := by
  obtain ⟨asking, yes, rest, hasks, rfl, hyes⟩ := hquits
  exact ⟨asking, yes, rest ++ [line], hasks, by simp, hyes⟩

/-- After an item a command is waited for. -/
theorem proceed_ne_quitting (l : Lexer) (s t : Lexer.State) :
    (proceed l s).2 ≠ some (.quitting t) := by
  unfold proceed
  split
  · split <;> simp
  · simp

/-- The question about quitting is asked at a command to quit, and asked again at what is no answer. -/
theorem eq_of_feed_eq_quitting {w : Stepping} {line : String}
    (hfeed : (feed l w line).2 = some (.quitting s)) :
    (w = .command s ∧ line.toLower = "q") ∨
      (w = .quitting s ∧ line.toLower ≠ "y" ∧ line.toLower ≠ "n") := by
  unfold feed at hfeed
  split at hfeed
  next t hline => exact .inl ⟨by simpa using hfeed, hline⟩
  next t hline => simp at hfeed
  next t hline => exact absurd hfeed (proceed_ne_quitting l t s)
  next t hquit hrest hhelp => exact absurd hfeed (proceed_ne_quitting l t s)
  next t hline => simp at hfeed
  next t hline => simp at hfeed
  next t hline => exact absurd hfeed (proceed_ne_quitting l t s)
  next t hline => exact absurd hfeed (proceed_ne_quitting l t s)
  next t hyes hno => exact .inr ⟨Option.some.inj hfeed, hyes, hno⟩
  next t hyes hno => simp at hfeed

/-- Where the answer to a quit question is waited for, there was a command to quit. -/
theorem exists_asksToQuit {text : String} {lines : List String}
    (hwaits : (after l text lines).2 = some (.quitting s)) :
    ∃ before, AsksToQuit l text lines before := by
  induction lines using List.reverseRecOn generalizing s with
  | nil => exact absurd hwaits (proceed_ne_quitting l _ s)
  | append_singleton lines line ih =>
      cases hnext : (after l text lines).2 with
      | none => simp [after_append_of_ended hnext, hnext] at hwaits
      | some w =>
          rw [after_concat_of_waits hnext] at hwaits
          rcases eq_of_feed_eq_quitting hwaits with ⟨rfl, hquit⟩ | ⟨rfl, hunclear⟩
          · exact ⟨lines, ⟨s, hnext⟩, line, [], rfl, hquit, nofun⟩
          · obtain ⟨before, hwaited, quit, unclear, rfl, hquit, hnone⟩ := ih hnext
            refine ⟨before, hwaited, quit, unclear ++ [line], by simp, hquit, ?_⟩
            exact List.forall_mem_append.mpr ⟨hnone, List.forall_mem_singleton.mpr hunclear⟩

/-- A question about quitting shows no token, and waits for its answer. -/
theorem AsksToQuit.after_eq {text : String} {lines before : List String}
    (hasks : AsksToQuit l text lines before) :
    (∃ s, (after l text lines).2 = some (.quitting s)) ∧
      tokenLines (after l text lines).1 = tokenLines (after l text before).1 := by
  obtain ⟨⟨s, hwaits⟩, quit, unclear, rfl, hquit, hunclear⟩ := hasks
  induction unclear using List.reverseRecOn with
  | nil =>
      have hfeed : feed l (.command s) quit = ([.quitQuestion], some (.quitting s)) := by
        simp [feed, hquit]
      rw [after_concat_of_waits hwaits, hfeed]
      exact ⟨⟨s, rfl⟩, by simp [tokenLines, Utterance.tokenLine?]⟩
  | append_singleton unclear line ih =>
      obtain ⟨hearlier, hlast⟩ := List.forall_mem_append.mp hunclear
      obtain ⟨hyes, hno⟩ := hlast line List.mem_cons_self
      obtain ⟨⟨t, hnext⟩, hlines⟩ := ih hearlier
      have hfeed : feed l (.quitting t) line = ([.answerReminder], some (.quitting t)) := by
        unfold feed
        split <;> simp_all
      rw [← List.cons_append, ← List.append_assoc, after_concat_of_waits hnext, hfeed]
      refine ⟨⟨t, rfl⟩, ?_⟩
      rw [← hlines]
      simp [tokenLines, Utterance.tokenLine?]

/-- After a quit nothing is waited for, and no more was shown than before the command. -/
theorem ConfirmsQuit.after_eq {text : String} {lines before : List String}
    (hquits : ConfirmsQuit l text lines before) :
    (after l text lines).2 = none ∧
      tokenLines (after l text lines).1 = tokenLines (after l text before).1 := by
  obtain ⟨asking, yes, rest, hasks, rfl, hyes⟩ := hquits
  obtain ⟨⟨s, hnext⟩, hlines⟩ := hasks.after_eq
  have hfeed : feed l (.quitting s) yes = ([], none) := by simp [feed, hyes]
  have hended : after l text (asking ++ [yes]) = ((after l text asking).1, none) := by
    rw [after_concat_of_waits hnext, hfeed, List.append_nil]
  rw [List.append_cons, after_append_of_ended (by rw [hended]), hended]
  exact ⟨rfl, hlines⟩

/-- Whatever the lines are, what was shown after them is a beginning of the tokens, and what is waited
for shows the rest of them. -/
theorem exists_shows_after {text : String} (hawaits : Awaits l (.ofText text) tokens)
    (lines : List String) :
    ∃ shown rest, tokens = shown ++ rest ∧
      Shows l (after l text lines) shown rest (∃ before, ConfirmsQuit l text lines before) := by
  induction lines using List.reverseRecOn with
  | nil =>
      obtain ⟨shown, rest, hsplit, hlines, hwaits, hends⟩ := shows_proceed hawaits
      have hshows : Shows l (proceed l (.ofText text)) shown rest
          (∃ before, ConfirmsQuit l text [] before) :=
        ⟨hlines, hwaits, fun hnone => (hends hnone).imp_right False.elim⟩
      exact ⟨shown, rest, hsplit, hshows.after_other rfl⟩
  | append_singleton lines line ih =>
      obtain ⟨shown, rest, hsplit, hlines, hwaits, hends⟩ := ih
      cases hnext : (after l text lines).2 with
      | none =>
          rw [after_append_of_ended hnext]
          refine ⟨shown, rest, hsplit, hlines, hwaits, fun hnone => (hends hnone).imp_right ?_⟩
          rintro ⟨before, hquits⟩
          exact ⟨before, hquits.concat⟩
      | some w =>
          rw [after_concat_of_waits hnext]
          obtain ⟨more, left, rfl, hmore, hwaits', hends'⟩ := shows_feed (hwaits w hnext) line
          refine ⟨shown ++ more, left, by rw [hsplit, List.append_assoc], ?_, hwaits', ?_⟩
          · rw [tokenLines_append, hlines, hmore, streamLines_append]
          · intro hnone
            refine (hends' hnone).imp_right ?_
            rintro ⟨s, rfl, hyes⟩
            obtain ⟨before, hasks⟩ := exists_asksToQuit hnext
            exact ⟨before, lines, line, [], hasks, rfl, hyes⟩

/-- Stepping shows the tokens of the stream that tokenizing gives, from the first one on and in order:
all of them, unless the user quits, and then those that were shown before the command to quit. -/
theorem tokenLines_run {text : String} {stream : TokenStream}
    (hok : (l.tokenize text).1.value = .ok stream) (lines : List String) :
    ∃ k ≤ stream.size,
      tokenLines (run l (begin l text).1 (begin l text).2 lines) =
        (streamLines stream.toList).take k ∧
      (∀ before, ConfirmsQuit l text lines before →
        k = (tokenLines (after l text before).1).length) ∧
      ((∀ before, ¬ ConfirmsQuit l text lines before) → k = stream.size) := by
  have hawaits : Awaits l (.ofText text) stream.toList := Lexer.reading_of_tokenize hok
  obtain ⟨shown, rest, hsplit, hlines, hwaits, hends⟩ := exists_shows_after hawaits lines
  have hrun := run_eq_foldl l (begin l text) lines
  rw [← after] at hrun
  cases hnext : (after l text lines).2 with
  | some w =>
      -- The input has ended, and what is waited for shows all the rest.
      have hrest := tokenLines_remaining (hwaits w hnext)
      rw [hnext, Option.map_some, Option.getD_some] at hrun
      refine ⟨stream.size, Nat.le_refl _, ?_, ?_, fun _ => rfl⟩
      · rw [hrun, tokenLines_append, hlines, conclude, hrest, ← streamLines_append, ← hsplit,
          ← TokenStream.length_toList, List.take_of_length_le (by simp [streamLines])]
      · intro before hquits
        rw [hquits.after_eq.1] at hnext
        exact absurd hnext (Option.some_ne_none w).symm
  | none =>
      rw [hnext, Option.map_none, Option.getD_none, List.append_nil] at hrun
      have hsize : stream.size = shown.length + rest.length := by
        rw [← TokenStream.length_toList, hsplit, List.length_append]
      have hcount : (tokenLines (after l text lines).1).length = shown.length := by
        rw [hlines, streamLines, List.length_map]
      refine ⟨shown.length, by omega, ?_, ?_, ?_⟩
      · rw [hrun, hlines, hsplit, streamLines_append, List.take_left' (by simp [streamLines])]
      · intro before hquits
        rw [← hquits.after_eq.2, hcount]
      · intro hnever
        rcases hends hnext with rfl | ⟨before, hquits⟩
        · exact hsize.symm
        · exact absurd hquits (hnever before)

/-- A keyword and an identifier, when the rest is asked for. -/
theorem tokenLines_conditional_rest :
    ((Lexer.conditional.skipping []).tokenize "if x").1.value =
        .ok ⟨#[⟨⟨"if", some "If"⟩, ⟨⟨0, 1, 1⟩, ⟨2, 1, 3⟩⟩⟩,
          ⟨⟨"x", some "Identifier"⟩, ⟨⟨3, 1, 4⟩, ⟨4, 1, 5⟩⟩⟩], 0⟩ ∧
      tokenLines (run (Lexer.conditional.skipping [])
          (begin (Lexer.conditional.skipping []) "if x").1
          (begin (Lexer.conditional.skipping []) "if x").2 ["R", "what", "y"]) =
        ["Lexeme: if        Name: If\n", "Lexeme: x         Name: Identifier\n"] := by
  have hok := Lexer.tokenize_conditional []
  obtain ⟨k, -, hlines, -, hall⟩ := tokenLines_run hok ["R", "what", "y"]
  have hnever : ∀ before,
      ¬ ConfirmsQuit (Lexer.conditional.skipping []) "if x" ["R", "what", "y"] before := by
    rintro before ⟨asking, yes, rest, ⟨-, quit, unclear, rfl, hquit, -⟩, hsplit, -⟩
    have hmem : quit ∈ ["R", "what", "y"] := by
      rw [hsplit]
      simp
    have hnone : ∀ line ∈ ["R", "what", "y"], line.toList.map Char.toLower ≠ ['q'] := by decide
    have hchars : quit.toList.map Char.toLower = ['q'] :=
      String.toList_map.symm.trans (congrArg String.toList hquit)
    exact hnone quit hmem hchars
  rw [hall hnever] at hlines
  exact ⟨hok, hlines⟩

end Stepping

/-- An utterance on the channel for what was asked for. -/
def Utterance.output (u : Utterance) : Output := ⟨.standard, u.text⟩

namespace Console

theorem performAll_nil (c : Console) : c.performAll [] = ([], c) := rfl

/-- The output so far with that of one more act. -/
def performNext (x : Array Output × Console) (act : Act) : Array Output × Console :=
  (x.1 ++ (x.2.perform act).1.toArray, (x.2.perform act).2)

theorem performAll_eq (c : Console) (acts : List Act) :
    c.performAll acts =
      ((acts.foldl performNext (#[], c)).1.toList, (acts.foldl performNext (#[], c)).2) := by
  rw [performAll, List.foldl_ext _ performNext]
  intro x act _
  simp [performNext]

/-- Acts add to the output and do not look at it. -/
theorem foldl_performNext (acts : List Act) (outputs : Array Output) (c : Console) :
    acts.foldl performNext (outputs, c) =
      (outputs ++ (acts.foldl performNext (#[], c)).1, (acts.foldl performNext (#[], c)).2) := by
  induction acts generalizing outputs c with
  | nil => simp
  | cons act acts ih =>
      simp only [List.foldl_cons, performNext, Array.empty_append]
      rw [ih, ih (c.perform act).1.toArray, Array.append_assoc]

theorem performAll_cons (c : Console) (act : Act) (acts : List Act) :
    c.performAll (act :: acts) =
      ((c.perform act).1 ++ ((c.perform act).2.performAll acts).1,
        ((c.perform act).2.performAll acts).2) := by
  rw [performAll_eq, performAll_eq, List.foldl_cons, performNext, Array.empty_append,
    foldl_performNext]
  simp

/-- What is said is put out as it is, and changes nothing. -/
theorem performAll_say (c : Console) (utterances : List Utterance) (acts : List Act) :
    c.performAll (Dialogue.say utterances ++ acts) =
      (utterances.map Utterance.output ++ (c.performAll acts).1, (c.performAll acts).2) := by
  induction utterances with
  | nil => rfl
  | cons u utterances ih =>
      rw [Dialogue.say, List.map_cons, List.cons_append, performAll_cons]
      have hrest : (c.perform (.print u.text)).2 = c := rfl
      rw [hrest, ← Dialogue.say, ih]
      rfl

end Console

theorem Stepping.run_shown (l : Lexer) (shown : List Utterance) (next : Option Stepping)
    (lines : List String) :
    Stepping.run l shown next lines = shown ++ Stepping.run l [] next lines := by
  induction lines generalizing shown next with
  | nil => cases next <;> simp [Stepping.run]
  | cons line lines ih =>
      cases next with
      | none => simp [Stepping.run]
      | some w =>
          simp only [Stepping.run]
          rw [ih, ih ([] ++ _), List.nil_append, List.append_assoc]

/-- In a dialogue that steps through a program, stepping says what is put out, until it has ended. -/
theorem exists_converse_eq (view : FileView) (p : Pipeline) (tracing : Bool) (w : Stepping)
    (c : Console) (lines : List String) :
    ∃ later, Invocation.converse view p tracing (.stepping w) c lines =
      (Stepping.run p.lexer [] (some w) lines).map Utterance.output ++ later := by
  induction lines generalizing w c with
  | nil =>
      rw [Invocation.converse, Dialogue.conclude, Console.performAll_say]
      exact ⟨_, rfl⟩
  | cons line lines ih =>
      have hanswered : (Dialogue.feed p tracing (.stepping w) line).answered view =
          Dialogue.after (w.feed p.lexer line) := rfl
      cases hfeed : w.feed p.lexer line with
      | mk shown next =>
          rw [Invocation.converse, hanswered, hfeed]
          simp only [Stepping.run, hfeed, List.nil_append]
          rw [Stepping.run_shown, List.map_append]
          cases next with
          | some waiting =>
              obtain ⟨later, hlater⟩ := ih waiting c
              have hsay := c.performAll_say shown []
              rw [List.append_nil, c.performAll_nil, List.append_nil] at hsay
              simp only [Dialogue.after, hsay]
              exact ⟨later, by rw [List.append_assoc, ← hlater]⟩
          | none =>
              have hended : Stepping.run p.lexer [] none lines = [] := by
                cases lines <;> rfl
              simp only [Dialogue.after, Console.performAll_say]
              rw [hended, List.map_nil, List.append_nil, List.append_assoc]
              exact ⟨_, rfl⟩

end TableLexer.CommandLine
