import TableLexer.Diagnostic.Notice
import TableLexer.Lexer.Basic
import TableLexer.Text.Literal
/-!
Tokenizing: the token stream of a whole program.  Bad tokens and characters that begin no token are
part of the stream; only a limit ends it early.
-/

namespace TableLexer.Lexer

def startNotice (l : Lexer) (text : String) : Notice :=
  .debug "Starting lexical analysis" [
    ("char_count", toString text.length),
    ("states", toString l.machine.size),
    ("keywords", toString l.keywords.size)]

def doneNotice (stream : TokenStream) (metrics : Metrics) : Notice :=
  .success .tokenized "Lexical analysis completed" [
    ("tokens", toString stream.size),
    ("bad_tokens", toString stream.badCount),
    ("skipped", toString metrics.skipped)]

/-- What is said when the stream is full and the program has not ended. -/
def tooManyNotice (e : LexerError) (span : Span) : Notice :=
  .error e.code "Token limit exceeded" [("limit", toString limits.tokens)] (some span)

def tooLongNotice (e : LexerError) (span : Span) : Notice :=
  .error e.code e.message [] (some span)

/-- What is said about an item of a stream: nothing about a good token. -/
def itemNotice? (item : Item) (span : Span) : Option Notice :=
  match item with
  | .token _ => none
  | .bad lexeme =>
    some (.error .badToken "Bad token" [("lexeme", Literal.ofText lexeme)] (some span))
  | .unrecognized c =>
    some (.error .unrecognized "Unrecognized character"
      [("character", Literal.ofText (String.singleton c))] (some span))

/-- What this lexer says about an item. -/
def itemNotices (l : Lexer) (item : Item) (span : Span) : List Notice :=
  if l.preferences.logBadTokens then (itemNotice? item span).toList else []

/-- Why an item ends the stream early, if it does.  Only the lexemes of good tokens are measured. -/
def itemError? (item : Item) : Option LexerError :=
  match item with
  | .token t => if limits.lexemeLength < t.length then some (.lexemeTooLong t.length) else none
  | .bad _ | .unrecognized _ => none

/-- The state after an item was taken into the stream. -/
def State.counting (s : State) (item : Item) : State :=
  match item with
  | .unrecognized _ => { s with metrics := s.metrics.addUnrecognized }
  | .token _ | .bad _ => s

/-- Tokenizes what is still to read, after the tokens of `stream` and the notices `said`, the last
of which comes first. -/
def tokenizeFrom (l : Lexer) (s : State) (stream : TokenStream) (said : List Notice) :
    Logged (Except LexerError TokenStream) × State :=
  if s.rest.isEmpty then (⟨.ok stream, (doneNotice stream s.metrics :: said).reverse⟩, s)
  else if limits.tokens ≤ stream.size then
    let e := LexerError.tooManyTokens stream.size
    (⟨.error e, (tooManyNotice e s.tokenSpan :: said).reverse⟩, s)
  else
    match _ : l.item s with
    | (none, reached) =>
      (⟨.ok stream, (doneNotice stream reached.metrics :: said).reverse⟩, reached)
    | (some item, reached) =>
      match itemError? item with
      | some e => (⟨.error e, (tooLongNotice e reached.tokenSpan :: said).reverse⟩, reached)
      | none =>
        l.tokenizeFrom (reached.counting item) (stream.push ⟨item.toToken, reached.tokenSpan⟩)
          (l.itemNotices item reached.tokenSpan ++ said)
termination_by s.rest.length
decreasing_by
  rename_i taken
  have read := l.length_rest_item_lt s
  rw [taken] at read
  cases item <;> exact read (Option.some_ne_none _)

/-- The token stream of a program, and the state in which the lexer is left. -/
def tokenize (l : Lexer) (text : String) : Logged (Except LexerError TokenStream) × State :=
  l.tokenizeFrom (.ofText text) .empty [l.startNotice text]

end TableLexer.Lexer
