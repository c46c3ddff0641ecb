import TableLexer.Main
import TableLexer.StandardTables
import TableLexer.Diagnostic.Sink
import TableLexer.Preferences.Document
import TableLexer.Proofs.Automaton.Run
import TableLexer.Proofs.Lexer.Traversal
import TableLexer.Proofs.Lexer.Reading
import TableLexer.Proofs.Lexer.Tokenizing
import TableLexer.Proofs.Preprocessor.Response
import TableLexer.Proofs.Preprocessor.FixedPoint
import TableLexer.Proofs.Automaton.Numbering
import TableLexer.Proofs.Automaton.TableMachine
import TableLexer.Proofs.Indexing
import TableLexer.Proofs.Lexer.LongestMatch
import TableLexer.Proofs.Comments
import TableLexer.Proofs.Lexer.Categories
import TableLexer.Proofs.Lexer.Recovery
import TableLexer.Proofs.Sessions
import TableLexer.Proofs.Lexer.Calls
import TableLexer.Proofs.CommandLine.Stepping
import TableLexer.Proofs.Alike
import TableLexer.Proofs.Automaton.Counting
import TableLexer.Proofs.Automaton.TidyTable
import TableLexer.Proofs.Rearrangement
import TableLexer.Proofs.Automaton.Accepting
import TableLexer.Proofs.StandardGrammar
import TableLexer.Proofs.Diagnostic.Mirroring
import TableLexer.Proofs.Diagnostic.Dispatch
import TableLexer.Proofs.Diagnostic.Summarizing
import TableLexer.Proofs.Diagnostic.Remembering
import TableLexer.Proofs.Lexer.Progress
import TableLexer.Proofs.Lexer.TokenLimit
import TableLexer.Proofs.Lexer.Discarding
import TableLexer.Proofs.Lexer.RoundTrips
import TableLexer.Proofs.Lexer.LexemeLimit
import TableLexer.Proofs.Lexer.Accounting
import TableLexer.Proofs.Lexer.Retokenizing
import TableLexer.Proofs.Automaton.Balance
import TableLexer.Proofs.Automaton.CleanReport
import TableLexer.Proofs.Preprocessor.Buffer
import TableLexer.Proofs.Preprocessor.Session
import TableLexer.Proofs.Text.Literal
import TableLexer.Proofs.Text.LineEndings
import TableLexer.Proofs.Keywords
