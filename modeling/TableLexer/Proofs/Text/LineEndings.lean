import TableLexer.Keywords
import TableLexer.Proofs.Automaton.TableText
/-!
Line endings of tables.  A line may end with a line feed or with a carriage return and a line feed, the
last one also with the text, and empty lines may stand anywhere.  Tables and keyword tables are read from
the lines that are not empty, so none of this makes a difference.
-/

namespace TableLexer

namespace Text

/-- What ends a line. -/
inductive Ending where
  | lineFeed
  | returnLineFeed
deriving DecidableEq, Repr

def Ending.text : Ending → String
  | lineFeed => "\n"
  | returnLineFeed => "\r\n"

/-- Whether a text holds neither a line feed nor a carriage return. -/
def Unbroken (line : String) : Prop := '\n' ∉ line.toList ∧ '\r' ∉ line.toList

instance (line : String) : Decidable (Unbroken line) :=
  inferInstanceAs (Decidable ('\n' ∉ line.toList ∧ '\r' ∉ line.toList))

/-- Whether a text is written from lines: each of them has an ending of its own, the last one may have
none, and before every line, or after the last one if it has an ending, there may be empty lines. -/
inductive WrittenFrom : List String → String → Prop where
  | nil : WrittenFrom [] ""
  | last (line : String) : WrittenFrom [line] line
  | empty {lines : List String} {rest : String} (ending : Ending) (hrest : WrittenFrom lines rest) :
      WrittenFrom lines (ending.text ++ rest)
  | line {lines : List String} {rest : String} (line : String) (ending : Ending)
      (hrest : WrittenFrom lines rest) : WrittenFrom (line :: lines) (line ++ ending.text ++ rest)

/-- A line is read without its ending, whichever it is. -/
theorem linesFrom_ending {line : String} (hline : Unbroken line) (ending : Ending)
    (done : List (List Char)) (rest : String) :
    linesFrom [] done (line ++ ending.text ++ rest).toList =
      linesFrom [] (line.toList :: done) rest.toList := by
  rw [String.toList_append, String.toList_append, List.append_assoc]
  cases ending with
  | lineFeed => exact linesFrom_line hline.1 hline.2 done rest.toList
  | returnLineFeed =>
      have htext : Ending.returnLineFeed.text.toList ++ rest.toList =
          '\r' :: '\n' :: rest.toList := rfl
      rw [htext, linesFrom_append_of_notMem hline.1, linesFrom, if_neg (by decide), linesFrom,
        if_pos rfl, dropReturn, List.append_nil, List.reverse_reverse]

/-- Up to empty lines, a text has the lines that it is written from. -/
theorem WrittenFrom.filter_linesFrom {lines : List String} {text : String}
    (hwritten : WrittenFrom lines text) (hlines : ∀ line ∈ lines, Unbroken line)
    (done : List (List Char)) :
    (linesFrom [] done text.toList).filter (· ≠ []) =
      (done.reverse ++ lines.map String.toList).filter (· ≠ []) := by
  induction hwritten generalizing done with
  | nil => simp [linesFrom]
  | last line =>
      obtain ⟨hfeed, -⟩ := hlines line (List.mem_singleton_self line)
      have hread := linesFrom_append_of_notMem hfeed [] done []
      rw [List.append_nil, List.append_nil] at hread
      rw [hread, linesFrom]
      by_cases hempty : line.toList = []
      · simp [hempty]
      · simp [hempty]
  | empty ending hrest ih =>
      have hempty : Unbroken "" := by decide
      rw [← String.empty_append (s := ending.text), linesFrom_ending hempty, ih hlines]
      simp
  | line line ending hrest ih =>
      rw [List.forall_mem_cons] at hlines
      rw [linesFrom_ending hlines.1, ih hlines.2]
      simp

theorem WrittenFrom.filter_lines {lines : List String} {text : String}
    (hwritten : WrittenFrom lines text) (hlines : ∀ line ∈ lines, Unbroken line) :
    (Text.lines text).filter (· ≠ "") = lines.filter (· ≠ "") := by
  have htexts : ∀ words : List (List Char), (words.map String.ofList).filter (· ≠ "") =
      (words.filter (· ≠ [])).map String.ofList := by
    intro words
    rw [List.filter_map]
    refine congrArg (List.map String.ofList) (List.filter_congr fun word _ => ?_)
    have hempty : String.ofList word = "" ↔ word = [] := by
      rw [← String.toList_inj, String.toList_ofList, String.toList_empty]
    rw [Function.comp, decide_eq_decide, ne_eq, hempty]
  have hlines' : lines = (lines.map String.toList).map String.ofList := by simp
  rw [Text.lines, htexts, hwritten.filter_linesFrom hlines [], ← htexts, List.reverse_nil,
    List.nil_append, ← hlines']

end Text

/-- Tables do not depend on line endings and empty lines. -/
theorem parse_of_writtenFrom {lines : List String} (hlines : ∀ line ∈ lines, Text.Unbroken line)
    {first second : String} (hfirst : Text.WrittenFrom lines first)
    (hsecond : Text.WrittenFrom lines second) :
    Table.parse first = Table.parse second ∧ Keywords.parse first = Keywords.parse second := by
  have hsame : (Text.lines first).filter (· ≠ "") = (Text.lines second).filter (· ≠ "") :=
    (hfirst.filter_lines hlines).trans (hsecond.filter_lines hlines).symm
  constructor
  · rw [Table.parse, Table.parse, Table.rowsOf, Table.rowsOf, hsame]
  · rw [Keywords.parse, Keywords.parse, hsame]

/-- Carriage returns and an empty line on one side, and a last line without an ending on the other. -/
theorem parse_returnLineFeeds :
    (∀ line ∈ ["Valid Chars,Accepted,a", "0,,1", "1,Letter,"], Text.Unbroken line) ∧
    Text.WrittenFrom ["Valid Chars,Accepted,a", "0,,1", "1,Letter,"]
      "Valid Chars,Accepted,a\r\n\r\n0,,1\r\n1,Letter,\r\n" ∧
    Text.WrittenFrom ["Valid Chars,Accepted,a", "0,,1", "1,Letter,"]
      "Valid Chars,Accepted,a\n0,,1\n1,Letter," ∧
    Table.parse "Valid Chars,Accepted,a\r\n\r\n0,,1\r\n1,Letter,\r\n" =
      Table.parse "Valid Chars,Accepted,a\n0,,1\n1,Letter," ∧
    Keywords.parse "Valid Chars,Accepted,a\r\n\r\n0,,1\r\n1,Letter,\r\n" =
      Keywords.parse "Valid Chars,Accepted,a\n0,,1\n1,Letter," := by
  have hlines : ∀ line ∈ ["Valid Chars,Accepted,a", "0,,1", "1,Letter,"], Text.Unbroken line := by
    decide
  have hreturns : Text.WrittenFrom ["Valid Chars,Accepted,a", "0,,1", "1,Letter,"]
      "Valid Chars,Accepted,a\r\n\r\n0,,1\r\n1,Letter,\r\n" :=
    .line _ .returnLineFeed (.empty .returnLineFeed (.line _ .returnLineFeed
      (.line _ .returnLineFeed .nil)))
  have hfeeds : Text.WrittenFrom ["Valid Chars,Accepted,a", "0,,1", "1,Letter,"]
      "Valid Chars,Accepted,a\n0,,1\n1,Letter," :=
    .line _ .lineFeed (.line _ .lineFeed (.last _))
  exact ⟨hlines, hreturns, hfeeds, parse_of_writtenFrom hlines hreturns hfeeds⟩

end TableLexer
