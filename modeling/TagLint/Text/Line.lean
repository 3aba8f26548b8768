import TagLint.Text.Basic

/-!
Three readings of "line".

Positions and content lines end at a line feed only. Diffs read terminated lines: a final line
feed ends the last line instead of opening an empty one, and a carriage return before a line feed
belongs to the terminator. Layout looks for any line break, where a carriage return and a line
feed make one break.
-/
namespace TagLint

/-- The characters that break a line wherever they stand. -/
def isLineBreak (c : Char) : Bool :=
  c == '\n' || c == '\r' || c == '\u2028' || c == '\u2029'

namespace Text

def feedLines (t : Text) : List Text :=
  t.splitOn (· == '\n')

/-- The terminated lines: each without its line feed and the carriage return before it. -/
def terminatedLines : Text → List Text
  | [] => []
  | '\n' :: t => [] :: terminatedLines t
  | '\r' :: '\n' :: t => [] :: terminatedLines t
  | [c] => [[c]]
  | c :: d :: t =>
    match terminatedLines (d :: t) with
    | first :: others => (c :: first) :: others
    | [] => [[c]]

/-- The pieces between line breaks, where a carriage return and a line feed are one break. -/
def brokenLines : Text → List Text
  | [] => [[]]
  | '\r' :: '\n' :: t => [] :: brokenLines t
  | c :: t =>
    if isLineBreak c then [] :: brokenLines t
    else match brokenLines t with
      | first :: others => (c :: first) :: others
      | [] => [[c]]

def hasLineBreak (t : Text) : Bool :=
  t.any isLineBreak

/-- The line with the given number, counted from 1, without its line feed and one carriage return
before it. -/
def line? (t : Text) (number : Nat) : Option Text :=
  match number with
  | 0 => none
  | n + 1 => t.feedLines[n]?.map (dropFinal '\r')

end Text
end TagLint
