import TagLint.Text.Basic

/-!
Glob patterns and the texts that they match.

`?` stands for one character and `*` for any number of them, slashes included; `[ab-c]` stands for
one of some characters and `[!ab-c]` for any other. `**` is a whole component and stands for any
number of components, none included.
-/
namespace TagLint

/-- A unit of a glob pattern. -/
inductive GlobToken where
  | char (c : Char)
  | anyChar
  | among (isNegated : Bool) (ranges : List (Char × Char))
  | anyText
  | anyComponents
  deriving DecidableEq, Repr

/-- A glob pattern. -/
structure GlobPattern where
  tokens : List GlobToken
  deriving DecidableEq, Repr

namespace GlobToken

/-- Whether a character is one that a unit stands for. -/
def accepts (c : Char) : GlobToken → Bool
  | char d => c == d
  | anyChar => true
  | among isNegated ranges =>
    ranges.any (fun range => range.1 ≤ c && c ≤ range.2) != isNegated
  | anyText => false
  | anyComponents => false

/-- The character that a unit stands for alone. -/
def char? : GlobToken → Option Char
  | char c => some c
  | _ => none

/-- A text and all its ends. -/
def suffixes : Text → List Text
  | [] => [[]]
  | c :: t => (c :: t) :: suffixes t

def suffixesAfterSlash : Text → List Text
  | [] => [[]]
  | c :: t => (if c == '/' then [t] else []) ++ suffixesAfterSlash t

/-- Puts ends of one text together, the longest first and each once. -/
def mergeEnds (a b : List Text) : List Text :=
  (a.merge b fun s t => t.length ≤ s.length).eraseReps

/-- What may be left of a text after a unit, given what may be left before it; both lists hold
ends of that text, the longest first. What the longest leads to includes what the others do. -/
def advance (points : List Text) : GlobToken → List Text
  | anyText => (points.head?.map suffixes).getD []
  | anyComponents => mergeEnds points ((points.head?.map suffixesAfterSlash).getD [])
  | token => points.filterMap fun
    | [] => none
    | c :: t => if token.accepts c then some t else none

end GlobToken

namespace GlobPattern

def isMatch (pattern : GlobPattern) (t : Text) : Bool :=
  (pattern.tokens.foldl GlobToken.advance [t]).any List.isEmpty

/-- The ranges inside brackets; a hyphen between two characters makes a range. -/
def ranges : Text → List (Char × Char)
  | a :: '-' :: b :: t => (a, b) :: ranges t
  | a :: t => (a, a) :: ranges t
  | [] => []

/-- Reads what follows an opening bracket: the first character inside is no closing bracket. -/
def readRanges? (isNegated : Bool) : Text → Option (GlobToken × Text)
  | [] => none
  | first :: t =>
    match t.dropWhile (· != ']') with
    | [] => none
    | _ :: rest => some (.among isNegated (ranges (first :: t.takeWhile (· != ']'))), rest)

/-- Reads the units of a pattern; `isStart` tells whether a component starts. -/
def readTokens? : Nat → Bool → Text → Option (List GlobToken)
  | 0, _, _ => none
  | _ + 1, _, [] => some []
  | fuel + 1, isStart, c :: t =>
    if c == '*' then
      match t.takeWhile (· == '*'), t.dropWhile (· == '*') with
      | [], rest => (readTokens? fuel false rest).map (.anyText :: ·)
      | [_], [] => if isStart then some [.anyComponents] else none
      | [_], d :: rest =>
        if isStart && d == '/' then (readTokens? fuel true rest).map (.anyComponents :: ·)
        else none
      | _, _ => none
    else if c == '[' then
      let read :=
        if t.head? == some '!' then readRanges? true (t.drop 1) else readRanges? false t
      read.bind fun (token, rest) => (readTokens? fuel false rest).map (token :: ·)
    else
      let token : GlobToken := if c == '?' then .anyChar else .char c
      (readTokens? fuel (c == '/') t).map (token :: ·)

def read? (t : Text) : Option GlobPattern :=
  (readTokens? (t.length + 1) true t).map GlobPattern.mk

/-- The only text that a pattern without special characters matches. -/
def literal? (pattern : GlobPattern) : Option Text :=
  pattern.tokens.mapM GlobToken.char?

def isAnyComponents (pattern : GlobPattern) : Bool :=
  pattern.tokens.contains .anyComponents

end GlobPattern
end TagLint
