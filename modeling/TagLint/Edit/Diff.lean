import TagLint.Text.Line

/-!
The difference of two texts as one hunk of lines.

The hunk covers every changed line, with at most two lines of context on each side.
-/
namespace TagLint

/-- Lines that change, with the lines around them. -/
structure Hunk where
  /-- The number of lines before the hunk. -/
  offset : Nat
  lead : List Text
  removed : List Text
  added : List Text
  trail : List Text
  deriving DecidableEq, Repr

namespace Hunk

/-- The number of lines of context on each side. -/
def contextSize : Nat := 2

def commonLead : List Text → List Text → Nat
  | a :: as, b :: bs => if a == b then commonLead as bs + 1 else 0
  | _, _ => 0

/-- The hunk that turns the lines `old` into the lines `new`; none when they are the same. -/
def between? (old new : List Text) : Option Hunk :=
  let lead := commonLead old new
  if lead == old.length && lead == new.length then none
  else
    let oldRest := old.drop lead
    let newRest := new.drop lead
    let trail := commonLead oldRest.reverse newRest.reverse
    let offset := lead - contextSize
    some
      { offset := offset
        lead := (old.take lead).drop offset
        removed := oldRest.take (oldRest.length - trail)
        added := newRest.take (newRest.length - trail)
        trail := (oldRest.drop (oldRest.length - trail)).take contextSize }

def markedLine (mark : Char) (line : Text) : Text :=
  mark :: line ++ ['\n']

/-- The first line of the hunk: where it stands in both texts and how many lines it has there. -/
def header (hunk : Hunk) : Text :=
  let around := hunk.lead.length + hunk.trail.length
  let first := Nat.toDigits 10 (hunk.offset + 1)
  "@@ -".toList ++ first ++ ',' :: Nat.toDigits 10 (around + hunk.removed.length) ++
    " +".toList ++ first ++ ',' :: Nat.toDigits 10 (around + hunk.added.length) ++
    " @@\n".toList

def body (hunk : Hunk) : Text :=
  hunk.lead.flatMap (markedLine ' ') ++ hunk.removed.flatMap (markedLine '-') ++
    hunk.added.flatMap (markedLine '+') ++ hunk.trail.flatMap (markedLine ' ')

end Hunk

def unifiedDiff (path : String) (old new : Text) : Text :=
  match Hunk.between? old.terminatedLines new.terminatedLines with
  | none => []
  | some hunk =>
    "--- a/".toList ++ path.toList ++ "\n+++ b/".toList ++ path.toList ++ '\n' :: hunk.header ++
      hunk.body

end TagLint
