import TagLint.Source.Span

/-!
Edits of a source text, and fixes made of them.

An edit replaces one byte range. The edits of a fix are kept in source order; `Fix.merged?`
collapses them into one edit of the range from the first start to the last end.
-/
namespace TagLint

/-- The replacement of the byte range from `start` to `stop`. -/
structure Edit where
  start : Nat
  stop : Nat
  text : Text
  deriving DecidableEq, Repr

namespace Edit

def replace (span : Span) (text : Text) : Edit :=
  ⟨span.start, span.stop, text⟩

def remove (span : Span) : Edit :=
  replace span []

def insertBefore (span : Span) (text : Text) : Edit :=
  ⟨span.start, span.start, text⟩

def insertAfter (span : Span) (text : Text) : Edit :=
  ⟨span.stop, span.stop, text⟩

/-- The range that is replaced. -/
def span (e : Edit) : Span :=
  ⟨e.start, e.stop⟩

/-- Order by start, then by end. -/
def before (a b : Edit) : Bool :=
  a.start < b.start || (a.start == b.start && a.stop ≤ b.stop)

/-- The text of `source` from `cursor` to `stop` after the edits, which lie in it in order; `none`
where an edit reaches back over the one before it, or an offset is no boundary. -/
def spliced? (source : Text) (stop : Nat) : Nat → List Edit → Option Text
  | cursor, [] => source.slice? cursor stop
  | cursor, e :: others =>
    (source.slice? cursor e.start).bind fun kept =>
      (spliced? source stop e.stop others).map fun rest => kept ++ e.text ++ rest

end Edit

/-- Edits in source order that mend one finding. -/
structure Fix where
  edits : List Edit
  deriving DecidableEq, Repr

namespace Fix

/-- The fix made of the edits; no edits make no fix. -/
def ofEdits? (edits : List Edit) : Option Fix :=
  if edits.isEmpty then none else some ⟨edits.mergeSort Edit.before⟩

/-- Whether some edit starts before the one before it ends. -/
def overlapsIn : List Edit → Bool
  | a :: b :: others => b.start < a.stop || overlapsIn (b :: others)
  | _ => false

def hasOverlap (fix : Fix) : Bool :=
  overlapsIn fix.edits

/-- The range from the first start to the last end. -/
def span (fix : Fix) : Span :=
  let start := (fix.edits.map Edit.start).min?.getD 0
  ⟨start, (fix.edits.map Edit.stop).max?.getD start⟩

/-- The one edit that does what the fix does to `source`; `none` where the range of the fix ends
before it starts, or its edits do not fit the source. -/
def merged? (fix : Fix) (source : Text) : Option Edit :=
  if fix.span.start ≤ fix.span.stop then
    (Edit.spliced? source fix.span.stop fix.span.start fix.edits).map (Edit.replace fix.span)
  else none

end Fix
end TagLint
