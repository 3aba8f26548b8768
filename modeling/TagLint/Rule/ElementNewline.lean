import TagLint.Lint.Report
import TagLint.Text.Blank

/-!
The rule `element-newline`.

Nodes that want a line of their own are separated from their neighbours by a line break, and an
element that wants one is separated from its content where something inside it wants one too.
Blank texts do not count as neighbours. Inline elements want no line, and what is inside skipped
elements is left alone.
-/
namespace TagLint

/-- Elements that run on inside a line. -/
def inlineElements : List Text :=
  ["a".toList, "abbr".toList, "acronym".toList, "audio".toList, "b".toList, "bdi".toList,
    "bdo".toList, "big".toList, "br".toList, "button".toList, "canvas".toList, "cite".toList,
    "code".toList, "data".toList, "datalist".toList, "del".toList, "dfn".toList, "em".toList,
    "embed".toList, "i".toList, "iframe".toList, "img".toList, "input".toList, "ins".toList,
    "kbd".toList, "label".toList, "map".toList, "mark".toList, "meter".toList, "noscript".toList,
    "object".toList, "output".toList, "picture".toList, "progress".toList, "q".toList,
    "ruby".toList, "s".toList, "samp".toList, "script".toList, "select".toList, "slot".toList,
    "small".toList, "span".toList, "strong".toList, "sub".toList, "sup".toList, "svg".toList,
    "template".toList, "textarea".toList, "time".toList, "u".toList, "tt".toList, "var".toList,
    "video".toList, "wbr".toList]

/-- The options of the rule. -/
structure ElementNewlineOptions where
  /-- Names of elements that may share a line, or names of presets of them. -/
  inline : List String
  /-- Names of elements whose content is left alone. -/
  skip : List String
  deriving DecidableEq, Repr

/-- The rule with its options; names are in lower case. -/
structure ElementNewline where
  inlineNames : List Text
  skippedNames : List Text
  deriving DecidableEq, Repr

namespace ElementNewline

def info : RuleInfo :=
  { id := "element-newline"
    description := "Enforce a line break between block-level siblings and around their content"
    category := .style
    isFixable := true
    messages :=
      [("EXPECT_NEW_LINE_AFTER", "There should be a linebreak after \x7b\x7btag\x7d\x7d."),
        ("EXPECT_NEW_LINE_BEFORE", "There should be a linebreak before \x7b\x7btag\x7d\x7d."),
        ("EXPECT_NEW_LINE_AFTER_OPEN",
          "There should be a linebreak after \x7b\x7btag\x7d\x7d open."),
        ("EXPECT_NEW_LINE_BEFORE_CLOSE",
          "There should be a linebreak before \x7b\x7btag\x7d\x7d close.")] }

/-- The options where none are given. -/
def defaultOptions : ElementNewlineOptions :=
  ⟨[], []⟩

/-- The preset of the elements that run on inside a line. -/
def inlinePreset : String := "$inline"

/-- The names that an entry of the inline list stands for, or the entry where it is an unknown
preset. -/
def entryNames (entry : String) : Except String (List Text) :=
  if entry.toList.head? == some '$' then
    if entry == inlinePreset then .ok inlineElements else .error entry
  else .ok [Text.lower entry.toList]

/-- The rule with the given options, or the first preset that is unknown. -/
def ofOptions (options : ElementNewlineOptions) : Except String ElementNewline := do
  let names ← options.inline.mapM entryNames
  return ⟨names.flatten, options.skip.map fun name => Text.lower name.toList⟩

def wantsLine (rule : ElementNewline) : Kind → Bool
  | .comment content => content.text.trim.hasLineBreak
  | .text content => content.text.trim.hasLineBreak
  | .element tag => !rule.inlineNames.contains tag.name.lower
  | _ => true

/-- Whether the content of an element is left alone. -/
def skips (rule : ElementNewline) (tag : Tag) : Bool :=
  rule.skippedNames.contains tag.name.lower

def isBlankText : Kind → Bool
  | .text content => content.text.isBlank
  | _ => false

def startsWithBreak : Kind → Bool
  | .text content => content.text.leadingBlanks.hasLineBreak
  | _ => false

/-- Whether the last of the trees ends with blanks that break the line. An element without a
closing tag ends where its last child does. -/
def lastEndsWithBreak : Forest → Bool
  | .nil => false
  | .cons node inside .nil =>
    match node.kind with
    | .text content => content.text.trailingBlanks.hasLineBreak
    | .element tag => tag.close.isNone && lastEndsWithBreak inside
    | _ => false
  | .cons _ _ (.cons node inside next) => lastEndsWithBreak (.cons node inside next)

def endsWithBreak (tree : Tree) : Bool :=
  lastEndsWithBreak (.cons tree.node tree.inside .nil)

/-- How a node is shown in messages. -/
def label : Kind → Text
  | .element tag => '<' :: tag.name ++ ['>']
  | .script _ _ => "script".toList
  | .style _ _ => "style".toList
  | .text _ => "text".toList
  | .comment _ => "comment".toList
  | .doctype _ => "doctype".toList
  | .document => "document".toList

/-- The trees that are not blank texts. -/
def solid (forest : Forest) : List Tree :=
  forest.trees.filter fun tree => !isBlankText tree.node.kind

/-- A report about the gap between two places, with a line break as its fix. -/
def gapReport (before after : Span) (beforeExtent afterExtent : Extent) (messageId : String)
    (tag : Text) (edit : Edit) : Report :=
  ⟨before.between after, beforeExtent.between afterExtent, messageId, [("tag", tag)], [edit]⟩

/-- The report about two neighbours. -/
def checkPair (rule : ElementNewline) (a b : Tree) : Option Report :=
  let gap := gapReport a.node.span b.node.span a.node.extent b.node.extent
  if a.node.extent.stop.line != b.node.extent.start.line || endsWithBreak a ||
      startsWithBreak b.node.kind then
    none
  else if rule.wantsLine a.node.kind then
    some (gap "EXPECT_NEW_LINE_AFTER" (label a.node.kind) (Edit.insertAfter a.node.span ['\n']))
  else if rule.wantsLine b.node.kind then
    some (gap "EXPECT_NEW_LINE_BEFORE" (label b.node.kind) (Edit.insertBefore b.node.span ['\n']))
  else none

/-- The reports about neighbours. -/
def checkPairs (rule : ElementNewline) : List Tree → List Report
  | a :: b :: others => (rule.checkPair a b).toList ++ rule.checkPairs (b :: others)
  | _ => []

/-- The report about the start of an element's content. -/
def checkOpen (tag : Tag) (first : Tree) : Option Report :=
  if tag.openEnd.extent.stop.line == first.node.extent.start.line &&
      !startsWithBreak first.node.kind then
    some (gapReport tag.openEnd.span first.node.span tag.openEnd.extent first.node.extent
      "EXPECT_NEW_LINE_AFTER_OPEN" (label (.element tag))
      (Edit.insertAfter tag.openEnd.span ['\n']))
  else none

/-- The report about the end of an element's content. -/
def checkClose (tag : Tag) (last : Tree) (close : Token) : Option Report :=
  if last.node.extent.stop.line == close.extent.start.line && !endsWithBreak last then
    some (gapReport last.node.span close.span last.node.extent close.extent
      "EXPECT_NEW_LINE_BEFORE_CLOSE" (label (.element tag)) (Edit.insertBefore close.span ['\n']))
  else none

def checkEdges (tag : Tag) (content : List Tree) : List Report :=
  (content.head?.bind (checkOpen tag)).toList ++
    (content.getLast?.bind fun last => tag.close.bind (checkClose tag last)).toList

/-- The reports about what is inside each tree, in the order of the trees; and whether something in
the forest, outside of skipped elements, wants a line of its own. -/
def checkInside (rule : ElementNewline) : Forest → List Report × Bool
  | .nil => ([], false)
  | .cons node inside next =>
    let others := rule.checkInside next
    if isBlankText node.kind then others
    else
      let wants := rule.wantsLine node.kind
      match node.kind.tag? with
      | none => (others.1, wants || others.2)
      | some tag =>
        if rule.skips tag then (others.1, wants || others.2)
        else
          let below := rule.checkInside inside
          let edges := if wants && below.2 then checkEdges tag (solid inside) else []
          (below.1 ++ rule.checkPairs (solid inside) ++ edges ++ others.1,
            wants || below.2 || others.2)

/-- The reports about a document. -/
def reports (rule : ElementNewline) (doc : Document) : List Report :=
  (rule.checkInside doc.root.inside).1 ++ rule.checkPairs (solid doc.root.inside)

end ElementNewline
end TagLint
