import TagLint.Lint.Report
import TagLint.Markup.Document
import TagLint.Markup.Walk
import TagLint.Pattern.Match
import TagLint.Pattern.Read
import TagLint.Text.Blank

/-!
The rule `require-closing-tags`.

Every element is closed. Elements that may close themselves, which are void elements, elements of
foreign subtrees and, where this is allowed, custom elements without content, do so always or
never.
-/
namespace TagLint

/-- How elements end that may close themselves. -/
inductive SelfClosing where
  | always
  | never
  deriving DecidableEq, Repr

/-- The options of the rule. -/
structure ClosingTagsOptions where
  selfClosing : SelfClosing
  /-- Whether custom elements without content may close themselves. -/
  allowSelfClosingCustom : Bool
  customPatterns : List String
  deriving DecidableEq, Repr

/-- The rule with its options. -/
structure ClosingTags where
  prefersSelfClosing : Bool
  allowsCustom : Bool
  customNames : List Pattern

namespace ClosingTags

def info : RuleInfo :=
  { id := "require-closing-tags"
    description := "Require closing tags, and enforce a consistent self-closing style"
    category := .correctness
    isFixable := true
    messages :=
      [("MISSING", "Missing closing tag for \x7b\x7btag\x7d\x7d."),
        ("MISSING_SELF", "Missing self closing tag for \x7b\x7btag\x7d\x7d."),
        ("UNEXPECTED", "Unexpected self closing tag for \x7b\x7btag\x7d\x7d.")] }

/-- The options where none are given. -/
def defaultOptions : ClosingTagsOptions :=
  ⟨.never, false, ["-"]⟩

def readPattern (text : String) : Except String Pattern :=
  match Pattern.read? text.toList with
  | some pattern => .ok pattern
  | none => .error text

/-- The rule with the given options, or the first text that is no pattern. -/
def ofOptions (options : ClosingTagsOptions) : Except String ClosingTags := do
  let patterns ← options.customPatterns.mapM readPattern
  return ⟨options.selfClosing == .always, options.allowSelfClosingCustom, patterns⟩

def isCustom (rule : ClosingTags) (name : Text) : Bool :=
  rule.customNames.any fun pattern => pattern.occursIn name

/-- How a tag is shown in messages. -/
def label (name : Text) : Text :=
  '<' :: name ++ ['>']

/-- The offset after the name or, if there are any, after the last attribute. -/
def headStop (tag : Tag) : Nat :=
  match tag.attributes.getLast? with
  | some last => last.span.stop
  | none => tag.openStart.span.stop

def hasBlankInside (tree : Tree) : Bool :=
  tree.children.all fun child =>
    match child.node.kind with
    | .text content => content.text.isBlank
    | _ => false

/-- Whether the opening tag ends with `/>`. -/
def closesItself (tag : Tag) : Bool :=
  tag.openEnd.text == ['/', '>']

def endReport (tag : Tag) (messageId : String) (edits : List Edit) : Report :=
  ⟨tag.openEnd.span, tag.openEnd.extent, messageId, [("tag", label tag.name)], edits⟩

def checkEnd (tree : Tree) (tag : Tag) (shouldClose isFixable : Bool) : Option Report :=
  let tail : Span := ⟨headStop tag, tag.openEnd.span.stop⟩
  if shouldClose && !closesItself tag then
    let edits :=
      if isFixable && hasBlankInside tree then
        Edit.replace tail [' ', '/', '>'] ::
          tag.close.toList.map fun close => Edit.remove close.span
      else []
    some (endReport tag "MISSING_SELF" edits)
  else if !shouldClose && closesItself tag then
    some (endReport tag "UNEXPECTED" (if isFixable then [Edit.replace tail ['>']] else []))
  else none

/-- The report about one element, which stands inside a foreign subtree or not. -/
def check (rule : ClosingTags) (isForeign : Bool) (tree : Tree) (tag : Tag) : Option Report :=
  let isCustom := rule.isCustom tag.name
  let mayClose :=
    isVoidName tag.name || isForeign || (isCustom && rule.allowsCustom && tree.children.isEmpty)
  if tag.isSelfClosing && isCustom && rule.allowsCustom then checkEnd tree tag true false
  else if tag.isSelfClosing || mayClose then
    checkEnd tree tag (rule.prefersSelfClosing && mayClose) mayClose
  else if !closesItself tag && tag.close.isNone then
    some ⟨tree.node.span, tree.node.extent, "MISSING", [("tag", label tag.name)], []⟩
  else none

/-- The reports along a walk; `foreign` holds the ids of the roots of foreign subtrees that are
entered and not left, the innermost first. -/
def reportsFrom (rule : ClosingTags) (foreign : List Nat) : List Event → List Report
  | [] => []
  | .enter tree :: events =>
    match tree.node.kind.tag? with
    | some tag =>
      let foreignInside := if isForeignRoot tag.name then tree.node.id :: foreign else foreign
      (rule.check (!foreign.isEmpty) tree tag).toList ++ rule.reportsFrom foreignInside events
    | none => rule.reportsFrom foreign events
  | .leave tree :: events =>
    if foreign.head? == some tree.node.id then rule.reportsFrom foreign.tail events
    else rule.reportsFrom foreign events

/-- The reports about a document. -/
def reports (rule : ClosingTags) (doc : Document) : List Report :=
  rule.reportsFrom [] doc.events

end ClosingTags
end TagLint
