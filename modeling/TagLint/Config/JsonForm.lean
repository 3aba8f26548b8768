import TagLint.Config.Decode
import TagLint.Json.Read

/-!
Configurations in JSON.

A section is an object, or an array that holds the values of its keys in order, of which the last
ones may be missing. A word is a string, or an object whose only member has that key and no value.
-/
namespace TagLint

namespace Json

def flag? : Json → Option Bool
  | bool value => some value
  | _ => none

def string? : Json → Option String
  | string value => some value
  | _ => none

def choiceWord? : Json → Option String
  | string value => some value
  | object [(key, null)] => some key
  | _ => none

def items? : Json → Option (List Json)
  | array items => some items
  | _ => none

def sectionMembers? (keys : List String) : Json → Option (List (String × Json))
  | object members => some members
  | array items => if items.length ≤ keys.length then some (keys.zip items) else none
  | _ => none

instance : Setting Json where
  flag? := flag?
  number? := word?
  text? := string?
  word? := choiceWord?
  items? := items?
  members? := sectionMembers?

end Json

namespace Config

def ofJsonText (t : Text) : Except ConfigError Config :=
  match (Json.read? t).bind decode? with
  | none => .error .json
  | some config => config.validate

/-- A list of strings. -/
def encodeTexts (texts : List String) : Json :=
  .array (texts.map Json.string)

/-- The pair of delimiters. -/
def encodeDelimiters (pair : Delimiters) : Json :=
  .array [.ofText pair.opening, .ofText pair.closing]

def encodeEntry {Options : Type} (encode : Options → Json) (entry : RuleEntry Options) : Json :=
  .object
    [("enabled", .bool entry.enabled), ("severity", .string entry.severity.name),
      ("options", encode entry.options)]

def encodeClosingTags (options : ClosingTagsOptions) : Json :=
  .object
    [("selfClosing", .string options.selfClosing.name),
      ("allowSelfClosingCustom", .bool options.allowSelfClosingCustom),
      ("customPatterns", encodeTexts options.customPatterns)]

def encodeElementNewline (options : ElementNewlineOptions) : Json :=
  .object [("inline", encodeTexts options.inline), ("skip", encodeTexts options.skip)]

/-- The configuration with every key. -/
def toJson (config : Config) : Json :=
  .object
    [("parser", .object [("templates", .array (config.templates.map encodeDelimiters))]),
      ("files",
        .object
          [("include", encodeTexts config.files.included),
            ("exclude", encodeTexts config.files.excluded)]),
      ("engine",
        .object
          [("parallel", .bool config.engine.parallel), ("jobs", .ofNat config.engine.jobs),
            ("max_fix_passes", .ofNat config.engine.maxFixPasses)]),
      ("output",
        .object
          [("format", .string config.output.format.name),
            ("color", .string config.output.color.name)]),
      ("rules",
        .object
          [(ClosingTags.info.id, encodeEntry encodeClosingTags config.rules.closingTags),
            (ElementNewline.info.id,
              encodeEntry encodeElementNewline config.rules.elementNewline)])]

end Config
end TagLint
