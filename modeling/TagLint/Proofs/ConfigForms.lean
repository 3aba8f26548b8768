import TagLint.Proofs.JsonReading
import TagLint.Proofs.SectionChanges
import Mathlib.Logic.Relation

/-!
Configurations written in JSON.

A configuration that passes its checks reads back from either layout of its JSON form, and from
any form with fewer of the members that hold anyway; a member of an unknown key, in any section of
any text, is refused (`Config.roundTrips`). Each decoder is proved twice: it inverts its encoder,
and it `Reads` the form of what holds where nothing is said.
-/
namespace TagLint

open Setting

namespace Json

theorem digitsValue?_toDigits (n : Nat) : digitsValue? (Nat.toDigits 10 n) = some n := by
  have digits : (Nat.toDigits 10 n).all Char.isDigit = true := List.all_eq_true.2 fun c member =>
    Nat.isDigit_of_mem_toDigits (by omega) (by omega) member
  have value : (Nat.toDigits 10 n).foldl (fun n c => n * 10 + (c.toNat - '0'.toNat)) 0 = n := by
    have folded := Nat.ofDigitChars_ten_toDigits (n := n)
    rw [Nat.ofDigitChars_eq_foldl] at folded
    simpa only [Nat.mul_comm 10] using folded
  simp only [digitsValue?, List.isEmpty_eq_false_iff.2 Nat.toDigits_ne_nil, digits, Bool.not_true,
    Bool.or_false, Bool.false_eq_true, if_false, value]

/-- A machine word reads back as the number it was written for. -/
theorem word?_ofNat {n : Nat} (small : n < UInt64.size) : word? (ofNat n) = some n := by
  simp [word?, ofNat, digitsValue?_toDigits, Option.filter, small]

/-- A natural number can be written. -/
theorem isWritable_ofNat (depth n : Nat) : IsWritable depth (ofNat n) :=
  .number (isNumeral_toDigits n)

theorem isWritable_object_iff {depth : Nat} {members : List (String × Json)} :
    IsWritable (depth + 1) (object members) ↔ ∀ member ∈ members, IsWritable depth member.2 := by
  constructor
  · intro writable
    cases writable with
    | object each => exact each
  · exact .object

/-- What can be written still can with fewer members. -/
theorem IsWritable.loses {initial before after : Json}
    (changes : Changes LosesInitial initial before after) {depth : Nat}
    (writable : IsWritable depth before) : IsWritable depth after := by
  induction changes generalizing depth with
  | here changed =>
    obtain ⟨front, key, value, back, -, rfl, rfl⟩ := changed
    cases writable with
    | object each =>
      refine .object fun member inside => each member ?_
      exact ((List.Sublist.refl front).append (List.sublist_cons_self _ back)).subset inside
  | inside _ _ ih =>
    cases writable with
    | object each =>
      simp only [List.forall_mem_append, List.forall_mem_cons] at each
      refine .object ?_
      simp only [List.forall_mem_append, List.forall_mem_cons]
      exact ⟨each.1, ih each.2.1, each.2.2⟩

end Json

namespace Setting

/-- Lists are read back if their items are. -/
theorem mapM_map {α β : Type} (encode : α → β) {decode : β → Option α}
    (inverse : ∀ a, decode (encode a) = some a) (list : List α) :
    (list.map encode).mapM decode = some list := by
  induction list with
  | nil => rfl
  | cons a list ih => simp [inverse, ih]

theorem reads_flag (value : Bool) : Reads flag? (Json.bool value) value :=
  .leaf rfl fun _ => by simp

theorem reads_number {n : Nat} (small : n < UInt64.size) : Reads number? (Json.ofNat n) n :=
  .leaf (Json.word?_ofNat small) fun _ => by simp [Json.ofNat]

/-- A word is the first of its name. -/
theorem reads_choice {β : Type} {values : List β} {name : β → String} {value : β}
    (first : values.find? (fun candidate => name candidate == name value) = some value) :
    Reads (choice? values name) (Json.string (name value)) value :=
  .leaf first fun _ => by simp

end Setting

namespace Config

theorem texts?_encodeTexts (texts : List String) : texts? (encodeTexts texts) = some texts :=
  mapM_map Json.string (fun _ => rfl) texts

theorem decodeDelimiters?_encodeDelimiters (pair : Delimiters) :
    decodeDelimiters? (encodeDelimiters pair) = some pair := by
  have texts : texts? (encodeDelimiters pair) =
      some [String.ofList pair.opening, String.ofList pair.closing] := rfl
  simp [decodeDelimiters?, texts]

theorem reads_texts (texts : List String) : Reads texts? (encodeTexts texts) texts :=
  .leaf (texts?_encodeTexts texts) fun _ => by simp [encodeTexts]

/-! ### The sections -/

def encodeTemplates (templates : List Delimiters) : Json :=
  .object [("templates", .array (templates.map encodeDelimiters))]

def encodeFiles (files : FilesConfig) : Json :=
  .object [("include", encodeTexts files.included), ("exclude", encodeTexts files.excluded)]

def encodeEngine (engine : EngineConfig) : Json :=
  .object
    [("parallel", .bool engine.parallel), ("jobs", .ofNat engine.jobs),
      ("max_fix_passes", .ofNat engine.maxFixPasses)]

def encodeOutput (output : OutputConfig) : Json :=
  .object [("format", .string output.format.name), ("color", .string output.color.name)]

def encodeRules (rules : RulesConfig) : Json :=
  .object
    [(ClosingTags.info.id, encodeEntry encodeClosingTags rules.closingTags),
      (ElementNewline.info.id, encodeEntry encodeElementNewline rules.elementNewline)]

/-- The form of a configuration by its sections. -/
theorem toJson_eq (config : Config) :
    config.toJson = .object
      [("parser", encodeTemplates config.templates), ("files", encodeFiles config.files),
        ("engine", encodeEngine config.engine), ("output", encodeOutput config.output),
        ("rules", encodeRules config.rules)] :=
  rfl

theorem decodeTemplates?_encodeTemplates (templates : List Delimiters) :
    decodeTemplates? (encodeTemplates templates) = some templates :=
  mapM_map encodeDelimiters decodeDelimiters?_encodeDelimiters templates

theorem reads_templates : Reads decodeTemplates? (encodeTemplates initialTemplates)
    initialTemplates := by
  refine .section (by decide) rfl (decodeTemplates?_encodeTemplates _) (.only (.leaf ?_ ?_))
  · exact mapM_map encodeDelimiters decodeDelimiters?_encodeDelimiters initialTemplates
  · simp

theorem decodeFiles?_encodeFiles (files : FilesConfig) :
    decodeFiles? (encodeFiles files) = some files := by
  rw [decodeFiles?, encodeFiles, section?_full (by decide) (by rfl)]
  simp [texts?_encodeTexts]

theorem reads_files : Reads decodeFiles? (encodeFiles .initial) .initial := by
  refine .section (by decide) rfl (decodeFiles?_encodeFiles _) ?_
  exact .key (reads_texts _) fun _ => .key (reads_texts _) fun _ => .done _

theorem decodeEngine?_encodeEngine {engine : EngineConfig} (jobs : engine.jobs < UInt64.size)
    (passes : engine.maxFixPasses < UInt64.size) :
    decodeEngine? (encodeEngine engine) = some engine := by
  rw [decodeEngine?, encodeEngine, section?_full (by decide) (by rfl)]
  simp [(reads_flag _).initially, (reads_number jobs).initially, (reads_number passes).initially]

theorem reads_engine : Reads decodeEngine? (encodeEngine .initial) .initial := by
  refine .section (by decide) rfl (decodeEngine?_encodeEngine (by decide) (by decide)) ?_
  exact .key (reads_flag _) fun _ => .key (reads_number (by decide)) fun _ =>
    .key (reads_number (by decide)) fun _ => .done _

theorem decodeOutput?_encodeOutput (output : OutputConfig) :
    decodeOutput? (encodeOutput output) = some output := by
  obtain ⟨format, color⟩ := output
  cases format <;> cases color <;> rfl

theorem reads_output : Reads decodeOutput? (encodeOutput .initial) .initial := by
  refine .section (by decide) rfl (decodeOutput?_encodeOutput _) ?_
  exact .key (reads_choice rfl) fun _ => .key (reads_choice rfl) fun _ => .done _

/-! ### The rules -/

section Rule

variable {Options : Type} {encode : Options → Json} {decode : Json → Option Options}

theorem severity_first (severity : Severity) :
    [Severity.info, .warning, .error].find? (fun candidate => candidate.name == severity.name) =
      some severity := by
  cases severity <;> rfl

/-- The entry of a rule is read back if its options are. -/
theorem decodeRule?_encodeEntry (inverse : ∀ options, decode (encode options) = some options)
    (initial entry : RuleEntry Options) :
    decodeRule? initial decode (encodeEntry encode entry) = some entry := by
  rw [decodeRule?, encodeEntry, section?_full (by decide) (by rfl)]
  simp [inverse, (reads_flag _).initially, (reads_choice (severity_first _)).initially]

/-- The entry of a rule has its own severity where none is given. -/
theorem reads_rule (inverse : ∀ options, decode (encode options) = some options)
    {initial : RuleEntry Options} (reads : Reads decode (encode initial.options) initial.options) :
    Reads (decodeRule? initial decode) (encodeEntry encode initial) initial := by
  refine .section (by decide) rfl (decodeRule?_encodeEntry inverse initial initial) ?_
  exact .key (reads_flag _) fun _ => .key (reads_choice (severity_first _)) fun _ =>
    .key reads fun _ => .done _

end Rule

theorem selfClosing_first (style : SelfClosing) :
    [SelfClosing.always, .never].find? (fun candidate => candidate.name == style.name) =
      some style := by
  cases style <;> rfl

theorem decodeClosingTags?_encodeClosingTags (options : ClosingTagsOptions) :
    decodeClosingTags? (encodeClosingTags options) = some options := by
  rw [decodeClosingTags?, encodeClosingTags, section?_full (by decide) (by rfl)]
  simp [texts?_encodeTexts, (reads_flag _).initially,
    (reads_choice (selfClosing_first _)).initially]

theorem reads_closingTags :
    Reads decodeClosingTags? (encodeClosingTags ClosingTags.defaultOptions)
      ClosingTags.defaultOptions := by
  refine .section (by decide) rfl (decodeClosingTags?_encodeClosingTags _) ?_
  exact .key (reads_choice (selfClosing_first _)) fun _ => .key (reads_flag _) fun _ =>
    .key (reads_texts _) fun _ => .done _

theorem decodeElementNewline?_encodeElementNewline (options : ElementNewlineOptions) :
    decodeElementNewline? (encodeElementNewline options) = some options := by
  rw [decodeElementNewline?, encodeElementNewline, section?_full (by decide) (by rfl)]
  simp [texts?_encodeTexts]

theorem reads_elementNewline :
    Reads decodeElementNewline? (encodeElementNewline ElementNewline.defaultOptions)
      ElementNewline.defaultOptions := by
  refine .section (by decide) rfl (decodeElementNewline?_encodeElementNewline _) ?_
  exact .key (reads_texts _) fun _ => .key (reads_texts _) fun _ => .done _

theorem decodeRules?_encodeRules (rules : RulesConfig) :
    decodeRules? (encodeRules rules) = some rules := by
  have apart : ElementNewline.info.id ≠ ClosingTags.info.id := by decide
  rw [decodeRules?, encodeRules, section?_full (by decide) (by rfl)]
  simp [apart, decodeRule?_encodeEntry, decodeClosingTags?_encodeClosingTags,
    decodeElementNewline?_encodeElementNewline]

theorem reads_rules : Reads decodeRules? (encodeRules .initial) .initial := by
  refine .section (by decide) rfl (decodeRules?_encodeRules _) ?_
  exact .key (reads_rule decodeClosingTags?_encodeClosingTags reads_closingTags) fun _ =>
    .key (reads_rule decodeElementNewline?_encodeElementNewline reads_elementNewline) fun _ =>
      .done _

/-! ### The whole configuration -/

theorem decode?_toJson {config : Config} (jobs : config.engine.jobs < UInt64.size)
    (passes : config.engine.maxFixPasses < UInt64.size) :
    decode? config.toJson = some config := by
  rw [decode?, toJson_eq, section?_full (by decide) (by rfl)]
  simp [decodeTemplates?_encodeTemplates, decodeFiles?_encodeFiles,
    decodeEngine?_encodeEngine jobs passes, decodeOutput?_encodeOutput, decodeRules?_encodeRules]

theorem reads_config : Reads decode? Config.initial.toJson Config.initial := by
  refine .section (by decide) rfl (decode?_toJson (by decide) (by decide)) ?_
  exact .key reads_templates fun _ => .key reads_files fun _ => .key reads_engine fun _ =>
    .key reads_output fun _ => .key reads_rules fun _ => .done _

theorem isWritable_encodeTexts (depth : Nat) (texts : List String) :
    Json.IsWritable (depth + 1) (encodeTexts texts) :=
  .array (by simpa using fun text _ => Json.IsWritable.string text)

theorem isWritable_encodeDelimiters (depth : Nat) (pair : Delimiters) :
    Json.IsWritable (depth + 1) (encodeDelimiters pair) := by
  refine .array ?_
  simp [Json.ofText, Json.IsWritable.string]

/-- A configuration can be written. -/
theorem isWritable_toJson (config : Config) : Json.IsWritable 5 config.toJson := by
  have templates : Json.IsWritable 3 (.array (config.templates.map encodeDelimiters)) :=
    .array (by simpa using fun pair _ => isWritable_encodeDelimiters 1 pair)
  simp [toJson, Json.isWritable_object_iff, encodeEntry, encodeClosingTags,
    encodeElementNewline, Json.isWritable_ofNat, Json.IsWritable.bool, Json.IsWritable.string,
    isWritable_encodeTexts, templates]

/-! ### Texts -/

/-- The forms of one configuration that leave out members which hold anyway. A key whose value is
the one it has anyway may be missing in any section, and any number of them, one after the other. -/
def Sparse : (full sparse : Json) → Prop :=
  Relation.ReflTransGen (Json.Changes Json.LosesInitial Config.initial.toJson)

/-- Leaving out members that hold anyway leaves a configuration as it is. -/
theorem decode?_sparse {config : Config} {full sparse : Json} (fewer : Sparse full sparse)
    (decoded : decode? full = some config) : decode? sparse = some config := by
  induction fewer with
  | refl => exact decoded
  | tail _ changes ih => exact reads_config.loses changes ih

theorem isWritable_sparse {depth : Nat} {full sparse : Json} (fewer : Sparse full sparse)
    (writable : Json.IsWritable depth full) : Json.IsWritable depth sparse := by
  induction fewer with
  | refl => exact writable
  | tail _ changes ih => exact ih.loses changes

/-- How a configuration and its JSON forms belong together. -/
structure RoundTrips (config : Config) : Prop where
  /-- Either layout of the whole form reads back. -/
  whole : ofJsonText (config.toJson.compact .unicode) = .ok config ∧
    ofJsonText (config.toJson.indented 0) = .ok config
  /-- So does either layout, and any other text, of a form without members that hold anyway. -/
  sparse : ∀ json, Sparse config.toJson json →
    ofJsonText (json.compact .unicode) = .ok config ∧
      ofJsonText (json.indented 0) = .ok config ∧
      ∀ text, Json.read? text = some json → ofJsonText text = .ok config
  /-- With a member of an unknown key in any of its sections, no form is read. -/
  strange : ∀ before after, Json.Changes Json.GainsUnknown Config.initial.toJson before after →
    ∀ text, Json.read? text = some after → ofJsonText text = .error .json

/-- A configuration that passes its checks, with numbers of the machine, is what its forms say. -/
theorem roundTrips {config : Config} (valid : config.validate = .ok config)
    (jobs : config.engine.jobs < UInt64.size)
    (passes : config.engine.maxFixPasses < UInt64.size) : config.RoundTrips := by
  -- What is left out of a sparse form has its default, so all forms decode to the configuration.
  have sparse : ∀ json, Sparse config.toJson json → ∀ text, Json.read? text = some json →
      ofJsonText text = .ok config := by
    intro json fewer text read
    have decoded := decode?_sparse fewer (decode?_toJson jobs passes)
    simp [ofJsonText, read, decoded, valid]
  have layouts : ∀ json, Sparse config.toJson json →
      Json.read? (json.compact .unicode) = some json ∧
        Json.read? (json.indented 0) = some json := by
    intro json fewer
    have writable := isWritable_sparse fewer (isWritable_toJson config)
    exact ⟨Json.read?_compact .unicode writable (by decide),
      Json.read?_indented 0 writable (by decide)⟩
  refine { whole := ?whole, sparse := ?sparse, strange := ?strange }
  case whole =>
    obtain ⟨compact, indented⟩ := layouts config.toJson .refl
    exact ⟨sparse _ .refl _ compact, sparse _ .refl _ indented⟩
  case sparse =>
    intro json fewer
    obtain ⟨compact, indented⟩ := layouts json fewer
    exact ⟨sparse json fewer _ compact, sparse json fewer _ indented, sparse json fewer⟩
  case strange =>
    intro before after changes text read
    simp [ofJsonText, read, reads_config.gains changes]

/-- Four jobs at a time, but not in parallel: of the form only these two members are needed, and
none with another key may stand beside them. -/
theorem roundTrips_sample :
    ∃ config : Config, config = { Config.initial with engine := ⟨false, 4, 10⟩ } ∧
      config.validate = .ok config ∧ config.engine.jobs < UInt64.size ∧
      config.engine.maxFixPasses < UInt64.size ∧ config.RoundTrips ∧
      ofJsonText (Json.compact .unicode
        (.object [("engine", .object [("parallel", .bool false), ("jobs", .ofNat 4)])])) =
          .ok config ∧
      ofJsonText (Json.compact .unicode
        (.object [("engine", .object [("parallel", .bool false), ("jobs", .ofNat 4),
          ("threads", .ofNat 4)])])) = .error .json := by
  have valid : validate { Config.initial with engine := ⟨false, 4, 10⟩ } =
      .ok { Config.initial with engine := ⟨false, 4, 10⟩ } := rfl
  have trips := roundTrips valid (by decide) (by decide)
  have fewer : Sparse (toJson { Config.initial with engine := ⟨false, 4, 10⟩ })
      (.object [("engine", .object [("parallel", .bool false), ("jobs", .ofNat 4)])]) := by
    refine .head (.here ⟨[], "parser", _, _, rfl, rfl, rfl⟩) ?_
    refine .head (.here ⟨[], "files", _, _, rfl, rfl, rfl⟩) ?_
    refine .head (.here ⟨[("engine", _)], "output", _, _, rfl, rfl, rfl⟩) ?_
    refine .head (.here ⟨[("engine", _)], "rules", _, [], rfl, rfl, rfl⟩) ?_
    exact .single (@Json.Changes.inside _ _ [] [] "engine" _ _ _ rfl
      (.here ⟨[_, _], "max_fix_passes", _, [], rfl, rfl, rfl⟩))
  have more : Json.Changes Json.GainsUnknown Config.initial.toJson
      (.object [("engine", .object [("parallel", .bool false), ("jobs", .ofNat 4)])])
      (.object [("engine", .object [("parallel", .bool false), ("jobs", .ofNat 4),
        ("threads", .ofNat 4)])]) :=
    @Json.Changes.inside _ _ [] [] "engine" _ _ _ rfl
      (.here ⟨[_, _], "threads", _, [], rfl, rfl, rfl⟩)
  have writable : Json.IsWritable 2
      (.object [("engine", .object [("parallel", .bool false), ("jobs", .ofNat 4),
        ("threads", .ofNat 4)])]) := by
    simp [Json.isWritable_object_iff, Json.isWritable_ofNat, Json.IsWritable.bool]
  exact ⟨_, rfl, valid, by decide, by decide, trips, (trips.sparse _ fewer).1,
    trips.strange _ _ more _ (Json.read?_compact .unicode writable (by decide))⟩

end Config
end TagLint
