import TagLint.Unicode.BinaryTable
import TagLint.Unicode.CategoryTable
import TagLint.Unicode.Segmentation

/-!
Properties that a code point has or lacks.

Most of the larger ones are put together from categories and a few more characters, as the standard
derives them.
-/
namespace TagLint.Unicode

/-- The code points of some categories. -/
def ofCategories (categories : List Category) : CharSet :=
  let numbers := categories.map categoryOrder.idxOf
  ⟨CharSet.join (runRanges numbers.contains 0 categoryRuns)⟩

/-- Small letters and what counts as such. -/
def lowercase : CharSet :=
  (ofCategories [.lowerLetter]).union otherLower

/-- Capital letters and what counts as such. -/
def uppercase : CharSet :=
  (ofCategories [.upperLetter]).union otherUpper

/-- What has a case. -/
def cased : CharSet :=
  .unions [lowercase, uppercase, ofCategories [.titleLetter]]

/-- Letters, letter-like numbers and what counts as such. -/
def alphabetic : CharSet :=
  (ofCategories (.letterNumber :: Category.letters)).union otherAlphabetic

def decimalDigits : CharSet :=
  ofCategories [.digit]

/-- The two joiners. -/
def joinControl : CharSet :=
  ⟨[(0x200C, 0x200D)]⟩

/-- The characters of words: letters, marks, decimal digits, connecting punctuation and the
joiners. -/
def wordCharacters : CharSet :=
  .unions [alphabetic, ofCategories (.digit :: .connector :: Category.marks), joinControl]

def whiteSpace : CharSet :=
  ⟨[(0x9, 0xD), (0x20, 0x20), (0x85, 0x85), (0xA0, 0xA0), (0x1680, 0x1680), (0x2000, 0x200A),
    (0x2028, 0x2029), (0x202F, 0x202F), (0x205F, 0x205F), (0x3000, 0x3000)]⟩

/-- The characters that word processing skips when it looks for the case of a word. -/
def caseIgnorable : CharSet :=
  .unions
    (ofCategories [.nonspacingMark, .enclosingMark, .format, .modifierLetter, .modifierSymbol] ::
      ["midletter", "midnumlet", "singlequote"].filterMap wordBreak.set?)

/-- The characters that extend the one before them. -/
def graphemeExtend : CharSet :=
  (ofCategories [.nonspacingMark, .enclosingMark]).union otherGraphemeExtend

/-- The characters that stand for themselves. -/
def graphemeBase : CharSet :=
  CharSet.complement
    (.union (ofCategories (.lineSeparator :: .paragraphSeparator :: Category.others))
      graphemeExtend)

/-- Characters at the start of names, apart from letters. -/
def otherNameStart : CharSet :=
  ⟨[(0x1885, 0x1886), (0x2118, 0x2118), (0x212E, 0x212E), (0x309B, 0x309C)]⟩

/-- Characters inside names, apart from letters, marks, digits and connectors. -/
def otherNameContinue : CharSet :=
  ⟨[(0xB7, 0xB7), (0x387, 0x387), (0x1369, 0x1371), (0x19DA, 0x19DA), (0x200C, 0x200D),
    (0x30FB, 0x30FB), (0xFF65, 0xFF65)]⟩

/-- The characters that the syntax of patterns keeps for itself. -/
def patternReserved : CharSet :=
  patternSyntax.union patternSpace

/-- The characters at the start of names. -/
def nameStart : CharSet :=
  CharSet.diff (.union (ofCategories (.letterNumber :: Category.letters)) otherNameStart)
    patternReserved

/-- The characters inside names. -/
def nameContinue : CharSet :=
  CharSet.diff
    (.unions
      [nameStart, ofCategories [.nonspacingMark, .spacingMark, .digit, .connector],
        otherNameContinue])
    patternReserved

/-- Characters that choose between forms of the one before them. -/
def variationSelectors : CharSet :=
  ⟨[(0x180B, 0x180D), (0x180F, 0x180F), (0xFE00, 0xFE0F), (0xE0100, 0xE01EF)]⟩

/-- Characters that are not shown where they are not supported, apart from formats and variation
selectors. -/
def otherIgnorable : CharSet :=
  ⟨[(0x34F, 0x34F), (0x115F, 0x1160), (0x17B4, 0x17B5), (0x2065, 0x2065), (0x3164, 0x3164),
    (0xFFA0, 0xFFA0), (0xFFF0, 0xFFF8), (0xE0000, 0xE0000), (0xE0002, 0xE001F),
    (0xE0080, 0xE00FF), (0xE01F0, 0xE0FFF)]⟩

/-- Formats that are shown: annotations, signs of hieroglyphs, and marks before digits. -/
def shownFormats : CharSet :=
  .union ⟨[(0xFFF9, 0xFFFB), (0x13430, 0x1343F)]⟩ prependedMark

/-- Characters that are not shown where they are not supported. -/
def defaultIgnorable : CharSet :=
  CharSet.diff (.unions [otherIgnorable, ofCategories [.format], variationSelectors])
    (shownFormats.union whiteSpace)

/-- The properties that a code point has or lacks, with their names in lower case and without
separators. -/
def binaryProperties : List (List String × CharSet) := [
  (["asciihexdigit", "ahex"], ⟨[(0x30, 0x39), (0x41, 0x46), (0x61, 0x66)]⟩),
  (["alphabetic", "alpha"], alphabetic),
  (["bidicontrol", "bidic"],
    ⟨[(0x61C, 0x61C), (0x200E, 0x200F), (0x202A, 0x202E), (0x2066, 0x2069)]⟩),
  (["caseignorable", "ci"], caseIgnorable),
  (["cased"], cased),
  (["changeswhencasefolded", "cwcf"], changesWhenCasefolded),
  (["changeswhencasemapped", "cwcm"],
    .unions [changesWhenLowercased, changesWhenUppercased, changesWhenTitlecased]),
  (["changeswhenlowercased", "cwl"], changesWhenLowercased),
  (["changeswhentitlecased", "cwt"], changesWhenTitlecased),
  (["changeswhenuppercased", "cwu"], changesWhenUppercased),
  (["dash"], dash),
  (["defaultignorablecodepoint", "di"], defaultIgnorable),
  (["deprecated", "dep"], deprecated),
  (["diacritic", "dia"], diacritic),
  (["emoji"], emoji),
  (["emojicomponent", "ecomp"], emojiComponent),
  (["emojimodifier", "emod"], ⟨[(0x1F3FB, 0x1F3FF)]⟩),
  (["emojimodifierbase", "ebase"], emojiModifierBase),
  (["emojipresentation", "epres"], emojiPresentation),
  (["extendedpictographic", "extpict"], extendedPictographic),
  (["extender", "ext"], extender),
  (["graphemebase", "grbase"], graphemeBase),
  (["graphemeextend", "grext"], graphemeExtend),
  (["graphemelink", "grlink"], graphemeLink),
  (["hexdigit", "hex"],
    ⟨[(0x30, 0x39), (0x41, 0x46), (0x61, 0x66), (0xFF10, 0xFF19), (0xFF21, 0xFF26),
      (0xFF41, 0xFF46)]⟩),
  (["hyphen"], hyphen),
  (["idsbinaryoperator", "idsb"], ⟨[(0x2FF0, 0x2FF1), (0x2FF4, 0x2FFD), (0x31EF, 0x31EF)]⟩),
  (["idstrinaryoperator", "idst"], ⟨[(0x2FF2, 0x2FF3)]⟩),
  (["idsunaryoperator", "idsu"], ⟨[(0x2FFE, 0x2FFF)]⟩),
  (["idcompatmathcontinue"], compatMathContinue),
  (["idcompatmathstart"], compatMathStart),
  (["idcontinue", "idc"], nameContinue),
  (["idstart", "ids"], nameStart),
  (["ideographic", "ideo"], ideographic),
  (["joincontrol", "joinc"], joinControl),
  (["logicalorderexception", "loe"], logicalOrderException),
  (["lowercase", "lower"], lowercase),
  (["math"], .union (ofCategories [.mathSymbol]) otherMath),
  (["modifiercombiningmark", "mcm"], modifierCombiningMark),
  (["noncharactercodepoint", "nchar"], noncharacter),
  (["otheralphabetic", "oalpha"], otherAlphabetic),
  (["otherdefaultignorablecodepoint", "odi"], otherIgnorable),
  (["othergraphemeextend", "ogrext"], otherGraphemeExtend),
  (["otheridcontinue", "oidc"], otherNameContinue),
  (["otheridstart", "oids"], otherNameStart),
  (["otherlowercase", "olower"], otherLower),
  (["othermath", "omath"], otherMath),
  (["otheruppercase", "oupper"], otherUpper),
  (["patternsyntax", "patsyn"], patternSyntax),
  (["patternwhitespace", "patws"], patternSpace),
  (["prependedconcatenationmark", "pcm"], prependedMark),
  (["quotationmark", "qmark"], quotationMark),
  (["radical"], radical),
  (["regionalindicator", "ri"], ⟨[(0x1F1E6, 0x1F1FF)]⟩),
  (["sentenceterminal", "sterm"], sentenceTerminal),
  (["softdotted", "sd"], softDotted),
  (["terminalpunctuation", "term"], terminalPunctuation),
  (["unifiedideograph", "uideo"], unifiedIdeograph),
  (["uppercase", "upper"], uppercase),
  (["variationselector", "vs"], variationSelectors),
  (["whitespace", "wspace", "space"], whiteSpace),
  (["xidcontinue", "xidc"], nameContinue.diff notContinuingNormalized),
  (["xidstart", "xids"], nameStart.diff notStartingNormalized)]

end TagLint.Unicode

namespace TagLint

def isAsciiWordChar (c : Char) : Bool :=
  c.isAlphanum || c == '_'

def isWordChar (c : Char) : Bool :=
  if c.toNat < 128 then isAsciiWordChar c else Unicode.wordCharacters.contains c

end TagLint
