import TagLint.Unicode.Packed

/-! The general categories of code points and their names. -/
namespace TagLint.Unicode

/-- The general category of a code point. -/
inductive Category where
  | upperLetter
  | lowerLetter
  | titleLetter
  | modifierLetter
  | otherLetter
  | nonspacingMark
  | spacingMark
  | enclosingMark
  | digit
  | letterNumber
  | otherNumber
  | connector
  | dash
  | opening
  | closing
  | initialQuote
  | finalQuote
  | otherPunctuation
  | mathSymbol
  | currency
  | modifierSymbol
  | otherSymbol
  | space
  | lineSeparator
  | paragraphSeparator
  | control
  | format
  | surrogate
  | privateUse
  | unassigned
  deriving DecidableEq, Repr

namespace Category

/-- The kinds of letters that have a case. -/
def casedLetters : List Category :=
  [upperLetter, lowerLetter, titleLetter]

def letters : List Category :=
  casedLetters ++ [modifierLetter, otherLetter]

def marks : List Category :=
  [nonspacingMark, spacingMark, enclosingMark]

def numbers : List Category :=
  [digit, letterNumber, otherNumber]

def punctuation : List Category :=
  [connector, dash, opening, closing, initialQuote, finalQuote, otherPunctuation]

def symbols : List Category :=
  [mathSymbol, currency, modifierSymbol, otherSymbol]

def separators : List Category :=
  [space, lineSeparator, paragraphSeparator]

/-- The kinds of all that is no text. -/
def others : List Category :=
  [control, format, surrogate, privateUse, unassigned]

/-- The categories and groups of categories with their names. Surrogates are no characters and have
none. -/
def named : List (List String × List Category) := [
  (["lu", "uppercaseletter"], [upperLetter]), (["ll", "lowercaseletter"], [lowerLetter]),
  (["lt", "titlecaseletter"], [titleLetter]), (["lm", "modifierletter"], [modifierLetter]),
  (["lo", "otherletter"], [otherLetter]), (["lc", "casedletter"], casedLetters),
  (["l", "letter"], letters), (["mn", "nonspacingmark"], [nonspacingMark]),
  (["mc", "spacingmark"], [spacingMark]), (["me", "enclosingmark"], [enclosingMark]),
  (["m", "mark", "combiningmark"], marks), (["nd", "decimalnumber", "digit"], [digit]),
  (["nl", "letternumber"], [letterNumber]), (["no", "othernumber"], [otherNumber]),
  (["n", "number"], numbers), (["pc", "connectorpunctuation"], [connector]),
  (["pd", "dashpunctuation"], [dash]), (["ps", "openpunctuation"], [opening]),
  (["pe", "closepunctuation"], [closing]), (["pi", "initialpunctuation"], [initialQuote]),
  (["pf", "finalpunctuation"], [finalQuote]), (["po", "otherpunctuation"], [otherPunctuation]),
  (["p", "punctuation", "punct"], punctuation), (["sm", "mathsymbol"], [mathSymbol]),
  (["sc", "currencysymbol"], [currency]), (["sk", "modifiersymbol"], [modifierSymbol]),
  (["so", "othersymbol"], [otherSymbol]), (["s", "symbol"], symbols),
  (["zs", "spaceseparator"], [space]), (["zl", "lineseparator"], [lineSeparator]),
  (["zp", "paragraphseparator"], [paragraphSeparator]), (["z", "separator"], separators),
  (["cc", "control", "cntrl"], [control]), (["cf", "format"], [format]),
  (["co", "privateuse"], [privateUse]), (["cn", "unassigned"], [unassigned]),
  (["c", "other"], others)]

end Category
end TagLint.Unicode
