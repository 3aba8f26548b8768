import TagLint.Text.Basic

/-!
Colored terminal text.

A colored text stands between a start and a reset sequence. A reset inside the text would end the
color early, so the start is written again after it.
-/
namespace TagLint

/-- The looks of terminal text. -/
inductive TextStyle where
  | red
  | green
  | yellow
  | blue
  | cyan
  | underline
  | boldRed
  | boldYellow
  deriving DecidableEq, Repr

namespace TextStyle

def codes : TextStyle → Text
  | red => "31".toList
  | green => "32".toList
  | yellow => "33".toList
  | blue => "34".toList
  | cyan => "36".toList
  | underline => "4".toList
  | boldRed => "1;31".toList
  | boldYellow => "1;33".toList

def start (style : TextStyle) : Text :=
  ['\x1b', '['] ++ style.codes ++ ['m']

/-- The sequence that ends any style. -/
def reset : Text :=
  ['\x1b', '[', '0', 'm']

def paint (style : TextStyle) (isColored : Bool) (t : Text) : Text :=
  if isColored then
    style.start ++ Text.replace reset (reset ++ style.start) t ++ reset
  else t

end TextStyle
end TagLint
