/-!
Numbers with 53 binary digits, and their decimal form with a fixed number of places.

A ratio is rounded to the nearest number with 53 significant binary digits, and of two equally
near ones to the one whose last digit is even. All arithmetic is exact.
-/
namespace TagLint

/-- A ratio of natural numbers. -/
structure Ratio where
  numerator : Nat
  denominator : Nat
  deriving DecidableEq, Repr

namespace Ratio

/-- The natural number as a ratio. -/
def ofNat (n : Nat) : Ratio :=
  ⟨n, 1⟩

/-- The sum. -/
def add (a b : Ratio) : Ratio :=
  ⟨a.numerator * b.denominator + b.numerator * a.denominator, a.denominator * b.denominator⟩

/-- The nearest natural number, and of two the even one. -/
def roundEven (r : Ratio) : Nat :=
  let quotient := r.numerator / r.denominator
  let rest := 2 * (r.numerator % r.denominator)
  if rest < r.denominator then quotient
  else if r.denominator < rest then quotient + 1
  else quotient + quotient % 2

/-- The number of significant binary digits. -/
def precision : Nat := 53

/-- The ratio rounded to 53 significant binary digits. -/
def toBinary (r : Ratio) : Ratio :=
  if r.numerator == 0 then r
  else
    let size := (r.numerator / r.denominator).log2
    if r.denominator ≤ r.numerator && precision ≤ size + 1 then
      let scale := 1 <<< (size + 1 - precision)
      ofNat (roundEven ⟨r.numerator, r.denominator * scale⟩ * scale)
    else
      let lead := if r.denominator ≤ r.numerator then size
        else 0
      let zeros := if r.denominator ≤ r.numerator then 0
        else (r.denominator / r.numerator).log2 + 1
      let scale := 1 <<< (precision + zeros - lead - 1)
      let scaled : Ratio := ⟨r.numerator * scale, r.denominator⟩
      let excess := (scaled.numerator / scaled.denominator).log2 + 1 - precision
      ⟨roundEven ⟨scaled.numerator, scaled.denominator <<< excess⟩ <<< excess, scale⟩

/-- The decimal form with two places, a tie going to the even last digit. -/
def toFixedTwo (r : Ratio) : List Char :=
  let hundredths := roundEven ⟨r.numerator * 100, r.denominator⟩
  let places := hundredths % 100
  Nat.toDigits 10 (hundredths / 100) ++ '.' ::
    [Nat.digitChar (places / 10), Nat.digitChar (places % 10)]

end Ratio
end TagLint
