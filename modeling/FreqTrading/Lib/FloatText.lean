import FreqTrading.Lib.Python
import FreqTrading.Lib.Rounding

/-!
# `repr` of a float

A number is shown as the double nearest to it: by the shortest decimal that is read as this double, and of two such the
closer one. The decimal is written out, or in scientific notation if its point is far from its digits.
-/

namespace FreqTrading.Lib

namespace Double

/-- `b ^ k`, for a power of either sign. -/
def power (b : Nat) (k : Int) : ℚ := if 0 ≤ k then (b : ℚ) ^ k.toNat else 1 / (b : ℚ) ^ (-k).toNat

/-- The exponent of the highest power of two that is not above a positive number. -/
def log2 (x : ℚ) : Int :=
  let k : Int := (Nat.log2 x.num.toNat : Int) - Nat.log2 x.den
  if power 2 k ≤ x then k else k - 1

/-- How far apart the doubles around a positive number are: they have 53 bits, and none below `2 ^ -1074`. -/
def ulp (x : ℚ) : ℚ := power 2 (max (log2 x - 52) (-1074))

/-- The double nearest to a positive number, a tie going to the even one. -/
def nearest (x : ℚ) : ℚ := roundEven (x / ulp x) * ulp x

/-- How many digits a positive number has in front of its point; below zero, how many zeros it has behind it. -/
def point (x : ℚ) : Int :=
  if 1 ≤ x then (Nat.toDigits 10 ⌊x⌋.toNat).length else 1 - ((Nat.toDigits 10 (⌈1 / x⌉ - 1).toNat).length : Int)

/-- The decimals of `n` digits on both sides of a number, the closest first, in units of the last of so many places. -/
def candidates (x : ℚ) (n : Nat) : List (Nat × Int) :=
  let places := n - point x
  let scaled := x * power 10 places
  [roundEven scaled, ⌊scaled⌋, ⌊scaled⌋ + 1].map fun (units : Int) => (units.toNat, places)

/-- The shortest decimal that is read as the double `x`; one of 17 digits always is. -/
def shortest (x : ℚ) : Nat × Int :=
  let reads (d : Nat × Int) : Bool := nearest (d.1 * power 10 (-d.2)) = x
  (((List.range' 1 16).flatMap (candidates x)).find? reads).getD ((candidates x 17).headD (0, 0))

/-- Without the zeros at its end. -/
def trimZeros (digits : Text) : Text := (digits.reverse.dropWhile (· = '0')).reverse

def zeros (n : Int) : Text := List.replicate n.toNat '0'

/-- Digits with the point after the first `p` of them. -/
def fixed (digits : Text) (p : Int) : Text :=
  if p ≤ 0 then '0' :: '.' :: (zeros (-p) ++ digits)
  else
    let fraction := digits.drop p.toNat
    digits.take p.toNat ++ zeros (p - digits.length) ++ '.' :: (if fraction = [] then ['0'] else fraction)

/-- The point after the first digit, and a power of ten of two digits or more. -/
def scientific (digits : Text) (p : Int) : Text :=
  let fraction := digits.drop 1
  let exponent := Nat.toDigits 10 (p - 1).natAbs
  digits.take 1 ++ (if fraction = [] then [] else '.' :: fraction) ++
    ['e', if p - 1 < 0 then '-' else '+'] ++ zeros (2 - exponent.length) ++ exponent

/-- A positive double. -/
def text (x : ℚ) : Text :=
  let (units, places) := shortest x
  let digits := Nat.toDigits 10 units
  let p := digits.length - places
  if -4 < p ∧ p ≤ 16 then fixed (trimZeros digits) p else scientific (trimZeros digits) p

end Double

/-- `repr` of a float. -/
def pyFloat (x : ℚ) : String :=
  let sign := if x < 0 then ['-'] else []
  let double := Double.nearest |x|
  String.ofList (sign ++
    if floatLimit ≤ |x| then "inf".toList else if double = 0 then "0.0".toList else Double.text double)

example : [1 / 10, 100, -10000000010019 / 10 ^ 13, 1 / 10 ^ 5, 10 ^ 16, 10 ^ 23, 2 / 3].map pyFloat =
    ["0.1", "100.0", "-1.0000000010019", "1e-05", "1e+16", "1e+23", "0.6666666666666666"] := by decide +kernel

end FreqTrading.Lib
