import Mustache.Decimal.Binary

/-!
# Shortest decimals

The decimal with the fewest digits that names a number of a binary format: every number of the
format is the nearest one to an interval of values, and of the decimals in that interval the ones
with the fewest digits count, and of those the nearest to the number.
-/

namespace Mustache

/-- A decimal `0.d₁d₂…dₙ * 10 ^ point`, with its digits as characters. -/
structure Decimal where
  digits : List Char
  point : Int
deriving DecidableEq, Repr

namespace Decimal

/-- The decimal of `coefficient * 10 ^ exponent`, without zeros at the end. -/
def ofScaled (coefficient : Nat) (exponent : Int) : Decimal :=
  let digits := Nat.toDigits 10 coefficient
  ⟨(digits.reverse.dropWhile (· == '0')).reverse, exponent + digits.length⟩

/-- The greatest `k` with `10 ^ k ≤ x`, for a fraction that is not zero. -/
def floorLog10 (x : Fraction) : Int :=
  if x.den ≤ x.num then ((Nat.toDigits 10 (x.num / x.den)).length : Int) - 1
  else
    let k : Int := -((Nat.toDigits 10 (x.den / x.num)).length : Int)
    if (Fraction.pow 10 (k + 1)).isAtMost x then k + 1 else k

/-- Whether `x`, a number of the format, is the nearest one to `y`. The interval ends half a step
away on either side; below the least mantissa the steps are half as wide. The ends belong to it when
the mantissa is even. -/
def readsBack (f : BinaryFormat) (x : Dyadic) (y : Fraction) : Bool :=
  let quarter := Fraction.pow 2 (x.exponent - 2)
  let below := if x.mantissa = f.leastFull ∧ f.minExponent < x.exponent then 1 else 2
  let low : Fraction := ⟨4 * x.mantissa - below, 1⟩ * quarter
  let high : Fraction := ⟨4 * x.mantissa + 2, 1⟩ * quarter
  if x.mantissa % 2 = 0 then low.isAtMost y && y.isAtMost high
  else !y.isAtMost low && !high.isAtMost y

/-- The multiple of `10 ^ e` that names `x`, if there is one: of its two neighbours among the
multiples the nearer one that reads back. -/
def onGrid? (f : BinaryFormat) (tie : Tie) (x : Dyadic) (e : Int) : Option Nat :=
  let y := x.toFraction / Fraction.pow 10 e
  let c := y.num / y.den
  let names (c : Nat) := readsBack f x (⟨c, 1⟩ * Fraction.pow 10 e)
  match names c, names (c + 1) with
  | true, true => some (tie.roundDiv y.num y.den)
  | true, false => some c
  | false, true => some (c + 1)
  | false, false => none

/-- The most digits that a number of the formats in use needs. -/
def maxDigits : Nat := 17

/-- The decimal with the fewest digits that names `x`, a number of the format other than zero. -/
def shortest (f : BinaryFormat) (tie : Tie) (x : Dyadic) : Decimal :=
  let lead := floorLog10 x.toFraction
  let found := (List.range maxDigits).findSome? fun (n : Nat) =>
    let e := lead - n
    (onGrid? f tie x e).map (ofScaled · e)
  found.getD (ofScaled x.mantissa x.exponent)

end Decimal

end Mustache
