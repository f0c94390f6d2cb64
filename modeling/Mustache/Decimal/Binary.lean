/-!
# Binary formats

Numbers with a bounded number of significant bits, and the rounding of a fraction to such a number.
All arithmetic is exact: a fraction is a pair of natural numbers, and a rounding is done once, on
the fraction itself.
-/

namespace Mustache

/-- What happens to a value halfway between two candidates. -/
inductive Tie where
  /-- The even candidate is taken. -/
  | toEven
  /-- The greater candidate is taken. -/
  | up

/-- A quotient rounded to the nearest natural number. -/
def Tie.roundDiv (tie : Tie) (num den : Nat) : Nat :=
  let q := num / den
  match compare (2 * (num % den)) den, tie with
  | .lt, _ => q
  | .gt, _ => q + 1
  | .eq, .up => q + 1
  | .eq, .toEven => if q % 2 = 0 then q else q + 1

/-- A non-negative fraction. -/
structure Fraction where
  num : Nat
  den : Nat

namespace Fraction

/-- A power of a base. -/
def pow (base : Nat) (e : Int) : Fraction := ⟨Nat.pow base e.toNat, Nat.pow base (-e).toNat⟩

def mul (a b : Fraction) : Fraction := ⟨a.num * b.num, a.den * b.den⟩

def div (a b : Fraction) : Fraction := ⟨a.num * b.den, a.den * b.num⟩

instance : Mul Fraction := ⟨mul⟩

instance : Div Fraction := ⟨div⟩

/-- The order of the values, for denominators that are not zero. -/
def compare (a b : Fraction) : Ordering := Ord.compare (a.num * b.den) (b.num * a.den)

/-- Whether one value is at most another. -/
def isAtMost (a b : Fraction) : Bool := a.num * b.den ≤ b.num * a.den

end Fraction

/-- A number of a binary format without its sign: `mantissa * 2 ^ exponent`. -/
structure Dyadic where
  mantissa : Nat
  exponent : Int
deriving DecidableEq, Repr

/-- The value of a dyadic number. -/
def Dyadic.toFraction (x : Dyadic) : Fraction := ⟨x.mantissa, 1⟩ * Fraction.pow 2 x.exponent

/-- A binary format: mantissas have at most `precision` bits, and exponents have bounds. -/
structure BinaryFormat where
  precision : Nat
  minExponent : Int
  maxExponent : Int

namespace BinaryFormat

/-- The format of 32 bits. -/
def binary32 : BinaryFormat := ⟨24, -149, 104⟩

/-- The format of 64 bits. -/
def binary64 : BinaryFormat := ⟨53, -1074, 971⟩

/-- The least mantissa with all the bits that mantissas may have. -/
def leastFull (f : BinaryFormat) : Nat := Nat.pow 2 (f.precision - 1)

/-- The greatest `k` with `2 ^ k ≤ x`, for a fraction that is not zero. -/
def floorLog2 (x : Fraction) : Int :=
  let k : Int := (Nat.log2 x.num : Int) - Nat.log2 x.den
  if (Fraction.pow 2 k).isAtMost x then k else k - 1

/-- The number of the format that is nearest to a fraction, the even one of two. There is none when
the fraction lies past the greatest number of the format by half a step or more. -/
def round? (f : BinaryFormat) (x : Fraction) : Option Dyadic :=
  if x.num = 0 then some ⟨0, f.minExponent⟩
  else
    let e := max (floorLog2 x - (f.precision - 1)) f.minExponent
    let y := x / Fraction.pow 2 e
    let m := Tie.toEven.roundDiv y.num y.den
    let z : Dyadic := if m = Nat.pow 2 f.precision then ⟨f.leastFull, e + 1⟩ else ⟨m, e⟩
    if z.exponent ≤ f.maxExponent then some z else none

end BinaryFormat

end Mustache
