import Mustache.Decimal.Shortest

/-!
# Layout of decimals

How a decimal is written: with all its digits in place, or with an exponent. What a kind of output
decides is a `Layout`.
-/

namespace Mustache

/-- The decisions about how numbers are written. -/
structure Layout where
  /-- The exponents of a leading digit with which a number is written without an exponent. -/
  isPlain : Int → Bool
  /-- Whether a whole number is written with a zero behind its point. -/
  wholePoint : Bool
  /-- What a value halfway between two decimals of the same length becomes. -/
  tie : Tie

namespace Layout

/-- Zeros. -/
def zeros (n : Int) : List Char := List.replicate n.toNat '0'

/-- All digits in place. -/
def plain (l : Layout) (d : Decimal) : List Char :=
  if d.point ≤ 0 then ['0', '.'] ++ zeros (-d.point) ++ d.digits
  else if d.digits.length ≤ d.point.toNat then
    d.digits ++ zeros (d.point - d.digits.length) ++ (if l.wholePoint then ['.', '0'] else [])
  else d.digits.take d.point.toNat ++ ['.'] ++ d.digits.drop d.point.toNat

/-- One digit in front of the point, and an exponent with its sign. -/
def scientific (d : Decimal) : List Char :=
  let e := d.point - 1
  let mantissa := match d.digits with
    | c :: (c' :: cs) => c :: '.' :: c' :: cs
    | cs => cs
  mantissa ++ ['e', if e < 0 then '-' else '+'] ++ Nat.toDigits 10 e.natAbs

/-- Writes a number of a binary format with the fewest digits that name it. -/
def write (l : Layout) (f : BinaryFormat) (negative : Bool) (x : Dyadic) : List Char :=
  let sign := if negative then ['-'] else []
  if x.mantissa = 0 then sign ++ ['0'] ++ (if l.wholePoint then ['.', '0'] else [])
  else
    let d := Decimal.shortest f l.tie x
    sign ++ if l.isPlain (d.point - 1) then l.plain d else scientific d

end Layout

end Mustache
