import Mustache.Decimal.Layout
import Mustache.Text

/-!
# JSON numbers

A number without fraction and exponent that fits 64 bits is an integer. Any other is a number of
the format `binary64`, and is read in two steps: the digits that fit 64 bits are rounded to the
format, and then one multiplication or division by a power of ten is done in the format.
-/

namespace Mustache

/-- A JSON number. -/
inductive Json.Number where
  /-- An integer, from `-2 ^ 63` up to `2 ^ 64 - 1`. -/
  | integer (value : Int)
  /-- A number of the format `binary64`. -/
  | real (negative : Bool) (magnitude : Dyadic)
deriving DecidableEq

namespace Json.Number

/-! ## Writing -/

/-- A real number has a point or an exponent; it has an exponent below `10 ^ -5` and from `10 ^ 16`
on. -/
def layout : Layout where
  isPlain e := -5 ≤ e && e < 16
  wholePoint := true
  tie := .toEven

/-- The text of a number. -/
def text : Number → Text
  | .integer value => if value < 0 then '-' :: Text.ofNat value.natAbs else Text.ofNat value.natAbs
  | .real negative magnitude => layout.write .binary64 negative magnitude

/-! ## Arithmetic of the format -/

/-- A power of ten, rounded. -/
def powerOfTen? (k : Nat) : Option Dyadic := BinaryFormat.binary64.round? (Fraction.pow 10 k)

/-- The greatest power of ten in the format. -/
def maxPower : Nat := 308

/-- Multiplies by a power of ten, or divides by one, and rounds. Powers above the greatest one make
a number other than zero too great; powers below the least one are taken in steps. -/
def scale? (x : Dyadic) (e : Int) : Option Dyadic :=
  if 0 ≤ e then
    if x.mantissa = 0 then some x
    else if maxPower < e then none
    else (powerOfTen? e.toNat).bind fun p =>
      BinaryFormat.binary64.round? (x.toFraction * p.toFraction)
  else
    let k := min maxPower e.natAbs
    let quotient := (powerOfTen? k).bind fun p =>
      BinaryFormat.binary64.round? (x.toFraction / p.toFraction)
    match quotient with
    | none => none
    | some y => if e.natAbs ≤ maxPower ∨ y.mantissa = 0 then some y else scale? y (e + maxPower)
termination_by e.natAbs
decreasing_by simp only [maxPower] at *; omega

/-- The real number of a sign, a significand and a power of ten. -/
def ofScientific? (negative : Bool) (significand : Nat) (e : Int) : Option Number :=
  match BinaryFormat.binary64.round? ⟨significand, 1⟩ with
  | none => none
  | some x => (scale? x e).map (.real negative)

/-! ## Reading -/

/-- The value of a decimal digit. -/
def digitValue (c : Char) : Nat := c.toNat - '0'.toNat

/-- The bound below which the numbers of 64 bits lie. -/
def wordBound : Nat := Nat.pow 2 64

/-- Adds digits at the end of a significand as long as it fits 64 bits. The answer is the
significand and the number of digits that were left over. -/
def gather (significand : Nat) : Text → Nat × Nat
  | [] => (significand, 0)
  | c :: cs =>
    let next := significand * 10 + digitValue c
    if next < wordBound then gather next cs else (significand, (c :: cs).length)

/-- A sign and digits, as they stand behind the `e` of an exponent. -/
def readExponent? (s : Text) : Option Int :=
  let (negative, digits) := match s with
    | '-' :: digits => (true, digits)
    | '+' :: digits => (false, digits)
    | digits => (false, digits)
  if digits.isEmpty || !digits.all Char.isDigit then none
  else
    let e : Int := (digits.foldl (fun n c => n * 10 + digitValue c) 0 : Nat)
    some (if negative then -e else e)

/-- The greatest exponent that is looked at; past it a number is too great or zero. -/
def maxExponent : Nat := Nat.pow 2 31 - 1

/-- The number of a sign, whole digits, digits behind a point if there is one, and an exponent if
there is one. -/
def ofParts? (negative : Bool) (whole : Text) (fraction : Option Text) (e : Option Int) :
    Option Number :=
  let (significand, left) := gather 0 whole
  match fraction, e with
  | none, none =>
    if left = 0 then
      if !negative then some (.integer significand)
      else if 0 < significand ∧ significand ≤ wordBound / 2 then some (.integer (-significand))
      else ofScientific? true significand 0
    else ofScientific? negative significand left
  | _, _ =>
    let digits := fraction.getD []
    let (significand, leftBehind) := gather significand digits
    let shift : Int := (left : Int) - ((digits.length : Int) - leftBehind)
    let e := e.getD 0
    if maxExponent < e.natAbs then
      if significand ≠ 0 ∧ 0 < e then none else some (.real negative ⟨0, 0⟩)
    else ofScientific? negative significand (shift + e)

/-- Reads a number: an optional minus, digits that do not start with a zero unless it is alone, an
optional point with digits, an optional exponent. -/
def read? (s : Text) : Option Number :=
  let (negative, s) := match s with
    | '-' :: s => (true, s)
    | s => (false, s)
  let whole := s.takeWhile Char.isDigit
  let s := s.dropWhile Char.isDigit
  let (fraction, s) := match s with
    | '.' :: s => (some (s.takeWhile Char.isDigit), s.dropWhile Char.isDigit)
    | s => (none, s)
  if whole.isEmpty || (whole.head? == some '0' && 1 < whole.length) || fraction == some [] then none
  else
    match s with
    | [] => ofParts? negative whole fraction none
    | c :: s =>
      if c == 'e' || c == 'E' then
        (readExponent? s).bind fun e => ofParts? negative whole fraction (some e)
      else none

end Json.Number

end Mustache
