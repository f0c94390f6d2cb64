import Mustache.Decimal.Binary

/-!
# Reading decimals

A decimal text becomes the nearest number of a binary format.
-/

namespace Mustache

/-- What a binary format can hold. -/
inductive RealValue where
  | finite (negative : Bool) (magnitude : Dyadic)
  | infinite (negative : Bool)
  | notANumber
deriving DecidableEq, Repr

namespace RealValue

/-- The power of ten from which on, and down to which, a number in `0.1 … 1` times that power is
certainly out of the range of the formats in use. -/
def farExponent : Int := 400

/-- The nearest number of a format to `coefficient * 10 ^ exponent`, for a coefficient of so many
digits. -/
def ofScientific (f : BinaryFormat) (negative : Bool) (coefficient digits : Nat) (exponent : Int) :
    RealValue :=
  if coefficient = 0 then .finite negative ⟨0, f.minExponent⟩
  else if farExponent < exponent + digits then .infinite negative
  else if exponent + digits < -farExponent then .finite negative ⟨0, f.minExponent⟩
  else
    match f.round? (⟨coefficient, 1⟩ * Fraction.pow 10 exponent) with
    | some x => .finite negative x
    | none => .infinite negative

/-- The value of digits. -/
def digitsValue (digits : List Char) : Nat :=
  digits.foldl (fun n c => n * 10 + (c.toNat - '0'.toNat)) 0

/-- The exponent behind a number: nothing, or an `e` with an optional sign and digits. -/
def readExponent? : List Char → Option Int
  | [] => some 0
  | c :: s =>
    let (negative, digits) := match s with
      | '-' :: digits => (true, digits)
      | '+' :: digits => (false, digits)
      | digits => (false, digits)
    if (c == 'e' || c == 'E') && !digits.isEmpty && digits.all Char.isDigit then
      let e : Int := (digitsValue digits : Nat)
      some (if negative then -e else e)
    else none

/-- Reads a number without its sign: digits with an optional point among them and an optional
exponent, or a word. -/
def readMagnitude? (f : BinaryFormat) (negative : Bool) (s : List Char) : Option RealValue :=
  let word := s.map Char.toLower
  if word = "inf".toList ∨ word = "infinity".toList then some (.infinite negative)
  else if word = "nan".toList then some .notANumber
  else
    let whole := s.takeWhile Char.isDigit
    let (fraction, rest) := match s.dropWhile Char.isDigit with
      | '.' :: s => (s.takeWhile Char.isDigit, s.dropWhile Char.isDigit)
      | s => ([], s)
    let digits := whole ++ fraction
    if digits.isEmpty then none
    else
      let significant := digits.dropWhile (· == '0')
      (readExponent? rest).map fun e =>
        ofScientific f negative (digitsValue digits) significant.length (e - fraction.length)

/-- Reads a number. -/
def read? (f : BinaryFormat) : List Char → Option RealValue
  | '-' :: s => readMagnitude? f true s
  | '+' :: s => readMagnitude? f false s
  | s => readMagnitude? f false s

end RealValue

end Mustache
