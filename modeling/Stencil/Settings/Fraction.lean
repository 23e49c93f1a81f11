import Stencil.Text

/-! Numbers in binary with 53 digits, read and written to the nearest. -/

namespace Stencil.Settings

inductive Fraction where
  -- The mantissa times a power of two, with the sign.
  | finite (negative : Bool) (mantissa : Nat) (exponent : Int)
  | infinite (negative : Bool)
  | undefined
  deriving DecidableEq, Repr

namespace Fraction

def zero (negative : Bool) : Fraction := .finite negative 0 0

def leastExponent : Int := -1074

def greatestExponent : Int := 971

def roundQuotient (numerator denominator : Nat) : Nat :=
  let below := numerator / denominator
  let rest := 2 * (numerator % denominator)
  if rest < denominator ∨ (rest = denominator ∧ below % 2 = 0) then below else below + 1

def inUnits (numerator denominator : Nat) (exponent : Int) : Nat :=
  roundQuotient (numerator * Nat.pow 2 (-exponent).toNat) (denominator * Nat.pow 2 exponent.toNat)

def ofQuotient (negative : Bool) (numerator denominator : Nat) : Fraction :=
  let low : Int := numerator.log2 - denominator.log2 - 53
  let low := max low leastExponent
  let exponent := if inUnits numerator denominator low < Nat.pow 2 53 then low else low + 1
  let mantissa := inUnits numerator denominator exponent
  if mantissa = 0 then zero negative
  else
    -- Rounding up may carry over.
    let (mantissa, exponent) :=
      if mantissa = Nat.pow 2 53 then (Nat.pow 2 52, exponent + 1) else (mantissa, exponent)
    if greatestExponent < exponent then .infinite negative else .finite negative mantissa exponent

def ofDecimal (negative : Bool) (digits : Nat) (exponent : Int) : Fraction :=
  let size := exponent + (Nat.toDigits 10 digits).length
  if digits = 0 ∨ size < -400 then zero negative
  else if 400 < size then .infinite negative
  else ofQuotient negative (digits * Nat.pow 10 exponent.toNat) (Nat.pow 10 (-exponent).toNat)

def isZero : Fraction → Bool
  | .finite _ mantissa _ => mantissa == 0
  | _ => false

def magnitude (numerator denominator : Nat) : Int :=
  if denominator ≤ numerator then (Nat.toDigits 10 (numerator / denominator)).length
  else
    match (List.range 400).find? fun n => denominator ≤ numerator * Nat.pow 10 (n + 1) with
    | some zeros => -zeros
    | none => -400

def decimal? (x : Fraction) (numerator denominator : Nat) (exponent : Int) : Option Nat :=
  let numerator := numerator * Nat.pow 10 (-exponent).toNat
  let denominator := denominator * Nat.pow 10 exponent.toNat
  let below := numerator / denominator
  let nearest := if 2 * (numerator % denominator) < denominator then [below, below + 1]
    else [below + 1, below]
  nearest.find? fun digits => ofDecimal false digits exponent = x

def shortest (mantissa : Nat) (exponent : Int) : Nat × Int :=
  let x := .finite false mantissa exponent
  let numerator := mantissa * Nat.pow 2 exponent.toNat
  let denominator := Nat.pow 2 (-exponent).toNat
  let size := magnitude numerator denominator
  let found := (List.range 17).findSome? fun count =>
    let unit := size - ((count : Nat) + 1 : Int)
    (decimal? x numerator denominator unit).map fun digits =>
      if digits = Nat.pow 10 (count + 1) then (1, size) else (digits, unit)
  found.getD (0, 0)

def positional (digits : Text) (exponent : Int) : Text :=
  let point : Int := digits.length + exponent
  if 0 ≤ exponent then digits ++ List.replicate exponent.toNat '0'
  else if 0 < point then digits.take point.toNat ++ '.' :: digits.drop point.toNat
  else "0.".toList ++ List.replicate (-point).toNat '0' ++ digits

def toText : Fraction → Text
  | .undefined => "NaN".toList
  | .infinite negative => (if negative then "-inf" else "inf").toList
  | .finite negative mantissa exponent =>
    let sign := if negative then ['-'] else []
    if mantissa = 0 then sign ++ ['0']
    else
      let (digits, unit) := shortest mantissa exponent
      sign ++ positional (Nat.toDigits 10 digits) unit

end Fraction

end Stencil.Settings
