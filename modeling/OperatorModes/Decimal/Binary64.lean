/-!
# Double-precision numbers

A finite binary floating-point number of 64 bits, held as its bits, with its exact value as an
integer times a power of two. `ofRatio` rounds a quotient of naturals to the nearest such number, a
tie to the even significand; product and quotient are the rounded exact ones. All of it is integer
arithmetic, so every value can be computed in a proof.
-/

namespace OperatorModes.Decimal

/-- A floating-point number by its bits: sign, eleven bits of exponent, 52 bits of fraction. -/
structure Binary64 where
  bits : UInt64
  deriving DecidableEq, Repr

/-- A quotient rounded to the nearest integer, a tie to the even one. -/
def roundDiv (num den : Nat) : Nat :=
  let q := num / den
  let r := num % den
  if den < 2 * r then q + 1
  else if 2 * r = den then q + q % 2
  else q

namespace Binary64

/-- The bit pattern where infinity begins. -/
def infinityBits : Nat := 0x7FF0000000000000

/-- The leading bit of a significand of 53 bits, which the fraction leaves out. -/
def hiddenBit : Nat := 0x10000000000000

/-- The number zero. -/
def zero : Binary64 := ⟨0⟩

/-- Whether the sign bit is set, which it also is in negative zero. -/
def isNegative (x : Binary64) : Bool :=
  0x8000000000000000 ≤ x.bits.toNat

/-- The bits without the sign. -/
def magnitudeBits (x : Binary64) : Nat :=
  x.bits.toNat % 0x8000000000000000

/-- The absolute value is `significand * 2 ^ exponent`. -/
def significand (x : Binary64) : Nat :=
  let field := x.magnitudeBits / hiddenBit
  let fraction := x.magnitudeBits % hiddenBit
  if field = 0 then fraction else fraction + hiddenBit

/-- The power of two that goes with `significand`; the least is -1074. -/
def exponent (x : Binary64) : Int :=
  let field := x.magnitudeBits / hiddenBit
  if field = 0 then -1074 else Int.ofNat field - 1075

/-- Whether the number is zero, of either sign. -/
def isZero (x : Binary64) : Bool :=
  x.magnitudeBits == 0

/-- The number with its sign turned. -/
def neg (x : Binary64) : Binary64 :=
  if x.isNegative then ⟨.ofNat x.magnitudeBits⟩
  else ⟨.ofNat (x.magnitudeBits + 0x8000000000000000)⟩

/-- The exponent of the last place kept when `num / den` is rounded to 53 bits, if it is not below
the range. -/
def lastPlace (num den : Nat) : Int :=
  let guess : Int := (num.log2 : Int) - den.log2 - 52
  let tooBig : Bool :=
    if 0 ≤ guess then hiddenBit * (den <<< guess.toNat) ≤ num
    else hiddenBit * den ≤ num <<< (-guess).toNat
  max (-1074) (if tooBig then guess else guess - 1)

/-- The quotient `num / den` rounded to the nearest number, a tie to the even significand; nothing
when that would be infinite. -/
def ofRatio (num den : Nat) : Option Binary64 :=
  if num = 0 then some zero
  else
    let place := lastPlace num den
    let scaled :=
      if 0 ≤ place then roundDiv num (den <<< place.toNat)
      else roundDiv (num <<< (-place).toNat) den
    let bits := (place + 1074).toNat * hiddenBit + scaled
    if bits < infinityBits then some ⟨.ofNat bits⟩ else none

/-- Numerator and denominator of the absolute value. -/
def toRatio (x : Binary64) : Nat × Nat :=
  if 0 ≤ x.exponent then (x.significand <<< x.exponent.toNat, 1)
  else (x.significand, 1 <<< (-x.exponent).toNat)

/-- The product of absolute values, rounded; nothing when it is infinite. -/
def mul (x y : Binary64) : Option Binary64 :=
  ofRatio (x.toRatio.1 * y.toRatio.1) (x.toRatio.2 * y.toRatio.2)

/-- The quotient of absolute values, rounded; nothing when it is infinite. -/
def div (x y : Binary64) : Option Binary64 :=
  ofRatio (x.toRatio.1 * y.toRatio.2) (x.toRatio.2 * y.toRatio.1)

/-- A power of ten, rounded. Nothing above `10 ^ 308`. -/
def powerOfTen (k : Nat) : Option Binary64 :=
  ofRatio (Nat.pow 10 k) 1

/-- The places that one division can take away at most. -/
def longestStep : Nat := 308

/-- Divides by the longest power of ten so many times, rounding after each division and stopping at
zero, and then once by `10 ^ last`. -/
def shrink (x : Binary64) (last : Nat) : Nat → Option Binary64
  | 0 => (powerOfTen last).bind x.div
  | steps + 1 =>
    if x.isZero then some x
    else
      match (powerOfTen longestStep).bind x.div with
      | some y => y.shrink last steps
      | none => none

/-- The number written as a significand and a power of ten. The significand and the power are each
rounded first and their product or quotient is rounded again, so the last place may differ from the
nearest number. Nothing when the result is out of range. -/
def scaled (significand : Nat) (exponent : Int) : Option Binary64 := do
  let x ← ofRatio significand 1
  if exponent < 0 then
    let places := (-exponent).toNat
    let steps := (places - 1) / longestStep
    x.shrink (places - steps * longestStep) steps
  else if exponent ≤ longestStep then x.mul (← powerOfTen exponent.toNat)
  else if x.isZero then some x
  else none

end Binary64

end OperatorModes.Decimal
