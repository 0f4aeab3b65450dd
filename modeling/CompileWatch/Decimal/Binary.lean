/-!
# Double precision numbers

A finite number of the binary64 format is a sign, a whole mantissa below 2^53
and a power of two. A decimal is read to the nearest such number; a tie goes to
the even mantissa.
-/

namespace CompileWatch.Decimal

/-- Two to a power; a negative power counts as none. -/
def twoTo (power : Int) : Nat := Nat.pow 2 power.toNat

/-- Ten to a power; a negative power counts as none. -/
def tenTo (power : Int) : Nat := Nat.pow 10 power.toNat

/-- The finite number of value `± mantissa * 2 ^ exponent`. -/
structure Binary64 where
  negative : Bool
  mantissa : Nat
  exponent : Int
deriving DecidableEq, Repr

namespace Binary64

/-- The power of two of the subnormal numbers, which no number goes below. -/
def leastExponent : Int := -1074

/-- The power of two of the largest numbers. -/
def greatestExponent : Int := 971

/-- The quotient rounded to the nearest whole number, a tie to the even one. -/
def divideToEven (num den : Nat) : Nat :=
  let q := num / den
  let r := num % den
  if 2 * r < den then q
  else if den < 2 * r then q + 1
  else if q % 2 = 0 then q else q + 1

/-- The floor of the binary logarithm of a positive quotient. -/
def log2Quotient (num den : Nat) : Int :=
  let estimate : Int := (num.log2 : Int) - (den.log2 : Int)
  if den * twoTo estimate ≤ num * twoTo (-estimate) then estimate else estimate - 1

/-- The number nearest to a quotient, or nothing when it is beyond the largest one. -/
def ofQuotient? (negative : Bool) (num den : Nat) : Option Binary64 :=
  if num = 0 then some ⟨negative, 0, leastExponent⟩
  else
    let exponent := max leastExponent (log2Quotient num den - 52)
    let mantissa := divideToEven (num * twoTo (-exponent)) (den * twoTo exponent)
    let rounded : Binary64 :=
      if mantissa = twoTo 53 then ⟨negative, twoTo 52, exponent + 1⟩
      else ⟨negative, mantissa, exponent⟩
    if rounded.exponent ≤ greatestExponent then some rounded else none

/-- The number nearest to `± digits * 10 ^ power`, or nothing when it is beyond the largest one.
Powers that are out of reach of any digits are settled without computing them. -/
def ofDecimal? (negative : Bool) (digits : Nat) (power : Int) : Option Binary64 :=
  let size : Int := (Nat.toDigits 10 digits).length
  if digits = 0 || size + power < -330 then some ⟨negative, 0, leastExponent⟩
  else if 310 < size + power then none
  else ofQuotient? negative (digits * tenTo power) (tenTo (-power))

/-! ## Arithmetic

A result is the exact one, rounded to the nearest number. -/

/-- The distance from zero is `numerator / denominator`. -/
def numerator (x : Binary64) : Nat := x.mantissa * twoTo x.exponent

def denominator (x : Binary64) : Nat := twoTo (-x.exponent)

/-- A product, or nothing when it is beyond the largest number. -/
def mul? (x y : Binary64) : Option Binary64 :=
  ofQuotient? (x.negative != y.negative) (x.numerator * y.numerator)
    (x.denominator * y.denominator)

/-- A quotient, or nothing when it is beyond the largest number. What divides is not zero. -/
def div? (x y : Binary64) : Option Binary64 :=
  ofQuotient? (x.negative != y.negative) (x.numerator * y.denominator)
    (x.denominator * y.numerator)

end Binary64

end CompileWatch.Decimal
