import CompileWatch.Decimal.Binary

/-!
# Decimals scaled step by step

A decimal becomes a number in double arithmetic alone: its digits, cut off
where they outgrow 64 bits, are rounded to a number, and that is multiplied or
divided by a power of ten, which rounds again. The result lies near the decimal
but need not be the number nearest to it.
-/

namespace CompileWatch.Decimal

/-- Whole numbers below this limit fit 64 bits. -/
def wordLimit : Nat := 0x10000000000000000

def digitValue (c : Char) : Nat := c.toNat - '0'.toNat

/-- Appends digits to a number as long as it fits 64 bits. The digits that are left come second. -/
def appendDigits (n : Nat) : List Char → Nat × List Char
  | [] => (n, [])
  | c :: rest =>
    let longer := 10 * n + digitValue c
    if longer < wordLimit then appendDigits longer rest else (n, c :: rest)

namespace Binary64

/-- The greatest power of ten that is not beyond the largest number. -/
def greatestTenth : Nat := 308

/-- The number nearest to a power of ten, or nothing when that is beyond the largest number. -/
def powerOfTen? (power : Nat) : Option Binary64 := ofDecimal? false 1 power

/-- The powers of ten that are divided out in turn for one large power. Three are enough, as the
second already leaves nothing of a number of 64 bits. -/
def tenthParts (power : Nat) : List Nat :=
  [0, greatestTenth, 2 * greatestTenth].map fun done => min (power - done) greatestTenth

/-- A number of 64 bits times `10 ^ power`, or nothing when that is beyond the largest number. -/
def scale? (x : Binary64) (power : Int) : Option Binary64 :=
  if x.mantissa = 0 then some x
  else if 0 ≤ power then (powerOfTen? power.toNat).bind x.mul?
  else (tenthParts (-power).toNat).foldlM (fun y part => (powerOfTen? part).bind y.div?) x

/-- A number near `± whole.fraction * 10 ^ exponent`, or nothing when that is beyond the largest
one. A digit cut off the whole part still makes the number ten times as large; what is cut off the
fraction is passed over. -/
def ofDigits? (negative : Bool) (whole fraction : List Char) (exponent : Int) : Option Binary64 :=
  let (leading, cut) := appendDigits 0 whole
  let (significand, ignored) := appendDigits leading fraction
  let power := exponent + cut.length - (fraction.length - ignored.length : Nat)
  (ofQuotient? negative significand 1).bind (·.scale? power)

end Binary64

end CompileWatch.Decimal
