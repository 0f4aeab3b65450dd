import CompileWatch.Decimal.Binary

/-!
# The shortest decimal of a double

Of the decimals that read back as a given number, the one with the fewest
digits, and of those the nearest. Each length is settled by the two neighbours
of the number on the grid of decimals of that length, compared exactly.
-/

namespace CompileWatch.Decimal

/-- The decimal `digits * 10 ^ power`. -/
structure Digits where
  digits : Nat
  power : Int
deriving DecidableEq, Repr

namespace Binary64

/-- The reals that read as a number, in quarters of its unit: both ends, and the number itself in
between. Below a power of two the numbers lie twice as dense. -/
structure Neighbourhood where
  low : Nat
  value : Nat
  high : Nat
  /-- The ends themselves read as the number when its mantissa is even. -/
  closed : Bool

def neighbourhood (x : Binary64) : Neighbourhood where
  low := if x.mantissa = twoTo 52 && leastExponent < x.exponent then 4 * x.mantissa - 1
    else 4 * x.mantissa - 2
  value := 4 * x.mantissa
  high := 4 * x.mantissa + 2
  closed := x.mantissa % 2 = 0

/-- Factors that turn quarters of the unit of `x`, and multiples of `10 ^ power`, into whole
multiples of one common unit. -/
def commonScale (x : Binary64) (power : Int) : Nat × Nat :=
  (twoTo (x.exponent - 2) * tenTo (-power), tenTo power * twoTo (2 - x.exponent))

/-- The best decimal `c * 10 ^ power` that reads as `x`, if there is one. -/
def onGrid? (x : Binary64) (power : Int) : Option Digits :=
  let n := x.neighbourhood
  let (quarter, step) := x.commonScale power
  let value := n.value * quarter
  let reads (c : Nat) : Bool :=
    if n.closed then n.low * quarter ≤ c * step && c * step ≤ n.high * quarter
    else n.low * quarter < c * step && c * step < n.high * quarter
  let below := value / step
  let above := below + 1
  match reads below, reads above with
  | false, false => none
  | true, false => some ⟨below, power⟩
  | false, true => some ⟨above, power⟩
  | true, true =>
    let down := value - below * step
    let up := above * step - value
    if down < up || (down = up && below % 2 = 0) then some ⟨below, power⟩ else some ⟨above, power⟩

/-- Whether a positive `x` is at least `10 ^ power`. -/
def reaches (x : Binary64) (power : Int) : Bool :=
  let (quarter, step) := x.commonScale power
  step ≤ x.neighbourhood.value * quarter

/-- The power of ten of the leading digit of a positive number. -/
def leadingPower (x : Binary64) : Int :=
  let estimate := ((x.mantissa.log2 : Int) + x.exponent) * 30103 / 100000
  if x.reaches (estimate + 1) then estimate + 1
  else if x.reaches estimate then estimate
  else estimate - 1

/-- Ten units are written as one unit of the next power. Only on the coarsest grid can the
neighbour above be ten. -/
def carry (d : Digits) : Digits := if d.digits = 10 then ⟨1, d.power + 1⟩ else d

/-- The fewest digits that read back as `x`, and the nearest such. Seventeen always suffice. -/
def shortest (x : Binary64) : Digits :=
  if x.mantissa = 0 then ⟨0, 0⟩
  else
    let found := (List.range 17).findSome? fun (more : Nat) => x.onGrid? (x.leadingPower - more)
    carry (found.getD ⟨0, 0⟩)

end Binary64

/-- How the text of a number is laid out. -/
structure Layout where
  /-- The least power of the leading digit that is written without an exponent. -/
  leastPositional : Int
  /-- The greatest power of the leading digit that is written without an exponent. -/
  greatestPositional : Int
  /-- What stands before an exponent that is not negative. -/
  exponentSign : String

/-- Numbers from 10^-5 to below 10^16 are written out, with a digit on both sides of the point;
others have an exponent with its sign. -/
def plainLayout : Layout := ⟨-5, 15, "+"⟩

private def zeros (n : Nat) : List Char := List.replicate n '0'

/-- The text of a number. -/
def Binary64.render (layout : Layout) (x : Binary64) : String :=
  let d := x.shortest
  let digits := Nat.toDigits 10 d.digits
  let leading : Int := d.power + (digits.length : Int) - 1
  let body :=
    if d.digits = 0 then ['0', '.', '0']
    else if layout.leastPositional ≤ leading && leading ≤ layout.greatestPositional then
      if 0 ≤ d.power then digits ++ zeros d.power.toNat ++ ['.', '0']
      else if 0 ≤ leading then
        digits.take (leading + 1).toNat ++ ['.'] ++ digits.drop (leading + 1).toNat
      else ['0', '.'] ++ zeros (-leading - 1).toNat ++ digits
    else
      let mantissa := match digits with
        | first :: rest@(_ :: _) => first :: '.' :: rest
        | one => one
      let exponent :=
        if 0 ≤ leading then layout.exponentSign.toList ++ Nat.toDigits 10 leading.toNat
        else '-' :: Nat.toDigits 10 (-leading).toNat
      mantissa ++ ['e'] ++ exponent
  String.ofList (if x.negative then '-' :: body else body)

end CompileWatch.Decimal
