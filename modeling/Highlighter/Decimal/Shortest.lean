/-! # Shortest decimals of binary fractions

A finite double stands for every real number that rounds to it.  Of the decimals among these
the one with the fewest digits is chosen, and of several such the one nearest to the double
itself.  Everything is decided by exact arithmetic on natural numbers. -/

set_option autoImplicit false

namespace Highlighter.Decimal

/-- The number `significand * 2 ^ exponent`. -/
structure Binary where
  significand : Nat
  exponent : Int
deriving DecidableEq, Repr

/-- The number `digits * 10 ^ exponent`. -/
structure Denary where
  digits : Nat
  exponent : Int
deriving DecidableEq, Repr

def leastNormal : Nat := 1 <<< 52

/-- The sign bit and the magnitude of a finite double, from the 64 bits that represent it. -/
def Binary.ofBits (bits : UInt64) : Bool × Binary :=
  let negative := (bits.toNat >>> 63) = 1
  let biased : Nat := (bits.toNat >>> 52) % 2048
  let fraction : Nat := bits.toNat % leastNormal
  if biased = 0 then (negative, ⟨fraction, -1074⟩)
  else (negative, ⟨leastNormal + fraction, (biased : Int) - 1075⟩)

/-- A fraction of natural numbers; the denominator is never zero. -/
structure Ratio where
  numerator : Nat
  denominator : Nat

namespace Ratio

def scaled (count base : Nat) (exponent : Int) : Ratio :=
  match exponent with
  | .ofNat power => ⟨count * base.pow power, 1⟩
  | .negSucc power => ⟨count, base.pow (power + 1)⟩

def le (x y : Ratio) : Bool :=
  x.numerator * y.denominator ≤ y.numerator * x.denominator

def lt (x y : Ratio) : Bool := !y.le x

def distance (x y : Ratio) : Ratio :=
  let left := x.numerator * y.denominator
  let right := y.numerator * x.denominator
  ⟨(left - right) + (right - left), x.denominator * y.denominator⟩

def digitCount (value : Nat) : Nat := (Nat.toDigits 10 value).length

/-- The exponent `e` with `10 ^ e ≤ x < 10 ^ (e + 1)`, for a fraction `x` above zero. -/
def magnitude (x : Ratio) : Int :=
  if x.denominator ≤ x.numerator then (digitCount (x.numerator / x.denominator) : Int) - 1
  else -(digitCount ((x.denominator - 1) / x.numerator) : Int)

def quotient (x : Ratio) (exponent : Int) : Nat :=
  match exponent with
  | .ofNat power => x.numerator / (x.denominator * Nat.pow 10 power)
  | .negSucc power => x.numerator * Nat.pow 10 (power + 1) / x.denominator

end Ratio

/-- The reals that round to a double: from `low` to `high`, the two ends included if `closed`. -/
structure Interval where
  low : Ratio
  high : Ratio
  closed : Bool

namespace Interval

/-- The ends lie halfway to the two neighbouring doubles.  Below a power of two the neighbour is
only half as far away, except at the smallest exponent.  Ties round to an even significand, so
an even one owns the ends. -/
def ofBinary (value : Binary) : Interval :=
  let below := if value.significand = leastNormal ∧ -1074 < value.exponent then 1 else 2
  ⟨.scaled (4 * value.significand - below) 2 (value.exponent - 2),
    .scaled (4 * value.significand + 2) 2 (value.exponent - 2),
    value.significand % 2 = 0⟩

def contains (interval : Interval) (x : Ratio) : Bool :=
  if interval.closed then interval.low.le x && x.le interval.high
  else interval.low.lt x && x.lt interval.high

end Interval

/-- Of the two neighbours of `value` among the multiples of `10 ^ exponent`, the nearer one that
lies in the interval; of two equally near ones the even multiple. -/
def onGrid? (value : Ratio) (interval : Interval) (exponent : Int) : Option Denary :=
  let below := value.quotient exponent
  let ratio := fun count => Ratio.scaled count 10 exponent
  let down := interval.contains (ratio below)
  let up := interval.contains (ratio (below + 1))
  let downGap := value.distance (ratio below)
  let upGap := value.distance (ratio (below + 1))
  if down && (!up || downGap.lt upGap || (downGap.le upGap && below % 2 = 0)) then
    some ⟨below, exponent⟩
  else if up then some ⟨below + 1, exponent⟩
  else none

/-- The same number without trailing zeros; `fuel` bounds their number. -/
def Denary.strip (fuel : Nat) (decimal : Denary) : Denary :=
  match fuel with
  | 0 => decimal
  | fuel + 1 =>
    if decimal.digits ≠ 0 ∧ decimal.digits % 10 = 0 then
      Denary.strip fuel ⟨decimal.digits / 10, decimal.exponent + 1⟩
    else decimal

/-- The shortest decimal that rounds to a number above zero.  Seventeen digits always suffice. -/
def shortest (value : Binary) : Denary :=
  let ratio := Ratio.scaled value.significand 2 value.exponent
  let interval := Interval.ofBinary value
  let top := ratio.magnitude
  match (List.range 17).findSome? fun (more : Nat) => onGrid? ratio interval (top - (more : Int)) with
  | some decimal => decimal.strip 17
  | none => ⟨0, 0⟩

end Highlighter.Decimal
