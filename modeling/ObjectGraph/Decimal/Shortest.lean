/-!
# Shortest decimals

A finite binary number stands for all real numbers that round to it. Among the decimals in that
interval, the shortest are those with the fewest digits, and of these the one nearest to the number
is taken. When two of them are equally near, the choice is a parameter. Everything is computed with
natural numbers.
-/

namespace ObjectGraph.Decimal

/-- A positive binary number: `mantissa` times two to the power `exponent`. The gap below it is half
as wide as the gap above it when `narrowBelow` holds. -/
structure Binary where
  mantissa : Nat
  exponent : Int
  narrowBelow : Bool
  deriving DecidableEq, Repr

/-- A decimal: the digits behind a point, times ten to the power `point`. -/
structure Digits where
  digits : List Char
  point : Int
  deriving DecidableEq, Repr

/-- The reals that round to a binary number, as fractions over one denominator. The ends belong to
the interval when `closed` holds. -/
structure Interval where
  low : Nat
  middle : Nat
  high : Nat
  denominator : Nat
  closed : Bool
  deriving DecidableEq, Repr

def power (base : Nat) (exponent : Int) : Nat :=
  base.pow exponent.toNat

/-- The interval of a binary number: half of the gap below it and half of the gap above it. A tie
rounds to the even mantissa. -/
def Binary.interval (number : Binary) : Interval :=
  let quarter := number.exponent - 2
  let up := power 2 quarter
  { low := (4 * number.mantissa - if number.narrowBelow then 1 else 2) * up
    middle := 4 * number.mantissa * up
    high := (4 * number.mantissa + 2) * up
    denominator := power 2 (-quarter)
    closed := number.mantissa % 2 == 0 }

def Interval.inUnits (interval : Interval) (place : Int) : Interval :=
  let up := power 10 (-place)
  { low := interval.low * up
    middle := interval.middle * up
    high := interval.high * up
    denominator := interval.denominator * power 10 place
    closed := interval.closed }

def Interval.holds (interval : Interval) (point : Nat) : Bool :=
  let scaled := point * interval.denominator
  if interval.closed then
    interval.low ≤ scaled && scaled ≤ interval.high
  else
    interval.low < scaled && scaled < interval.high

/-- Which of two equally near whole numbers is taken. -/
inductive Tie where
  | toEven
  | upward
  deriving DecidableEq, Repr

def Tie.choose (tie : Tie) (below : Nat) : Nat :=
  match tie with
  | toEven => if below % 2 == 0 then below else below + 1
  | upward => below + 1

/-- The whole number of the interval that is nearest to its middle, of the two next to the
middle. -/
def Interval.nearest? (interval : Interval) (tie : Tie) : Option Nat :=
  let below := interval.middle / interval.denominator
  let above := below + 1
  match interval.holds below, interval.holds above with
  | false, false => none
  | true, false => some below
  | false, true => some above
  | true, true =>
      let twice := 2 * interval.middle
      let halfway := (2 * below + 1) * interval.denominator
      if twice < halfway then some below
      else if halfway < twice then some above
      else some (tie.choose below)

def digitCount (number : Nat) : Nat :=
  (Nat.toDigits 10 number).length

def Interval.point (interval : Interval) : Int :=
  if interval.denominator ≤ interval.middle then
    digitCount (interval.middle / interval.denominator)
  else
    let reciprocal := (interval.denominator + interval.middle - 1) / interval.middle
    1 - (digitCount (reciprocal - 1) : Int)

def digitsOf (number : Nat) (place : Int) : Digits :=
  let digits := Nat.toDigits 10 number
  { digits := (digits.reverse.dropWhile (· == '0')).reverse
    point := digits.length + place }

/-- Seventeen digits are always enough for a number of 53 bits. -/
def maxDigits : Nat := 17

def Binary.shortest (number : Binary) (tie : Tie) : Digits :=
  let interval := number.interval
  let point := interval.point
  let attempt (count : Nat) : Option Digits :=
    let place := point - count
    ((interval.inUnits place).nearest? tie).map (digitsOf · place)
  (((List.range maxDigits).map (· + 1)).findSome? attempt).getD ⟨['0'], 0⟩

end ObjectGraph.Decimal
