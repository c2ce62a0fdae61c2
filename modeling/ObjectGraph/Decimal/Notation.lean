import ObjectGraph.Decimal.Shortest

/-!
# The notation of floating point numbers

Numbers of medium size are written with a point, very large and very small ones with an exponent.
Where the line is drawn, which of two equally near decimals is written, and how numbers that are not
finite are written, is a matter of style.
-/

namespace ObjectGraph.Decimal

/-- What one notation decides: the places of the point, counted from the first digit, that need no
exponent, which of two equally near decimals is written, and whether an exponent that is not
negative has a sign. -/
structure Style where
  leastPoint : Int
  greatestPoint : Int
  tie : Tie
  plusSign : Bool
  nan : String
  infinity : String
  negativeInfinity : String

def fractionRange : Nat := Nat.pow 2 52

/-- The number of exponents. The greatest one marks numbers that are not finite. -/
def exponentRange : Nat := Nat.pow 2 11

/-- Splits the bits of a floating point number that is finite and not zero. -/
def binaryOf (bits : Nat) : Binary :=
  let exponent : Nat := bits / fractionRange % exponentRange
  let fraction : Nat := bits % fractionRange
  if exponent = 0 then
    ⟨fraction, -1074, false⟩
  else
    ⟨fraction + fractionRange, (exponent : Int) - 1075, fraction == 0 && 1 < exponent⟩

def zeros (count : Int) : List Char :=
  List.replicate count.toNat '0'

def positional (number : Digits) : List Char :=
  if number.point ≤ 0 then
    ['0', '.'] ++ zeros (-number.point) ++ number.digits
  else
    let whole := number.digits.take number.point.toNat
    let fraction := number.digits.drop number.point.toNat
    whole ++ zeros (number.point - number.digits.length) ++ ['.'] ++
      (if fraction.isEmpty then ['0'] else fraction)

def exponential (plusSign : Bool) (number : Digits) : List Char :=
  let fraction := number.digits.drop 1
  let exponent := number.point - 1
  number.digits.take 1 ++ (if fraction.isEmpty then [] else '.' :: fraction) ++
    ['e'] ++ (if plusSign && 0 ≤ exponent then ['+'] else []) ++ (toString exponent).toList

def Style.text (style : Style) (number : Float) : String :=
  let bits := number.toBits.toNat
  let negative := fractionRange * exponentRange ≤ bits
  let magnitude := bits % (fractionRange * exponentRange)
  if number.isNaN then
    style.nan
  else if magnitude / fractionRange = exponentRange - 1 then
    if negative then style.negativeInfinity else style.infinity
  else
    let digits :=
      if magnitude = 0 then
        ['0', '.', '0']
      else
        let shortest := (binaryOf magnitude).shortest style.tie
        if style.leastPoint ≤ shortest.point && shortest.point ≤ style.greatestPoint then
          positional shortest
        else
          exponential style.plusSign shortest
    String.ofList (if negative then '-' :: digits else digits)

end ObjectGraph.Decimal
