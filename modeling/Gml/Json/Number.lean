import Gml.Numeral

/-!
# Numbers in floating point

A number is kept as a significand of 64 bits and a power of ten. Digits that do not fit
are dropped, and before the point each of them is a factor of ten. Significand and power
are rounded to 53 bits each before they are multiplied, and the product has to be in the
range of 64-bit floating point.
-/
namespace Gml.Json

/-- The significand that some digits before the point add up to behind others, and the
number of digits that do not fit. -/
def takeWhole : Nat → List Char → Nat × Nat
  | n, [] => (n, 0)
  | n, c :: rest =>
      let more := n * 10 + (c.toNat - '0'.toNat)
      if more < Numeral.limit64 then takeWhole more rest else (n, rest.length + 1)

/-- The significand that some digits behind the point add up to behind others, and the
number of digits that fit. -/
def takePlaces : Nat → List Char → Nat × Nat
  | n, [] => (n, 0)
  | n, c :: rest =>
      let more := n * 10 + (c.toNat - '0'.toNat)
      if more < Numeral.limit64 then
        let (n, count) := takePlaces more rest
        (n, count + 1)
      else (n, 0)

/-- The significand and the exponent of a number without a sign. -/
def scaled (cs : List Char) : Nat × Int :=
  let mantissa := cs.takeWhile fun c => c != 'e' && c != 'E'
  let tail := cs.dropWhile fun c => c != 'e' && c != 'E'
  let (whole, dropped) := takeWhole 0 (mantissa.takeWhile Char.isDigit)
  let (significand, taken) := takePlaces whole ((mantissa.dropWhile Char.isDigit).drop 1)
  let exponent : Int := Numeral.decimal (tail.filter Char.isDigit)
  (significand, (if tail.contains '-' then -exponent else exponent) + dropped - taken)

/-- The nearest number with 53 significant bits; a half goes to the even one. -/
def nearest (n : Nat) : Nat :=
  if n < Nat.pow 2 53 then n
  else
    let unit := Nat.pow 2 (n.log2 - 52)
    let quotient := n / unit
    let twice := n % unit * 2
    if unit < twice || (unit == twice && quotient % 2 == 1) then (quotient + 1) * unit
    else quotient * unit

/-- The greatest power of ten in the range of 64-bit floating point. -/
def greatestPower : Nat := 308

/-- The least number that is rounded to one out of range. -/
def overflow : Nat := Nat.pow 2 1024 - Nat.pow 2 970

def isInRange (text : String) : Bool :=
  let unsigned := match text.toList with
    | '-' :: rest => rest
    | cs => cs
  let (significand, exponent) := scaled unsigned
  if significand == 0 || exponent < 0 then true
  else if greatestPower < exponent.toNat then false
  else nearest significand * nearest (Nat.pow 10 exponent.toNat) < overflow

end Gml.Json
