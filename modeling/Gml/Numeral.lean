/-!
# Numerals

Digits of several bases and the numbers they write, and the range of 64-bit floating
point, decided on the digits themselves in exact arithmetic.
-/
namespace Gml.Numeral

/-- The first natural number that 32 bits do not hold. -/
def limit32 : Nat := Nat.pow 2 32

/-- The first natural number that 64 bits do not hold. -/
def limit64 : Nat := Nat.pow 2 64

def hexValue? (c : Char) : Option Nat :=
  if c.isDigit then some (c.toNat - '0'.toNat)
  else if 'a' ≤ c && c ≤ 'f' then some (c.toNat - 'a'.toNat + 10)
  else if 'A' ≤ c && c ≤ 'F' then some (c.toNat - 'A'.toNat + 10)
  else none

def digitValue? (base : Nat) (c : Char) : Option Nat :=
  (hexValue? c).filter (· < base)

/-- The number that some digits write; there is at least one. -/
def value? (base : Nat) (digits : List Char) : Option Nat :=
  if digits.isEmpty then none
  else digits.foldlM (fun n c => (digitValue? base c).map (n * base + ·)) 0

def decimal (digits : List Char) : Nat :=
  digits.foldl (fun n c => n * 10 + (c.toNat - '0'.toNat)) 0

/-- The digits of a decimal fraction as a natural number, without sign and point, and
the power of ten that it is to be multiplied by. -/
def scientific (text : String) : Nat × Int :=
  let isMark (c : Char) : Bool := c == 'e' || c == 'E'
  let mantissa := text.toList.takeWhile (!isMark ·)
  let tail := text.toList.dropWhile (!isMark ·)
  let places := (mantissa.dropWhile (· != '.')).filter Char.isDigit
  let exponent : Int := decimal (tail.filter Char.isDigit)
  let signed := if tail.contains '-' then -exponent else exponent
  (decimal (mantissa.filter Char.isDigit), signed - places.length)

/-- Whether a number is within the range of 64-bit floating point. The least that is
not is half a unit in the last place above the greatest finite one. -/
def isFinite (text : String) : Bool :=
  let (digits, exponent) := scientific text
  if digits == 0 then true
  else
    let magnitude : Int := (Nat.repr digits).length + exponent
    if magnitude < 309 then true
    else if magnitude > 309 then false
    else
      let scaled := if exponent ≥ 0 then digits * Nat.pow 10 exponent.toNat else digits
      let unit := if exponent ≥ 0 then 1 else Nat.pow 10 (-exponent).toNat
      scaled < (Nat.pow 2 1024 - Nat.pow 2 970) * unit

end Gml.Numeral
