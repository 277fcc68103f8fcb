import Gml.DomainName
import Gml.Url.Percent

/-!
# Hosts

A host is a domain name or an address of four bytes or of eight pieces of two bytes. In
schemes without places its name is any text without the marks of the format.
-/
namespace Gml

inductive Host where
  | domain (name : String)
  /-- The four bytes as one number. -/
  | four (address : Nat)
  | six (pieces : List Nat)
  deriving DecidableEq, Repr

namespace Host

/-! ### Addresses of four bytes -/

/-- A number with the mark of its base; a zero in front means base eight. -/
def number? : List Char → Option Nat
  | ['0', 'x'] | ['0', 'X'] => some 0
  | '0' :: 'x' :: digits | '0' :: 'X' :: digits => Numeral.value? 16 digits
  | '0' :: d :: digits => Numeral.value? 8 (d :: digits)
  | digits => Numeral.value? 10 digits

/-- The parts of a name, without an empty one at its end. -/
def nameParts (name : List Char) : List (List Char) :=
  let parts := Text.splitAll (· == '.') name
  if parts.length > 1 && parts.getLast? == some [] then parts.dropLast else parts

/-- Whether a name can only be an address: it ends in digits or a number. -/
def endsInNumber (name : List Char) : Bool :=
  match (nameParts name).getLast? with
  | some last => (!last.isEmpty && last.all Char.isDigit) || (number? last).isSome
  | none => false

/-- Up to four numbers. The last one fills the bytes that the others leave. -/
def four? (name : List Char) : Option Nat := do
  let numbers ← (nameParts name).mapM number?
  let last ← numbers.getLast?
  let bytes := numbers.dropLast
  if bytes.length ≤ 3 && bytes.all (· < 256) && last < Nat.pow 256 (4 - bytes.length) then
    some (bytes.foldl (fun n byte => n * 256 + byte) 0 * Nat.pow 256 (4 - bytes.length) + last)
  else none

def renderFour (address : Nat) : List Char :=
  let byte (n : Nat) : List Char := (Nat.repr (address / Nat.pow 256 n % 256)).toList
  ['.'].intercalate [byte 3, byte 2, byte 1, byte 0]

/-! ### Addresses of eight pieces -/

/-- A byte in decimal digits without a needless zero. -/
def byte? (digits : List Char) : Option Nat :=
  if digits.length > 1 && digits.head? == some '0' then none
  else (Numeral.value? 10 digits).filter (· < 256)

/-- Four bytes as two pieces. -/
def bytePieces? (text : List Char) : Option (List Nat) :=
  match (Text.splitAll (· == '.') text).mapM byte? with
  | some [a, b, c, d] => some [a * 256 + b, c * 256 + d]
  | _ => none

/-- The pieces that a part between colons stands for. Four bytes are the last part. -/
def pieces? (isLast : Bool) (part : List Char) : Option (List Nat) :=
  if isLast && part.contains '.' then bytePieces? part
  else if part.length ≤ 4 then (Numeral.value? 16 part).map fun n => [n]
  else none

def pieceList? (isLast : Bool) (text : List Char) : Option (List Nat) :=
  if text.isEmpty then some []
  else
    let parts := Text.splitAll (· == ':') text
    let before := parts.dropLast.mapM (pieces? false)
    let last := (parts.getLast?).bind (pieces? isLast)
    (before.bind fun before => last.map fun last => before.flatten ++ last)

/-- What stands before and behind the first two colons in a row. -/
def splitGap? : List Char → Option (List Char × List Char)
  | [] => none
  | ':' :: ':' :: rest => some ([], rest)
  | c :: rest => (splitGap? rest).map fun (before, after) => (c :: before, after)

/-- Eight pieces. Two colons in a row stand for at least one piece of zero. -/
def six? (text : List Char) : Option (List Nat) :=
  match splitGap? text with
  | none => (pieceList? true text).filter (·.length == 8)
  | some (before, after) => do
      let first ← pieceList? false before
      let last ← pieceList? true after
      if first.length + last.length < 8 then
        some (first ++ List.replicate (8 - first.length - last.length) 0 ++ last)
      else none

/-- The length of the run of zeros at the front. -/
def zeroRun (pieces : List Nat) : Nat := (pieces.takeWhile (· == 0)).length

/-- Where the longest run of zeros starts, the first of several, and its length. -/
def longestZeros : Nat → List Nat → Nat × Nat
  | index, [] => (index, 0)
  | index, piece :: rest =>
      let here := zeroRun (piece :: rest)
      let later := longestZeros (index + 1) rest
      if here ≥ later.2 then (index, here) else later

def hexPiece (n : Nat) : List Char := Nat.toDigits 16 n

/-- Pieces with colons. The longest run of zeros is left out, unless it is a single
one. -/
def renderSix (pieces : List Nat) : List Char :=
  let join (pieces : List Nat) : List Char := [':'].intercalate (pieces.map hexPiece)
  let (start, length) := longestZeros 0 pieces
  if length < 2 then join pieces
  else join (pieces.take start) ++ "::".toList ++ join (pieces.drop (start + length))

/-! ### Reading and writing -/

def bracketed? (rest : List Char) : Option Host :=
  (Text.dropLast? ']' rest).bind fun text => (six? text).map .six

/-- A host in a scheme with places. Its name may be percent encoded. -/
def parse? : List Char → Option Host
  | '[' :: rest => bracketed? rest
  | text => do
      let name ← DomainName.toAscii? (← Percent.decode? text).toList
      if name.isEmpty then none
      else if endsInNumber name then (four? name).map .four
      else some (.domain (String.ofList name))

/-- The marks of the format, which no name of a host has. -/
def isMark (c : Char) : Bool := "\x00\t\n\r #/:<>?@[\\]^|".toList.contains c

/-- A host in a scheme without places. -/
def parseOther? : List Char → Option Host
  | '[' :: rest => bracketed? rest
  | text =>
      if text.any isMark then none
      else some (.domain (String.ofList (Percent.encodeControls text)))

def render : Host → String
  | .domain name => name
  | .four address => String.ofList (renderFour address)
  | .six pieces => "[" ++ String.ofList (renderSix pieces) ++ "]"

end Host

end Gml
