/-!
# Labels outside ASCII

A label with other characters than ASCII is written in ASCII: first the characters of
ASCII it has, then, behind a hyphen, numbers that say which other characters are to be
inserted and where. Insertions go from the smallest character up, and each number counts
the places and characters passed over since the last insertion. Digits are letters and
then decimal digits, and how large a last digit of a number can be adapts to the numbers
before.
-/
namespace Gml.Punycode

def digit (n : Nat) : Char :=
  if n < 26 then Char.ofNat ('a'.toNat + n) else Char.ofNat ('0'.toNat + (n - 26))

def digitValue? (c : Char) : Option Nat :=
  if 'a' ≤ c && c ≤ 'z' then some (c.toNat - 'a'.toNat)
  else if c.isDigit then some (c.toNat - '0'.toNat + 26)
  else none

/-- The bound below which a digit is the last of its number; the place is a multiple of
the base, from one on. -/
def threshold (bias place : Nat) : Nat := min 26 (max 1 (place - bias))

/-- Divides until a number is small, and counts the base for each time. -/
def settle : Nat → Nat → Nat → Nat
  | 0, _, count => count
  | rounds + 1, delta, count =>
      if 455 < delta then settle rounds (delta / 35) (count + 36)
      else count + 36 * delta / (delta + 38)

/-- The bias after an insertion into a text that has so many characters then. -/
def adapt (first : Bool) (delta length : Nat) : Nat :=
  let delta := if first then delta / 700 else delta / 2
  let delta := delta + delta / length
  settle (delta + 1) delta 0

/-! ### Writing -/

/-- The digits of a number. Every round writes one. -/
def writeNumber : Nat → Nat → Nat → Nat → List Char
  | 0, _, _, _ => []
  | rounds + 1, bias, place, n =>
      let t := threshold bias place
      if n < t then [digit n]
      else
        digit (t + (n - t) % (36 - t)) :: writeNumber rounds bias (place + 36) ((n - t) / (36 - t))

structure Writer where
  /-- The numbers so far. -/
  written : List Char := []
  /-- The places passed over since the last insertion. -/
  delta : Nat := 0
  bias : Nat := 72
  /-- The characters that are there, and how many of them were there from the start. -/
  length : Nat
  basic : Nat

/-- Passes a character of the label while one is inserted everywhere it stands. -/
def Writer.pass (inserted : Nat) (writer : Writer) (c : Char) : Writer :=
  if c.toNat < inserted then { writer with delta := writer.delta + 1 }
  else if c.toNat == inserted then
    { writer with
      written := writer.written ++ writeNumber (writer.delta + 1) writer.bias 36 writer.delta
      delta := 0
      bias := adapt (writer.length == writer.basic) writer.delta (writer.length + 1)
      length := writer.length + 1 }
  else writer

/-- Inserts the characters of a label, the smallest first; the second argument is the
least one that can come now. -/
def writeFrom (label : List Char) : List Nat → Nat → Writer → List Char
  | [], _, writer => writer.written
  | n :: rest, least, writer =>
      let start := { writer with delta := writer.delta + (n - least) * (writer.length + 1) }
      let writer := label.foldl (Writer.pass n) start
      writeFrom label rest (n + 1) { writer with delta := writer.delta + 1 }

def encode (label : List Char) : List Char :=
  let basic := label.filter fun c => c.toNat < 0x80
  let others := (label.filter fun c => 0x80 ≤ c.toNat).map Char.toNat
  let inserted := (others.mergeSort fun a b => decide (a ≤ b)).eraseDups
  basic ++ (if basic.isEmpty then [] else ['-'])
    ++ writeFrom label inserted 0x80 { length := basic.length, basic := basic.length }

/-! ### Reading -/

/-- Numbers stay below this bound. -/
def limit : Nat := Nat.pow 2 32

/-- Adds a number to another, from the digits at the front of a text. -/
def readNumber : Nat → Nat → Nat → Nat → List Char → Option (Nat × List Char)
  | _, _, _, _, [] => none
  | bias, place, weight, sum, c :: rest => do
      let d ← digitValue? c
      let sum := sum + d * weight
      if limit ≤ sum then none
      else if d < threshold bias place then some (sum, rest)
      else
        let weight := weight * (36 - threshold bias place)
        if limit ≤ weight then none else readNumber bias (place + 36) weight sum rest

/-- Inserts characters into a text as the numbers say. Every round takes a number. -/
def readFrom : Nat → Nat → Nat → Nat → List Char → List Char → Option (List Char)
  | _, _, _, _, done, [] => some done
  | 0, _, _, _, _, _ :: _ => none
  | rounds + 1, bias, n, place, done, c :: rest => do
      let (sum, rest) ← readNumber bias 36 1 place (c :: rest)
      let length := done.length + 1
      let n := n + sum / length
      if n.isValidChar then
        readFrom rounds (adapt (place == 0) (sum - place) length) n (sum % length + 1)
          (done.insertIdx (sum % length) (Char.ofNat n)) rest
      else none

/-- The label that small letters, digits and hyphens stand for. -/
def decode? (text : List Char) : Option (List Char) :=
  let numbers := (text.reverse.takeWhile (· != '-')).reverse
  let basic := text.take (text.length - numbers.length - 1)
  let numbers := if basic.isEmpty then text else numbers
  readFrom (numbers.length + 1) 72 0x80 0 basic numbers

end Gml.Punycode
