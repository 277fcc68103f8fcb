import Gml.Numeral

/-!
# Content hashes

A 64-bit hash of a text, by which an unchanged document is recognised. The bytes
are folded into two words by multiplication, sixteen at a time; short texts read
overlapping words from both ends. All arithmetic wraps.
-/
namespace Gml.ContentHash

def hasherName : String := "fx-0.4.0-64"

/-- The number that bytes write, the least significant first. -/
def littleEndian (bytes : List UInt8) : UInt64 :=
  bytes.foldr (fun b n => n * 256 + b.toUInt64) 0

/-- The low and the high half of a product of two words, combined. -/
def mix (x y : UInt64) : UInt64 :=
  let product := x.toNat * y.toNat
  product.toUInt64 ^^^ (product / Numeral.limit64).toUInt64

def seeds : UInt64 × UInt64 := (0x243f6a8885a308d3, 0x13198a2e03707344)

/-- Folds whole blocks of sixteen bytes into the two words. -/
def foldBlocks : Nat → UInt64 × UInt64 → List UInt8 → UInt64 × UInt64
  | 0, s, _ => s
  | blocks + 1, (s0, s1), bytes =>
      let low := littleEndian (bytes.take 8)
      let high := littleEndian ((bytes.drop 8).take 8)
      foldBlocks blocks (s1, mix (s0 ^^^ low) (0xa4093822299f31d0 ^^^ high)) (bytes.drop 16)

def foldShort (bytes : List UInt8) : UInt64 × UInt64 :=
  let n := bytes.length
  let (s0, s1) := seeds
  if n ≥ 8 then (s0 ^^^ littleEndian (bytes.take 8), s1 ^^^ littleEndian (bytes.drop (n - 8)))
  else if n ≥ 4 then (s0 ^^^ littleEndian (bytes.take 4), s1 ^^^ littleEndian (bytes.drop (n - 4)))
  else if n > 0 then
    let first := (bytes.getD 0 0).toUInt64
    let middle := (bytes.getD (n / 2) 0).toUInt64
    let last := (bytes.getD (n - 1) 0).toUInt64
    (s0 ^^^ first, s1 ^^^ (last * 256 + middle))
  else (s0, s1)

/-- The two words for more than sixteen bytes; the last sixteen are read again. -/
def foldLong (bytes : List UInt8) : UInt64 × UInt64 :=
  let n := bytes.length
  let (s0, s1) := foldBlocks ((n - 1) / 16) seeds bytes
  (s0 ^^^ littleEndian ((bytes.drop (n - 16)).take 8), s1 ^^^ littleEndian (bytes.drop (n - 8)))

def ofBytes (bytes : List UInt8) : UInt64 :=
  let (s0, s1) := if bytes.length ≤ 16 then foldShort bytes else foldLong bytes
  let folded := mix s0 s1 ^^^ bytes.length.toUInt64
  let spread : UInt64 := 0xf1357aea2e62a9c5
  let state := (folded * spread + 0xff) * spread
  (state <<< 26) ||| (state >>> 38)

def ofText (text : String) : UInt64 := ofBytes text.toUTF8.toList

end Gml.ContentHash
