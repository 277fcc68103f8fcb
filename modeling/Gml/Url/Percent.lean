import Gml.Numeral

/-!
# Percent encoding

Bytes that may not stand in a part of an address as they are stand there as a percent
sign and two hexadecimal digits.
-/
namespace Gml.Percent

/-- A hexadecimal digit in upper case. -/
def digit (n : Nat) : Char :=
  if n < 10 then Char.ofNat ('0'.toNat + n) else Char.ofNat ('A'.toNat + (n - 10))

def encodeByte (b : UInt8) : List Char := ['%', digit (b.toNat / 16), digit (b.toNat % 16)]

/-- A character as it stands, or byte by byte if it is one of those to be escaped or no
visible character of ASCII. -/
def encodeChar (escaped : Char → Bool) (c : Char) : List Char :=
  if escaped c || c.toNat < 0x20 || 0x7E < c.toNat then
    (String.utf8EncodeChar c).flatMap encodeByte
  else [c]

def encode (escaped : Char → Bool) (cs : List Char) : List Char := cs.flatMap (encodeChar escaped)

/-- Control characters and characters outside ASCII are escaped everywhere. -/
def encodeControls : List Char → List Char := encode fun _ => false

/-- The bytes of a text; a `%` without two digits stands for itself. -/
def decodeBytes : List Char → List UInt8
  | [] => []
  | '%' :: a :: b :: rest =>
      match Numeral.value? 16 [a, b] with
      | some n => UInt8.ofNat n :: decodeBytes rest
      | none => 0x25 :: decodeBytes (a :: b :: rest)
  | c :: rest => String.utf8EncodeChar c ++ decodeBytes rest

/-- The text that is encoded, if its bytes are one. -/
def decode? (cs : List Char) : Option String := String.fromUTF8? ⟨(decodeBytes cs).toArray⟩

/-! ### Characters to be escaped -/

def inFragment (c : Char) : Bool := " \"<>\x60".toList.contains c

def inPath (c : Char) : Bool := inFragment c || "#?\x7b\x7d".toList.contains c

/-- In a segment that is made from a name, the marks of the format are escaped too. -/
def inName (c : Char) : Bool := inPath c || "/%\\".toList.contains c

def inUser (c : Char) : Bool := inPath c || "/:;=@[\\]^|".toList.contains c

def inQuery (special : Bool) (c : Char) : Bool :=
  " \"#<>".toList.contains c || (special && c == '\'')

end Gml.Percent
