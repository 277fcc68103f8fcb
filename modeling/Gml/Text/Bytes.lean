/-!
# Byte offsets into character lists

Offsets count the bytes of a text in UTF-8. A text is worked on as its list of
characters, so an offset inside a character is no position of the list: every
cut below answers `none` there and beyond the end. A span is a pair of offsets into one
text.
-/
namespace Gml

structure Span where
  start : Nat
  stop : Nat
  deriving DecidableEq, Repr, Inhabited

namespace Span

def empty (offset : Nat) : Span := ⟨offset, offset⟩

def shift (span : Span) (distance : Nat) : Span := ⟨span.start + distance, span.stop + distance⟩

end Span

namespace Text

def byteLength : List Char → Nat
  | [] => 0
  | c :: cs => c.utf8Size + byteLength cs

/-- Cuts a text after `n` bytes. -/
def splitAtByte? : Nat → List Char → Option (List Char × List Char)
  | 0, cs => some ([], cs)
  | _ + 1, [] => none
  | n + 1, c :: cs =>
      if c.utf8Size ≤ n + 1 then
        (splitAtByte? (n + 1 - c.utf8Size) cs).map fun (before, after) => (c :: before, after)
      else none

def dropBytes? (n : Nat) (cs : List Char) : Option (List Char) :=
  (splitAtByte? n cs).map Prod.snd

def takeBytes? (n : Nat) (cs : List Char) : Option (List Char) :=
  (splitAtByte? n cs).map Prod.fst

/-- Whether an offset is at the start of a character or at the end of the text. -/
def isBoundary (cs : List Char) (offset : Nat) : Bool :=
  (splitAtByte? offset cs).isSome

def slice? (cs : List Char) (start stop : Nat) : Option (List Char) :=
  if start ≤ stop then (dropBytes? start cs).bind (takeBytes? (stop - start)) else none

theorem byteLength_append (a b : List Char) :
    byteLength (a ++ b) = byteLength a + byteLength b := by
  induction a with
  | nil => simp [byteLength]
  | cons c a ih => simp [byteLength, ih, Nat.add_assoc]

theorem utf8ByteSize_ofList (cs : List Char) :
    (String.ofList cs).utf8ByteSize = byteLength cs := by
  induction cs with
  | nil => simp [byteLength]
  | cons c cs ih => simp [String.ofList_cons, byteLength, ih]

end Text

end Gml
