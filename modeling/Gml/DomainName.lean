import Gml.DomainName.Mapping
import Gml.DomainName.Punycode
import Gml.Text.Blank
import Gml.Unicode.Composition
import Gml.Unicode.Direction
import Gml.Unicode.Joining

/-!
# Domain names

A domain name is a chain of labels with dots between them. Characters are first replaced
by what they stand for and composed; then labels outside ASCII are written in ASCII,
behind a mark. A label that is written so already has to stand for one that needs it. In
a name with letters from right to left every label has one direction.
-/
namespace Gml.DomainName

/-- The mark of a label that stands for one outside ASCII. -/
def encodedMark : List Char := "xn--".toList

def isForbidden (c : Char) : Bool :=
  c.toNat ≤ 0x20 || c.toNat == 0x7F || "%#/:<>?@[\\]^|".toList.contains c

def isAscii (cs : List Char) : Bool := cs.all fun c => c.toNat < 0x80

/-! ### Joiners -/

/-- Whether the first character that counts for joining is of a kind. -/
def joinsFirst (joins : Char → Bool) (cs : List Char) : Bool :=
  match cs.dropWhile Unicode.isTransparent with
  | c :: _ => joins c
  | [] => false

/-- Whether the two invisible joiners stand where they make a difference: behind a mark
that silences a vowel or, for the one that keeps letters apart, between letters that
would join. What stands before is given in reverse. -/
def joinersFit : List Char → List Char → Bool
  | _, [] => true
  | before, c :: rest =>
      let behindVirama := (before.head?.map Unicode.isVirama).getD false
      let fits :=
        if c == '\u200D' then behindVirama
        else if c == '\u200C' then
          behindVirama
            || (joinsFirst Unicode.joinsBehind before && joinsFirst Unicode.joinsBefore rest)
        else true
      fits && joinersFit (c :: before) rest

/-! ### Directions -/

open Unicode (Direction direction) in
/-- Whether a label of a name with letters from right to left has one direction. It
starts with a letter, ends in a letter or a digit, marks aside, and a label from right to
left does not mix digits. -/
def hasOneDirection (label : List Char) : Bool :=
  let all := label.map direction
  let ended := (all.reverse.dropWhile (· == .mark)).reverse
  match all.head?, ended.getLast? with
  | some .left, some last =>
      (last == .left || last == .europeanDigit)
        && all.all fun d => d != .right && d != .arabicDigit
  | some .right, some last =>
      (last == .right || last == .europeanDigit || last == .arabicDigit)
        && all.all (· != .left)
        && !(all.contains .europeanDigit && all.contains .arabicDigit)
  | none, _ => true
  | _, _ => false

/-- Whether a name has letters or digits that are written from right to left. -/
def isMixed (labels : List (List Char)) : Bool :=
  labels.any fun label => label.any fun c =>
    let d := Unicode.direction c
    d == .right || d == .arabicDigit

/-! ### Labels -/

/-- The longest label outside ASCII. -/
def longestLabel : Nat := 1000

/-- The longest text behind the mark of a label in ASCII. -/
def longestEncoded : Nat := 2000

def isLabel (label : List Char) : Bool :=
  !((label.head?.map Unicode.isMark).getD false) && joinersFit [] label
    && !label.any isForbidden && (isAscii label || label.length ≤ longestLabel)

/-- The form that people read of a label that may be written in ASCII. What the ASCII
stands for has to be in its final form already. -/
def readable? (label : List Char) : Option (List Char) :=
  match Text.dropWord? encodedMark label with
  | none => some label
  | some text =>
      if !isAscii text || label.getLast? == some '-' || longestEncoded < text.length then none
      else
        (Punycode.decode? text).filter fun decoded =>
          mapped? decoded == some decoded && Unicode.normalize decoded == decoded
            && !decoded.contains '.'

/-- A label in ASCII, from the form that people read. -/
def encoded (label : List Char) : List Char :=
  if isAscii label then label else encodedMark ++ Punycode.encode label

/-- The name in ASCII that a text stands for. -/
def toAscii? (text : List Char) : Option (List Char) := do
  let labels ← (Text.splitAll (· == '.') (Unicode.normalize (← mapped? text))).mapM readable?
  if labels.all isLabel && (!isMixed labels || labels.all hasOneDirection) then
    some (['.'].intercalate (labels.map encoded))
  else none

end Gml.DomainName
