import Gml.Text.Blank
import Gml.Url.Percent

/-!
# Segments of paths

The path of an address is a chain of segments below a root. Reading it resolves the
segments `.` and `..`, which may also be written with encoded dots. A segment that
looks like the letter of a drive is never left upwards; at the front of the path of a
file it is a drive, which is written with a colon.
-/
namespace Gml

/-- Characters that do not count wherever they stand in an address. -/
def Url.isIgnored (c : Char) : Bool := c == '\t' || c == '\n' || c == '\r'

namespace Segment

/-- A letter and a colon or a bar. -/
def isDrive : List Char → Bool
  | [c, d] => c.isAlpha && (d == ':' || d == '|')
  | _ => false

/-- A drive, or a drive with a backslash and more behind it. -/
def startsWithDrive : List Char → Bool
  | c :: d :: rest => isDrive [c, d] && (rest.isEmpty || rest.head? == some '\\')
  | _ => false

/-- A segment with its encoded dots written as dots. -/
def plainDots : List Char → List Char
  | '%' :: '2' :: 'e' :: rest => '.' :: plainDots rest
  | '%' :: '2' :: 'E' :: rest => '.' :: plainDots rest
  | c :: rest => c :: plainDots rest
  | [] => []

inductive Step where
  | stay
  | up
  | down

def step (segment : List Char) : Step :=
  match String.ofList (plainDots segment) with
  | "." => .stay
  | ".." => .up
  | _ => .down

/-- The segments so far, the last one first. -/
structure Chain where
  segments : List (List Char) := []
  /-- Whether the first one is a drive. -/
  onDrive : Bool := false

namespace Chain

def push (chain : Chain) (segment : List Char) : Chain :=
  { chain with segments := segment :: chain.segments }

def up (chain : Chain) : Chain :=
  match chain.segments with
  | [] => chain
  | last :: rest => if startsWithDrive last then chain else { chain with segments := rest }

/-- The rest of a first segment of a file that starts with a drive and an ignored
character behind it. The drive is a segment of its own then. -/
def behindDrive? (chain : Chain) (segment : List Char) : Option (Char × List Char) :=
  match chain.segments, segment.dropWhile Url.isIgnored with
  | [], letter :: rest =>
      match rest.dropWhile Url.isIgnored with
      | ':' :: c :: more =>
          let text := (c :: more).filter (!Url.isIgnored ·)
          if letter.isAlpha && Url.isIgnored c && !text.isEmpty then some (letter, text) else none
      | _ => none
  | _, _ => none

/-- Adds a segment. At the end of the path the segments `.` and `..` leave an empty
one. -/
def add (ofFile isLast : Bool) (chain : Chain) (segment : List Char) : Chain :=
  let text := segment.filter (!Url.isIgnored ·)
  let close (chain : Chain) : Chain := if isLast then chain.push [] else chain
  match if ofFile then chain.behindDrive? segment else none with
  | some (letter, rest) => (chain.push [letter, ':']).push (Percent.encode Percent.inPath rest)
  | none =>
      match step text, text with
      | .stay, _ => close chain
      | .up, _ => close chain.up
      | .down, letter :: _ =>
          if ofFile && chain.segments.isEmpty && isDrive text then ⟨[[letter, ':']], true⟩
          else chain.push (Percent.encode Percent.inPath text)
      | .down, [] => chain.push []

def addAll (ofFile : Bool) : Chain → List (List Char) → Chain
  | chain, [] => chain
  | chain, segment :: rest => addAll ofFile (chain.add ofFile rest.isEmpty segment) rest

def path (chain : Chain) : List Char :=
  chain.segments.reverse.flatMap fun segment => '/' :: segment

end Chain

end Segment

end Gml
