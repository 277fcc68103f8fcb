import Gml.Numeral
import Gml.Text.Blank
import Gml.Toml.Basic

/-!
# TOML strings, numbers and dates

Strings come in four kinds: with or without escapes, on one line or on several. All
other values without parts are words up to the next delimiter, and the word alone
decides what it is.
-/
namespace Gml.Toml

def isSpace (c : Char) : Bool := c == ' ' || c == '\t'

def skipSpace (cs : List Char) : List Char := cs.dropWhile isSpace

/-- What follows a line end at the front. -/
def lineEnd? : List Char → Option (List Char)
  | '\n' :: rest => some rest
  | '\r' :: '\n' :: rest => some rest
  | _ => none

/-- Whether a text has no other control characters than tabs and line ends. -/
def isPlain : List Char → Bool
  | [] => true
  | '\r' :: '\n' :: rest => isPlain rest
  | c :: rest => (c == '\t' || c == '\n' || (0x20 ≤ c.toNat && c.toNat != 0x7F)) && isPlain rest

/-! ### Strings -/

structure Quoting where
  quote : Char
  multiline : Bool
  escapes : Bool

/-- The rest behind the closing quotes, with the quotes before them that belong to the
string: several lines are closed by three, and up to two more may stand before. -/
def Quoting.close? (q : Quoting) (cs : List Char) : Option (List Char × List Char) :=
  let run := (cs.takeWhile (· == q.quote)).length
  let needed := if q.multiline then 3 else 1
  if run < needed then none
  else
    let extra := if q.multiline then min (run - 3) 2 else 0
    some (List.replicate extra q.quote, cs.drop (extra + needed))

/-- The character that an escape with some hexadecimal digits stands for. -/
def hexEscape? (width : Nat) (cs : List Char) : Option (List Char × List Char) :=
  if cs.length < width then none
  else
    (Numeral.value? 16 (cs.take width)).bind fun n =>
      if n.isValidChar then some ([Char.ofNat n], cs.drop width) else none

def simpleEscape? : Char → Option Char
  | 'b' => some '\x08'
  | 't' => some '\t'
  | 'n' => some '\n'
  | 'f' => some '\x0c'
  | 'r' => some '\r'
  | 'e' => some '\x1b'
  | '"' => some '"'
  | '\\' => some '\\'
  | _ => none

/-- What an escape stands for, behind its backslash. At the end of a line it stands
for nothing and takes the blanks and line ends behind it along. -/
def escape? (multiline : Bool) (cs : List Char) : Option (List Char × List Char) :=
  match multiline, lineEnd? (skipSpace cs) with
  | true, some rest => some ([], rest.dropWhile fun c => isSpace c || c == '\n' || c == '\r')
  | _, _ =>
      match cs with
      | 'x' :: rest => hexEscape? 2 rest
      | 'u' :: rest => hexEscape? 4 rest
      | 'U' :: rest => hexEscape? 8 rest
      | c :: rest => (simpleEscape? c).map fun e => ([e], rest)
      | [] => none

/-- Reads to the closing quotes, behind the characters already read in reverse. Every
round takes a character at least. -/
def readBody (q : Quoting) : Nat → List Char → List Char → Option (String × List Char)
  | 0, _, _ => none
  | rounds + 1, cs, done =>
      match q.close? cs, cs with
      | some (last, rest), _ => some (String.ofList (done.reverse ++ last), rest)
      | none, [] => none
      | none, c :: rest =>
          if q.escapes && c == '\\' then
            match escape? q.multiline rest with
            | some (piece, rest) => readBody q rounds rest (piece.reverse ++ done)
            | none => none
          else if !q.multiline && c == '\n' then none
          else readBody q rounds rest (c :: done)

/-- A string behind its opening quotes. -/
def readQuoted (q : Quoting) (cs : List Char) : Option (String × List Char) :=
  readBody q (cs.length + 1) cs []

/-- A string on one line, from its opening quote on. -/
def readLine? : List Char → Option (String × List Char)
  | '"' :: rest => readQuoted ⟨'"', false, true⟩ rest
  | '\'' :: rest => readQuoted ⟨'\'', false, false⟩ rest
  | _ => none

/-- A string of any kind, from its opening quotes on. A line end right behind three
quotes does not count. -/
def readString? : List Char → Option (String × List Char)
  | '"' :: '"' :: '"' :: rest => readQuoted ⟨'"', true, true⟩ ((lineEnd? rest).getD rest)
  | '\'' :: '\'' :: '\'' :: rest => readQuoted ⟨'\'', true, false⟩ ((lineEnd? rest).getD rest)
  | cs => readLine? cs

/-! ### Numbers -/

/-- Digits, between which single underscores may stand. -/
def digits? (base : Nat) (cs : List Char) : Option (List Char) :=
  let groups := Text.splitAll (· == '_') cs
  if groups.all fun group => (Numeral.value? base group).isSome then some groups.flatten else none

/-- Decimal digits without a needless zero at the front. -/
def whole? (cs : List Char) : Option (List Char) :=
  (digits? 10 cs).filter fun digits => digits.length == 1 || digits.head? != some '0'

/-- The sign of a number, if it has one, and the rest. -/
def splitSign : List Char → Option Char × List Char
  | '+' :: rest => (some '+', rest)
  | '-' :: rest => (some '-', rest)
  | cs => (none, cs)

/-- Integers fit into 128 bits, with or without a sign. -/
def integer? (word : List Char) : Option Int :=
  let magnitude := match word with
    | '0' :: 'x' :: rest => (digits? 16 rest).bind (Numeral.value? 16)
    | '0' :: 'o' :: rest => (digits? 8 rest).bind (Numeral.value? 8)
    | '0' :: 'b' :: rest => (digits? 2 rest).bind (Numeral.value? 2)
    | word => (whole? (splitSign word).2).map Numeral.decimal
  match magnitude, splitSign word with
  | some n, (some '-', _) => if n ≤ Nat.pow 2 127 then some (-n) else none
  | some n, _ => if n < Nat.pow 2 128 then some n else none
  | none, _ => none

/-- Whether a word is a floating-point number in the range of 64 bits. -/
def isFloat (word : List Char) : Bool :=
  let unsigned := (splitSign word).2
  if unsigned == "inf".toList || unsigned == "nan".toList then true
  else
    let isMark (c : Char) : Bool := c == 'e' || c == 'E'
    let mantissa := unsigned.takeWhile (!isMark ·)
    let whole := mantissa.takeWhile (· != '.')
    let hasWhole := (whole? whole).isSome
    let hasPlaces := match mantissa.dropWhile (· != '.') with
      | [] => true
      | _ :: places => (digits? 10 places).isSome
    let hasExponent := match unsigned.dropWhile (!isMark ·) with
      | [] => true
      | _ :: exponent => (digits? 10 (splitSign exponent).2).isSome
    hasWhole && hasPlaces && hasExponent && unsigned.any (fun c => c == '.' || isMark c)
      && Numeral.isFinite (String.ofList unsigned)

/-! ### Dates and times -/

/-- A number of so many digits that lies between two bounds, and the rest. -/
def field? (width low high : Nat) (cs : List Char) : Option (Nat × List Char) :=
  if cs.length < width then none
  else
    (Numeral.value? 10 (cs.take width)).bind fun n =>
      if low ≤ n && n ≤ high then some (n, cs.drop width) else none

def mark? (c : Char) : List Char → Option (List Char)
  | d :: rest => if d = c then some rest else none
  | [] => none

def daysIn (year month : Nat) : Nat :=
  if month == 2 then
    if year % 4 == 0 && (year % 100 != 0 || year % 400 == 0) then 29 else 28
  else if [4, 6, 9, 11].contains month then 30
  else 31

/-- The rest behind a date. -/
def date? (cs : List Char) : Option (List Char) := do
  let (year, cs) ← field? 4 0 9999 cs
  let (month, cs) ← field? 2 1 12 (← mark? '-' cs)
  let (_, cs) ← field? 2 1 (daysIn year month) (← mark? '-' cs)
  return cs

/-- The rest behind a fraction of a second, if there is one. -/
def fraction? : List Char → Option (List Char)
  | '.' :: rest => if (rest.head?.map Char.isDigit).getD false then some (rest.dropWhile Char.isDigit) else none
  | cs => some cs

/-- The rest behind a time; it may end with the minutes. -/
def time? (cs : List Char) : Option (List Char) := do
  let (_, cs) ← field? 2 0 23 cs
  let (_, cs) ← field? 2 0 59 (← mark? ':' cs)
  match mark? ':' cs with
  | none => return cs
  | some cs =>
      let (_, cs) ← field? 2 0 60 cs
      fraction? cs

/-- Whether a text is the distance from universal time, or empty. -/
def isOffset : List Char → Bool
  | [] => true
  | ['Z'] | ['z'] => true
  | sign :: cs =>
      let rest := do
        let (_, cs) ← field? 2 0 23 cs
        let (_, cs) ← field? 2 0 59 (← mark? ':' cs)
        return cs
      (sign == '+' || sign == '-') && rest == some []

/-- Whether a text is a date, a time or both. -/
def isMoment (cs : List Char) : Bool :=
  match date? cs with
  | some [] => true
  | some (separator :: rest) =>
      [' ', 'T', 't'].contains separator && ((time? rest).map isOffset).getD false
  | none => time? cs == some []

/-! ### Words -/

def isWordChar (c : Char) : Bool := !isSpace c && !"\n\r,]\x7d#".toList.contains c

/-- The word at the front. A date and a time behind one blank are one word. -/
def readWord (cs : List Char) : List Char × List Char :=
  let word := cs.takeWhile isWordChar
  let rest := cs.dropWhile isWordChar
  match date? word, rest with
  | some [], ' ' :: c :: more =>
      if c.isDigit then
        (word ++ ' ' :: (c :: more).takeWhile isWordChar, (c :: more).dropWhile isWordChar)
      else (word, rest)
  | _, _ => (word, rest)

def wordValue? (word : List Char) : Option Value :=
  if word == "true".toList then some (.bool true)
  else if word == "false".toList then some (.bool false)
  else
    match integer? word with
    | some n => some (.integer n)
    | none =>
        if isFloat word then some .float
        else if isMoment word then some .moment
        else none

end Gml.Toml
