/-!
# Resource names

A script or an object is named by a letter or an underscore, then letters, digits and
underscores, all ASCII, and by no reserved word. The bytes of a character beyond ASCII
are beyond ASCII too, so a name is judged by its bytes.
-/
namespace Gml.Name

/-- The byte of a letter or of the underscore. -/
def isStartByte (b : UInt8) : Bool := (65 ≤ b && b ≤ 90) || (97 ≤ b && b ≤ 122) || b == 95

def isDigitByte (b : UInt8) : Bool := 48 ≤ b && b ≤ 57

def isIdentifier (name : String) : Bool :=
  match name.toUTF8.data.toList with
  | [] => false
  | first :: rest => isStartByte first && rest.all fun b => isStartByte b || isDigitByte b

/-- The words that name no resource. -/
def reserved : List String :=
  ["var", "globalvar", "if", "then", "else", "while", "do", "until", "for", "repeat", "with",
   "switch", "case", "default", "break", "continue", "exit", "return", "enum", "function", "and",
   "or", "xor", "not", "div", "mod", "true", "false", "self", "other", "all", "noone", "global"]

def isReserved (name : String) : Bool := reserved.contains name

end Gml.Name
