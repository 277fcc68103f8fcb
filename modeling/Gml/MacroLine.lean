import Gml.Text.Blank
import Gml.Text.Bytes

/-!
# Macro lines

`#macro [configuration:]NAME value` on a line of its own. The name ends at the first
blank, and the value is what remains without blanks around it.
-/
namespace Gml

structure MacroLine where
  name : String
  /-- Where the name stands in the line. -/
  span : Span
  value : String
  deriving DecidableEq, Repr

/-- Reads a macro line; without a name there is none. -/
def MacroLine.parse? (line : String) : Option MacroLine := do
  let body ← Text.dropWord? "#macro".toList line.toList
  let trimmed := Text.trimStart body
  let word := trimmed.takeWhile (!Text.isBlank ·)
  let rest := trimmed.dropWhile (!Text.isBlank ·)
  let name := match Text.splitFirst? (· == ':') word with
    | some (_, name) => name
    | none => word
  if name.isEmpty then none
  else
    let stop := line.utf8ByteSize - Text.byteLength rest
    return {
      name := String.ofList name
      span := ⟨stop - Text.byteLength name, stop⟩
      value := String.ofList (Text.trim rest) }

end Gml
