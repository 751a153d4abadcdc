import ChipEight.Yaml.Node.Builder
import ChipEight.Yaml.Token.Reader

/-!
# YAML

The datum of the one document that a text holds. A text without a document stands for nothing.
-/

namespace ChipEight.Yaml

/-- A mark of the byte order at the start is passed over. -/
def content (s : String) : List Char :=
  match s.toList with
  | '\ufeff' :: cs => cs
  | cs => cs

def read (s : String) : Except Error Datum := do
  let cs := content s
  if !cs.all isAllowed then throw .character
  match ← Node.ofTokens (.ofText cs) with
  | some node => node.datum
  | none => return .null

end ChipEight.Yaml
