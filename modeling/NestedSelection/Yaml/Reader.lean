import NestedSelection.Yaml.Anchor
import NestedSelection.Yaml.Scan

/-! # Reading YAML text

A text holds one document or none. What its scalars mean is left to rules.
-/

namespace NestedSelection

namespace Yaml

/-- The root node of the one document that a text holds, if it holds any. -/
def root? (text : String) : Option (Option (Node String)) := do
  let s ← spots? text.toList
  let (root, rest) ← Node.first (tokens s)
  if Node.isLast rest then some root else none

/-- The document that a text holds. An empty text says the same as `null`. -/
def ofText? (text : String) : Option Document :=
  match root? text with
  | none => none
  | some none => some .null
  | some (some n) => n.document .core

end Yaml

end NestedSelection
