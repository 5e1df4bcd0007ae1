import NestedSelection.Binary64.Text
import NestedSelection.Text.Quoted

/-! # Why a text is not the JSON that was asked for

A text can end too early, it can be malformed, or it can be well-formed so far and hold something
else than what was expected at that place.
-/

namespace NestedSelection

namespace Json

inductive Found where
  | null
  | boolean (b : Bool)
  | integer (n : Int)
  | real (x : Binary64)
  | text (s : String)
  | map
  | sequence
deriving DecidableEq, Repr

inductive Expected where
  | boolean
  | map
  | selection
  | unit
  | variant
deriving DecidableEq, Repr

inductive Mismatch where
  | type (found : Found) (expected : Expected)
  | duplicateField (name : String)
  | unknownVariant (name : String) (known : List String)
  | noLayout (document : String)
deriving DecidableEq, Repr

inductive ReadError where
  | endOfText
  | malformed
  | mismatch (m : Mismatch)
deriving DecidableEq, Repr

def Found.message : Found → String
  | .null => "null"
  | .boolean b => "boolean `" ++ (if b then "true" else "false") ++ "`"
  | .integer n => "integer `" ++ toString n ++ "`"
  | .real x => "floating point `" ++ Layout.json.render x ++ "`"
  | .text s => "string " ++ quoteDisplay s
  | .map => "map"
  | .sequence => "sequence"

def Expected.message : Expected → String
  | .boolean => "a boolean"
  | .map => "a map"
  | .selection => "struct SelectionConfig"
  | .unit => "unit"
  | .variant => "variant identifier"

def Mismatch.message : Mismatch → String
  | .type found expected =>
    "invalid type: " ++ found.message ++ ", expected " ++ expected.message
  | .duplicateField name => "duplicate field `" ++ name ++ "`"
  | .unknownVariant name known =>
    "unknown variant `" ++ name ++ "`, expected " ++
      " or ".intercalate (known.map fun k => "`" ++ k ++ "`")
  | .noLayout document => "data did not match any variant of untagged enum " ++ document

end Json

end NestedSelection
