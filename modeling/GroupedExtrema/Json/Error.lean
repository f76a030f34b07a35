import GroupedExtrema.Decimal.Text
import GroupedExtrema.Layout
import GroupedExtrema.Text.Quoted

/-!
# Errors of reading JSON

A text fails to be read in one of three ways: it is not JSON, it ends too early, or it is JSON for
something else than what was asked for. Only the last kind has details.
-/

namespace GroupedExtrema.Json

/-- What a text holds in place of what was expected. -/
inductive Found where
  | null
  | boolean (value : Bool)
  | integer (value : Int)
  | float (value : Float64Value)
  | string (value : List Char)
  | sequence
  | map
  /-- The bare name of a variant. -/
  | unitVariant

/-- Text of what was found. -/
def Found.display : Found → String
  | null => "null"
  | boolean true => "boolean `true`"
  | boolean false => "boolean `false`"
  | integer i => "integer `" ++ toString i ++ "`"
  | float x => "floating point `" ++ x.text .literal ++ "`"
  | string s => "string " ++ Text.quoted s
  | sequence => "sequence"
  | map => "map"
  | unitVariant => "unit variant"

/-- Why JSON is not what was asked for. -/
inductive Cause where
  /-- A value of another type. -/
  | invalidType (found : Found) (expected : String)
  /-- A number outside of the range of its type. -/
  | invalidValue (value : Int) (expected : String)
  /-- A sequence with too few elements for a record. -/
  | invalidLength (length : Nat) (record : String) (fields : Nat)
  | missingField (name : String)
  | duplicateField (name : String)
  | unknownVariant (name : List Char) (known : List String)
  /-- A number of bits that no layout has. -/
  | chunkBits (bits : Nat)

namespace Cause

/-- The names that were possible. -/
def oneOf : List String → String
  | [a, b] => "`" ++ a ++ "` or `" ++ b ++ "`"
  | [a] => "`" ++ a ++ "`"
  | names => "one of " ++ ", ".intercalate (names.map fun n => "`" ++ n ++ "`")

/-- The message of a cause. -/
def message : Cause → String
  | invalidType found expected =>
    "invalid type: " ++ found.display ++ ", expected " ++ expected
  | invalidValue value expected =>
    "invalid value: " ++ (Found.integer value).display ++ ", expected " ++ expected
  | invalidLength length record fields =>
    "invalid length " ++ toString length ++ ", expected struct " ++ record ++ " with "
      ++ toString fields ++ " elements"
  | missingField name => "missing field `" ++ name ++ "`"
  | duplicateField name => "duplicate field `" ++ name ++ "`"
  | unknownVariant name known =>
    "unknown variant `" ++ String.ofList name ++ "`, expected " ++ oneOf known
  | chunkBits n => ChunkLayout.rangeMessage n

end Cause

/-- Why a text could not be read. -/
inductive Error where
  /-- The text is not JSON. -/
  | malformed
  /-- The text ends before the value does. -/
  | truncated
  /-- The value is not what was asked for. -/
  | data (cause : Cause)

namespace Error

/-- The kind of an error. -/
def category : Error → String
  | malformed => "syntax"
  | truncated => "eof"
  | data _ => "data"

/-- What the value should have been. -/
def detail? : Error → Option String
  | data cause => some cause.message
  | _ => none

end Error

/-- What a reader answers: a value and the text after it. -/
abbrev Result (α : Type) := Except Error (α × List Char)

end GroupedExtrema.Json
