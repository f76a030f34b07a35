/-!
# Writing JSON

Values are written without blanks, records as maps in the order of their fields. Names and keys hold
no character that would need an escape.
-/

namespace GroupedExtrema.Json

/-- The decimal digits of a natural number. -/
def writeNat (n : Nat) : List Char := Nat.toDigits 10 n

/-- An integer with a minus sign if it is negative. -/
def writeInt : Int → List Char
  | .ofNat n => writeNat n
  | .negSucc n => '-' :: writeNat (n + 1)

/-- A name between quotes. -/
def writeName (name : String) : List Char := '"' :: (name.toList ++ ['"'])

/-- The members of a map with commas between them. -/
def writeMembers : List (String × List Char) → List Char
  | [] => []
  | [(key, value)] => writeName key ++ ':' :: value
  | (key, value) :: ms => writeName key ++ ':' :: (value ++ ',' :: writeMembers ms)

/-- A map. -/
def writeMap (ms : List (String × List Char)) : List Char := '{' :: (writeMembers ms ++ ['}'])

end GroupedExtrema.Json
