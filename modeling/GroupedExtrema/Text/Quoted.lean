import GroupedExtrema.Text.Printable

/-!
# Quoted text

Text as it is shown in messages: between quotes, with escapes for quotes, backslashes, the common
control characters and whatever would not be seen as a character of its own.
-/

namespace GroupedExtrema.Text

/-- The escape of a character by its number. -/
def numericEscape (c : Char) : List Char :=
  ['\\', 'u', '\x7b'] ++ Nat.toDigits 16 c.toNat ++ ['\x7d']

/-- A character as it is shown between quotes. -/
def shown (c : Char) : List Char :=
  match c with
  | '\x00' => ['\\', '0']
  | '\t' => ['\\', 't']
  | '\r' => ['\\', 'r']
  | '\n' => ['\\', 'n']
  | '\\' => ['\\', '\\']
  | '"' => ['\\', '"']
  | c => if isPrintable c then [c] else numericEscape c

/-- A text between quotes. -/
def quoted (cs : List Char) : String :=
  String.ofList ('"' :: (cs.flatMap shown ++ ['"']))

end GroupedExtrema.Text
