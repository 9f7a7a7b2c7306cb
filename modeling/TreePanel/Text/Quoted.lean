import TreePanel.Decimal.Text
import TreePanel.Text.Unprintable

/-!
# Quoted text

How a text is shown within a message: between double quotes, with a backslash before quotes and
backslashes, letters for the common controls, and every other character that is not printed given
by its number in hexadecimal.
-/

namespace TreePanel.Text

/-- The hexadecimal digits of a number, the last one first. -/
def lowHexDigits (n : Nat) : List Char :=
  if n < 16 then [hexDigit n] else hexDigit (n % 16) :: lowHexDigits (n / 16)
where
  /-- The character of a digit. -/
  hexDigit (d : Nat) : Char :=
    if d < 10 then Decimal.digitChar d else Char.ofNat ('a'.toNat + (d - 10))

/-- A number in hexadecimal. -/
def hexText (n : Nat) : List Char := (lowHexDigits n).reverse

/-- A character within quotes. -/
def quoteChar (c : Char) : List Char :=
  match c with
  | '\x00' => ['\x5c', '0']
  | '\t' => ['\x5c', 't']
  | '\r' => ['\x5c', 'r']
  | '\n' => ['\x5c', 'n']
  | '\x5c' => ['\x5c', '\x5c']
  | '\x22' => ['\x5c', '\x22']
  | c => if isUnprintable c then ['\x5c', 'u', '\x7b'] ++ hexText c.toNat ++ ['\x7d'] else [c]

/-- A text within quotes. -/
def quoted (text : List Char) : List Char := '\x22' :: text.flatMap quoteChar ++ ['\x22']

end TreePanel.Text
