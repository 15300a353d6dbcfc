import Formulary.Text.Combining
import Formulary.Text.Unseen

/-!
# Quoted text

A text inside a message stands between double quotes. Double quotes, backslashes, characters that
cannot be seen and marks that would be drawn onto their neighbour are written as escapes.

* `quoted`: a text between quotes.
-/

namespace Formulary

/-- The hexadecimal digits of a number, in lower case. -/
def lowerHex (n : Nat) : String := String.ofList (Nat.toDigits 16 n)

/-- A character of a quoted text. -/
def quotedChar (c : Char) : String :=
  match c with
  | '\x00' => "\\0"
  | '\t' => "\\t"
  | '\n' => "\\n"
  | '\r' => "\\r"
  | '"' => "\\\""
  | '\\' => "\\\\"
  | c =>
    if isCombining c || isUnseen c then "\\u\x7b" ++ lowerHex c.toNat ++ "\x7d"
    else String.singleton c

/-- A text between double quotes. -/
def quoted (text : String) : String := "\"" ++ String.join (text.toList.map quotedChar) ++ "\""

end Formulary
