/-
  DependencyScope.Text.Quoted — the quoted form of a text or of a character in messages.

  A text stands between double quotes and a character between single quotes.  The quote that
  delimits is escaped, the other one is not; the backslash, NUL, tab, line feed and carriage return
  have two-character escapes; every other unprintable character is written as `\u{hex}` with
  lowercase digits and no padding; the rest stands as it is.
-/
import DependencyScope.Text.Printable

namespace DependencyScope.Text

/-- A number in hexadecimal, with lowercase digits and no padding. -/
def hex (n : Nat) : String := String.ofList (Nat.toDigits 16 n)

/-- The escaped form of one character inside the quote `quote`. -/
def escapeChar (quote c : Char) : List Char :=
  match c with
  | '\x00' => ['\\', '0']
  | '\t' => ['\\', 't']
  | '\n' => ['\\', 'n']
  | '\r' => ['\\', 'r']
  | '\\' => ['\\', '\\']
  | c =>
    if c = quote then ['\\', c]
    else if isPrintable c then [c]
    else ['\\', 'u', '\x7b'] ++ (hex c.toNat).toList ++ ['\x7d']

/-- The text between double quotes, escaped. -/
def quoted (s : String) : String :=
  String.ofList ('\x22' :: s.toList.flatMap (escapeChar '\x22') ++ ['\x22'])

/-- The character between single quotes, escaped. -/
def quotedChar (c : Char) : String := String.ofList ('\x27' :: escapeChar '\x27' c ++ ['\x27'])

end DependencyScope.Text
