import SpokenArithmetic.Text.Printable
import SpokenArithmetic.Text.GraphemeExtend

/-!
# Quoted text

Text between double quotes, in which everything that would not show is written
out.  Quotes, backslashes and the common controls have a short form; other
unprintable characters and characters that extend the one before are written
by number.
-/

namespace SpokenArithmetic
namespace Text

/-- The number of a character in lowercase hexadecimal digits, in the form
that names a character inside quotes. -/
def escapeByNumber (c : Char) : List Char :=
  ['\\', 'u', '\x7b'] ++ Nat.toDigits 16 c.toNat ++ ['\x7d']

/-- What stands for a character inside quotes. -/
def escape (c : Char) : List Char :=
  match c with
  | '"' => ['\\', '"']
  | '\\' => ['\\', '\\']
  | '\t' => ['\\', 't']
  | '\n' => ['\\', 'n']
  | '\r' => ['\\', 'r']
  | '\x00' => ['\\', '0']
  | _ => if isPrintable c && !extendsGrapheme c then [c] else escapeByNumber c

/-- A text in quotes. -/
def quote (s : String) : String :=
  String.ofList ('"' :: s.toList.flatMap escape ++ ['"'])

/-- A list of texts, each in quotes, between square brackets. -/
def quoteList (texts : List String) : String :=
  "[" ++ ", ".intercalate (texts.map quote) ++ "]"

end Text
end SpokenArithmetic
