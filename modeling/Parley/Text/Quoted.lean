import Parley.Text.Unseen

/-!
# Quoted text

`quoted` shows a text between double quotes, so that every character of it can be told from the page: quotes and
backslashes are escaped, line feed, carriage return, tab and NUL have short escapes, and every other character that does
not show as itself is written by its code point. An apostrophe needs no escape between double quotes.
-/

namespace Parley.Text

/-- The code point in lower-case hexadecimal between braces. -/
def escapeCode (c : Char) : List Char := ['\\', 'u', '\x7b'] ++ Nat.toDigits 16 c.toNat ++ ['\x7d']

/-- How one character is shown between double quotes. -/
def quotedChar (c : Char) : List Char :=
  match c with
  | '"' => ['\\', '"']
  | '\\' => ['\\', '\\']
  | '\n' => ['\\', 'n']
  | '\r' => ['\\', 'r']
  | '\t' => ['\\', 't']
  | '\x00' => ['\\', '0']
  | c =>
    if c.toNat < 0x20 || c.toNat == 0x7F then escapeCode c
    else if c.toNat < 0x7F then [c]
    else if isUnseen c then escapeCode c
    else [c]

/-- A text between double quotes. -/
def quoted (s : String) : String := String.ofList (['"'] ++ s.toList.flatMap quotedChar ++ ['"'])

end Parley.Text
