import Jianpu.Text.Printable
/-!
# Quoted text in reports

A report that shows a piece of text puts it between double quotes and escapes every
character that would not show plainly there:

* the quote and the backslash get a backslash before them, and NUL, tab, carriage return and
  line feed are written `\0`, `\t`, `\r` and `\n`;
* an unprintable character, which would show nothing or fuse with the quote or the character
  before it, is written `\u{…}` with the code point in lower-case hexadecimal;
* every other character stands for itself.

* `unicodeEscape` — the escape of a code point.
* `quoteChar` — how one character is written.
* `quoted` — a text between quotes.
-/

namespace Jianpu.Text

def unicodeEscape (n : Nat) : String :=
  "\\u\x7b" ++ String.ofList (Nat.toDigits 16 n) ++ "\x7d"

def quoteChar (c : Char) : String :=
  if c == '"' then "\\\"" else if c == '\\' then "\\\\"
  else if c == '\n' then "\\n" else if c == '\r' then "\\r" else if c == '\t' then "\\t"
  else if c.toNat == 0 then "\\0"
  else if !isPrintable c then unicodeEscape c.toNat
  else String.singleton c

def quoted (s : String) : String :=
  "\"" ++ String.join (s.toList.map quoteChar) ++ "\""

theorem quoteChar_quote : quoteChar '"' = "\\\"" := rfl

end Jianpu.Text
