/-!
# Blank and control characters

The two character classes that decide where text is cut:

* `isBlank` — the White_Space property of the Unicode standard: the ASCII blanks, the
  next-line and no-break spaces, the typographic spaces of the General Punctuation block,
  the line and paragraph separators and the ideographic space.
* `isControl` — the control characters, general category Cc: `U+0000`–`U+001F` and
  `U+007F`–`U+009F`.

`trim`, `trimStart` and `trimEnd` strip blanks in this sense from the ends of a text.
-/

namespace Jianpu.Text

/-- The White_Space property: twenty-five code points. -/
def isBlank (c : Char) : Bool :=
  let n := c.toNat
  (0x09 ≤ n && n ≤ 0x0D) || n == 0x20 || n == 0x85 || n == 0xA0 || n == 0x1680 ||
    (0x2000 ≤ n && n ≤ 0x200A) || n == 0x2028 || n == 0x2029 || n == 0x202F ||
    n == 0x205F || n == 0x3000

def isControl (c : Char) : Bool :=
  let n := c.toNat
  n ≤ 0x1F || (0x7F ≤ n && n ≤ 0x9F)

def dropBlanks (cs : List Char) : List Char :=
  cs.dropWhile isBlank

def trimStartChars (cs : List Char) : List Char :=
  dropBlanks cs

def trimEndChars (cs : List Char) : List Char :=
  (dropBlanks cs.reverse).reverse

def trimChars (cs : List Char) : List Char :=
  trimEndChars (trimStartChars cs)

def trim (s : String) : String :=
  String.ofList (trimChars s.toList)

def trimStart (s : String) : String :=
  String.ofList (trimStartChars s.toList)

def trimEnd (s : String) : String :=
  String.ofList (trimEndChars s.toList)

theorem isBlank_space : isBlank ' ' = true := rfl

theorem isControl_newline : isControl '\n' = true := rfl

end Jianpu.Text
