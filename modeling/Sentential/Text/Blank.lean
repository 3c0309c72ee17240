/-!
# `Sentential.Text.Blank` — two classes of blank characters

A sentence and a command line do not skip the same characters. Between the parts of a sentence only the
four **layout blanks** may stand; a command line is cut at every **white space** character of Unicode.

## Contents
* `isBlank` — space, tab, carriage return, line feed
* `isWhiteSpace` — the property White_Space
-/

namespace Sentential.Text

/-- The layout blanks that may stand before any part of a sentence. -/
def isBlank (c : Char) : Bool :=
  c == ' ' || c == '\t' || c == '\r' || c == '\n'

/-- The characters with the Unicode property White_Space. -/
def isWhiteSpace (c : Char) : Bool :=
  let n := c.toNat
  (9 ≤ n && n ≤ 13) || n == 0x20 || n == 0x85 || n == 0xA0 || n == 0x1680 ||
    (0x2000 ≤ n && n ≤ 0x200A) || n == 0x2028 || n == 0x2029 || n == 0x202F || n == 0x205F || n == 0x3000

end Sentential.Text
