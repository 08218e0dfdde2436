import Stencil.Text.Range.Alphabetic
import Stencil.Text.Range.Later
import Stencil.Text.Range.Mark
import Stencil.Text.Range.Number

/-!
The classes of characters that tags, patterns and the names of the script language tell apart.

Each is a Unicode property. Below code point 128 it is decided by the ASCII rule alone, so
the tables hold only what lies beyond. Tags and patterns follow version 16 of Unicode, and
names follow version 17, which has more letters and numbers.
-/

namespace Stencil.Text

/-- Some interval of the table holds the character. -/
def inRange (table : List (Nat × Nat)) (c : Char) : Bool :=
  table.any fun r => r.1 ≤ c.toNat && c.toNat ≤ r.2

/-- The Unicode property White_Space. -/
def isBlank (c : Char) : Bool :=
  let n := c.toNat
  (9 ≤ n && n ≤ 13) || n == 0x20 || n == 0x85 || n == 0xA0 || n == 0x1680 ||
    (0x2000 ≤ n && n ≤ 0x200A) || n == 0x2028 || n == 0x2029 || n == 0x202F ||
    n == 0x205F || n == 0x3000

/-- The Unicode property Alphabetic. -/
def isAlphabetic (c : Char) : Bool :=
  if c.toNat < 128 then c.isAlpha else inRange Range.alphabetic c

/-- A decimal digit of any script. -/
def isDecimalDigit (c : Char) : Bool :=
  if c.toNat < 128 then c.isDigit else inRange Range.decimalDigit c

/-- A number of any kind: a decimal digit, a letter-like number or another number. -/
def isNumeric (c : Char) : Bool :=
  isDecimalDigit c || inRange Range.otherNumber c

/-- Connector punctuation: the underscore and its relatives. -/
def isConnector (c : Char) : Bool :=
  c == '_' || inRange
    [(0x203F, 0x2040), (0x2054, 0x2054), (0xFE33, 0xFE34), (0xFE4D, 0xFE4F), (0xFF3F, 0xFF3F)] c

/-- A word character: a letter, a combining mark, a decimal digit, connector punctuation or
one of the two joiners. -/
def isWord (c : Char) : Bool :=
  isAlphabetic c || isDecimalDigit c || isConnector c ||
    (128 ≤ c.toNat && (inRange Range.mark c || inRange [(0x200C, 0x200D)] c))

/-- A letter of a name. -/
def isLetter (c : Char) : Bool := isAlphabetic c || inRange Range.laterAlphabetic c

/-- A letter or a number of a name. -/
def isLetterOrNumber (c : Char) : Bool :=
  isLetter c || isNumeric c || inRange Range.laterNumber c

/-! ### Trimming -/

/-- The text without the blanks at its end. -/
def trimEnd (cs : List Char) : List Char := (cs.reverse.dropWhile isBlank).reverse

/-- The text without the blanks at its two ends. -/
def trim (cs : List Char) : List Char := trimEnd (cs.dropWhile isBlank)

/-! ### Lines -/

/-- The number of line breaks in a text. -/
def breaks (cs : List Char) : Nat := cs.count '\n'

@[simp] theorem breaks_nil : breaks [] = 0 := rfl

@[simp] theorem breaks_append (a b : List Char) : breaks (a ++ b) = breaks a + breaks b :=
  List.count_append

end Stencil.Text
