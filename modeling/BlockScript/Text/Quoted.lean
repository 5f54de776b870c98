import BlockScript.Text.Basic

/-!
# Quoted text

Text is quoted with single quotes, or with double quotes where it holds a single quote and no double
quote. Inside, the quotation mark and the backslash are escaped, and characters that leave no trace
on paper are written by number.
-/

namespace BlockScript.Text

/-- Whether a character is written by number inside quotes: the control characters, the soft hyphen
and every blank but the space. -/
def isUnseen (c : Char) : Bool :=
  let n := c.toNat
  n < 0x20 || (0x7f ≤ n && n ≤ 0xa0) || n == 0xad || (isBlank c && c ≠ ' ')

/-- A character inside quotes. -/
def quotedChar (mark c : Char) : Text :=
  if c = mark ∨ c = '\\' then ['\\', c]
  else if c = '\t' then "\\t".toList
  else if c = '\n' then "\\n".toList
  else if c = '\r' then "\\r".toList
  else if isUnseen c then
    if c.toNat < 0x100 then "\\x".toList ++ ofNatHex 2 c.toNat
    else "\\u".toList ++ ofNatHex 4 c.toNat
  else [c]

/-- The quotation mark for a text. -/
def quotationMark (t : Text) : Char :=
  if t.contains '\'' ∧ ¬ t.contains '"' then '"' else '\''

/-- A text in quotes. -/
def quoted (t : Text) : Text :=
  let mark := quotationMark t
  mark :: t.flatMap (quotedChar mark) ++ [mark]

end BlockScript.Text
