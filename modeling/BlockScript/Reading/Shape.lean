import BlockScript.Block.Basic

/-!
# The shape of an argument

The brackets around an argument, and for an insert also its text, tell its shape. Without brackets a
text is a block of a script.
-/

namespace BlockScript

/-- Whether a character can stand in a number, capital or small. -/
def isNumberChar (c : Char) : Bool :=
  ('0' ≤ c && c ≤ '9') || c == 'e' || c == 'E' || c == '.' || c == '-'

/-- Whether a text ends in the sign of a menu. -/
def endsInMenu (t : Text) : Bool := " v".toList.isSuffixOf t

/-- Whether a text is that of a number insert: nothing, or a number, which the sign of a menu in
capital or small letters may follow. -/
def isNumberText (t : Text) : Bool :=
  t.all isNumberChar ||
    (match t.reverse with
      | c :: ' ' :: number => (c == 'v' || c == 'V') && !number.isEmpty && number.all isNumberChar
      | _ => false)

/-- Whether a character is a hexadecimal digit, capital or small. -/
def isHexChar (c : Char) : Bool :=
  ('0' ≤ c && c ≤ '9') || ('a' ≤ c && c ≤ 'f') || ('A' ≤ c && c ≤ 'F')

/-- Whether a text is a colour: a number sign and three or six hexadecimal digits. -/
def isColorText : Text → Bool
  | '#' :: digits => (digits.length == 3 || digits.length == 6) && digits.all isHexChar
  | _ => false

namespace Shape

/-- The shape of a block in the given brackets. -/
def ofBlock : Option Bracket → Shape
  | some .round => .embedded
  | some .angle => .boolean
  | _ => .stack

/-- The shape of an argument that may be an insert, by its brackets and its text. -/
def ofArgument (bracket : Option Bracket) (t : Text) : Shape :=
  match bracket with
  | some .round =>
    if endsInMenu t then .numberDropdown else if isNumberText t then .number else .reporter
  | some .square =>
    if isColorText t then .color else if endsInMenu t then .dropdown else .string
  | some .angle => .boolean
  | _ => .stack

/-- The shape of a parameter in the header of a defined block. -/
def ofParameter : Option Bracket → Shape
  | some .angle => .boolean
  | _ => .reporter

end Shape

end BlockScript
