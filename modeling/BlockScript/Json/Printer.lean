import BlockScript.Json.Numeral

/-!
# Writing JSON

A value is written on one line or over several, with the fields of objects in their own order or
sorted by name, and with characters beyond ASCII as they are or escaped.
-/

namespace BlockScript.Json

/-- The choices that a written form leaves open. -/
structure Style where
  /-- The columns by which a level is indented; without it everything is on one line. -/
  indent : Option Nat
  /-- Whether fields are sorted by name, code point by code point. -/
  sorted : Bool
  /-- Whether everything but printable ASCII is escaped. -/
  ascii : Bool

/-- Everything on one line, in the order of the value. -/
def Style.compact : Style := ⟨none, false, false⟩

/-- One item or field to a line, sorted by name. -/
def Style.pretty : Style := ⟨some 4, true, false⟩

/-- One item or field to a line in the order of the value, in ASCII. -/
def Style.display : Style := ⟨some 4, false, true⟩

/-- A code unit as an escape. -/
def unitEscape (n : Nat) : Text := "\\u".toList ++ Text.ofNatHex 4 n

/-- A character by number: one code unit, or a pair of surrogates. -/
def numberEscape (c : Char) : Text :=
  let n := c.toNat
  if n < 0x10000 then unitEscape n
  else unitEscape (0xd800 + (n - 0x10000) / 0x400) ++ unitEscape (0xdc00 + (n - 0x10000) % 0x400)

/-- A character inside a string. -/
def escape (ascii : Bool) (c : Char) : Text :=
  if c = '"' then "\\\"".toList
  else if c = '\\' then "\\\\".toList
  else if c = '\n' then "\\n".toList
  else if c = '\r' then "\\r".toList
  else if c = '\t' then "\\t".toList
  else if c = '\x08' then "\\b".toList
  else if c = '\x0c' then "\\f".toList
  else if c.toNat < 0x20 ∨ (ascii ∧ 0x7f ≤ c.toNat) then numberEscape c
  else [c]

/-- A string in its quotes. -/
def writeString (ascii : Bool) (t : Text) : Text := '"' :: t.flatMap (escape ascii) ++ ['"']

/-- The line break in front of an item at the given level, if there is one. -/
def Style.lineBreak (style : Style) (level : Nat) : Text :=
  match style.indent with
  | some width => '\n' :: List.replicate (width * level) ' '
  | none => []

/-- What stands between two items at the given level. -/
def Style.separator (style : Style) (level : Nat) : Text :=
  match style.indent with
  | some _ => ',' :: style.lineBreak level
  | none => ", ".toList

/-- Items between brackets, at the given level. -/
def Style.enclose (style : Style) (level : Nat) (opener closer : Char) (items : List Text) : Text :=
  if items = [] then [opener, closer]
  else
    opener :: style.lineBreak (level + 1) ++ (style.separator (level + 1)).intercalate items ++
      style.lineBreak level ++ [closer]

/-- Fields in the order in which they are written. -/
def Style.arrange (style : Style) (fields : List (Text × Text)) : List (Text × Text) :=
  if style.sorted then fields.mergeSort fun a b => Text.notAfter a.1 b.1 else fields

mutual

/-- A value at the given level of nesting. -/
def writeAt (style : Style) (level : Nat) : Json → Text
  | .null => "null".toList
  | .bool b => if b then "true".toList else "false".toList
  | .num n => n.text
  | .str t => writeString style.ascii t
  | .arr items => style.enclose level '[' ']' (writeItems style (level + 1) items)
  | .obj fields =>
    style.enclose level '\x7b' '\x7d'
      ((style.arrange (writeFields style (level + 1) fields)).map fun f =>
        writeString style.ascii f.1 ++ ": ".toList ++ f.2)

/-- The items of an array. -/
def writeItems (style : Style) (level : Nat) : List Json → List Text
  | [] => []
  | item :: items => writeAt style level item :: writeItems style level items

/-- The fields of an object with their values written. -/
def writeFields (style : Style) (level : Nat) : List (Text × Json) → List (Text × Text)
  | [] => []
  | (name, value) :: fields => (name, writeAt style level value) :: writeFields style level fields

end

/-- The text of a value. -/
def write (style : Style) (j : Json) : Text := writeAt style 0 j

end BlockScript.Json
