import BlockScript.Json.Numeral
import BlockScript.Text.Quoted

/-!
# JSON values in messages

In a message a value is shown with quoted texts, and with the words `None`, `True` and `False` for null
and the truth values.
-/

namespace BlockScript.Json

mutual

/-- A value as a message shows it. -/
def shown : Json → Text
  | .null => "None".toList
  | .bool b => if b then "True".toList else "False".toList
  | .num n => n.text
  | .str t => t.quoted
  | .arr items => '[' :: (", ".toList.intercalate (shownItems items)) ++ [']']
  | .obj fields => '\x7b' :: (", ".toList.intercalate (shownFields fields)) ++ ['\x7d']

/-- The items of an array as a message shows them. -/
def shownItems : List Json → List Text
  | [] => []
  | item :: items => shown item :: shownItems items

/-- The fields of an object as a message shows them. -/
def shownFields : List (Text × Json) → List Text
  | [] => []
  | (name, value) :: fields => (name.quoted ++ ": ".toList ++ shown value) :: shownFields fields

end

end BlockScript.Json
