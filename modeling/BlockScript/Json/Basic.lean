import BlockScript.Dictionary

/-!
# JSON values

The fields of an object keep their order. Numbers keep their written value: integers have any size,
and a number with a fraction or an exponent is a whole number times a power of ten.
-/

namespace BlockScript

/-- A number as JSON text can write it. -/
inductive Numeral where
  /-- A whole number written without fraction and exponent. -/
  | whole (n : Int)
  /-- The number `± digits · 10 ^ exponent`. -/
  | decimal (negative : Bool) (digits : Nat) (exponent : Int)
  /-- A number beyond all others. -/
  | infinite (negative : Bool)
  /-- No number at all. -/
  | undefined
  deriving DecidableEq, Repr

/-- A JSON value. -/
inductive Json where
  | null
  | bool (b : Bool)
  | num (n : Numeral)
  | str (t : Text)
  | arr (items : List Json)
  | obj (fields : List (Text × Json))

namespace Json

/-- The value under a key of an object. -/
def field? (key : Text) : Json → Option Json
  | .obj fields => Dictionary.get? key fields
  | _ => none

/-- A text value, given as a literal. -/
def ofString (s : String) : Json := .str s.toList

/-- An object, its keys given as literals. -/
def record (fields : List (String × Json)) : Json := .obj (fields.map fun f => (f.1.toList, f.2))

/-- A value that may be missing, written as null. -/
def orNull : Option Json → Json
  | some j => j
  | none => .null

/-- A list of texts. -/
def texts (ts : List Text) : Json := .arr (ts.map .str)

/-- A natural number. -/
def ofNat (n : Nat) : Json := .num (.whole n)

mutual

/-- How many arrays and objects there are inside one another in a value. -/
def depth : Json → Nat
  | .arr items => depthItems items + 1
  | .obj fields => depthFields fields + 1
  | _ => 0

/-- How many arrays and objects there are inside one another in the items of an array. -/
def depthItems : List Json → Nat
  | [] => 0
  | item :: items => max (depth item) (depthItems items)

/-- How many arrays and objects there are inside one another in the fields of an object. -/
def depthFields : List (Text × Json) → Nat
  | [] => 0
  | (_, value) :: fields => max (depth value) (depthFields fields)

end

end Json

end BlockScript
