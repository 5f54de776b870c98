import BlockScript.Block.Basic

/-!
# Overrides

A block can end in two colons and words that set its category, its flag or its shape. Words that mean
nothing are complained about. Of several words for one attribute the last counts.
-/

namespace BlockScript

/-- The meaning of a word after two colons. -/
inductive Override where
  | category (c : Category)
  | flag (f : Flag)
  | shape (s : Shape)
  | unknown (word : Text)
  deriving DecidableEq

namespace Override

/-- The shapes that a block can be given. -/
def shapes : List Shape := [.hat, .cap, .stack, .embedded, .boolean, .reporter]

/-- The category that a word names. -/
def category? (word : Text) : Option Category := Category.standard.find? (·.name == word)

/-- The flag that a word names. -/
def flag? (word : Text) : Option Flag := Flag.standard.find? (·.name == word)

/-- The shape that a word names. -/
def shape? (word : Text) : Option Shape := shapes.find? (·.name == word)

/-- The meaning of a word. -/
def ofWord (word : Text) : Override :=
  match category? word with
  | some c => .category c
  | none =>
    match flag? word with
    | some f => .flag f
    | none =>
      match shape? word with
      | some s => .shape s
      | none => .unknown word

/-- Set what the override says. -/
def apply (a : Attrs) : Override → Attrs
  | .category c => { a with category := some c }
  | .flag f => { a with flag := some f }
  | .shape s => { a with shape := some s }
  | .unknown _ => a

/-- Set what all overrides say, one after the other. -/
def applyAll (overrides : List Override) (a : Attrs) : Attrs := overrides.foldl apply a

/-- The word of an override that means nothing. -/
def unknownWord? : Override → Option Text
  | .unknown word => some word
  | _ => none

/-- Whether a character can stand in the words after the colons: a letter, a line or a space. -/
def isWordChar (c : Char) : Bool := c.isAlpha || c == '-' || c == ' '

/-- A spec without its overrides, and their words. The colons are the last thing in front of the words;
a spec with a line break in front of them has no overrides. -/
def split (spec : Text) : Text × List Text :=
  let back := spec.reverse
  match back.dropWhile isWordChar with
  | ':' :: ':' :: front =>
    if front.contains '\n' then (spec, [])
    else (Text.trimRight front.reverse, Text.words (back.takeWhile isWordChar).reverse)
  | _ => (spec, [])

end Override

end BlockScript
