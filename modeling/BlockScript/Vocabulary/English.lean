import BlockScript.Vocabulary.Pack
import BlockScript.Vocabulary.Palette

/-!
# The English pack

In English the spec of a block is its name. Blocks with an image can be written in words.
-/

namespace BlockScript

/-- The English pack. -/
def englishPack : Pack where
  code := "en".toList
  blocks := Dictionary.ofList (palette.flatMap fun group => group.2.map fun e => (e.spec, e.spec))
  aliases := Pack.ofStrings
    [("turn left _ degrees", "turn @arrow-ccw _ degrees"),
     ("turn ccw _ degrees", "turn @arrow-ccw _ degrees"),
     ("turn ↺ _ degrees", "turn @arrow-ccw _ degrees"),
     ("turn right _ degrees", "turn @arrow-cw _ degrees"),
     ("turn cw _ degrees", "turn @arrow-cw _ degrees"),
     ("turn ↻ _ degrees", "turn @arrow-cw _ degrees"),
     ("when gf clicked", "when @green-flag clicked"),
     ("when flag clicked", "when @green-flag clicked"),
     ("when green flag clicked", "when @green-flag clicked"),
     ("when ⚑ clicked", "when @green-flag clicked")]
  headerWords := ["define"].map String.toList
  signPhrases := ["when distance"].map String.toList
  mathFunctions :=
    ["abs", "floor", "ceiling", "sqrt", "sin", "cos", "tan", "asin", "acos", "atan", "ln",
     "log", "e ^", "10 ^"].map String.toList
  otherScripts := ["other scripts in sprite", "other scripts in stage"].map String.toList

end BlockScript
