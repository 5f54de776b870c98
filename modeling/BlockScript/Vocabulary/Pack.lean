import BlockScript.Dictionary

/-!
# Language packs

A pack says how blocks are written in one language.
-/

namespace BlockScript

/-- The specs and keywords of a language. -/
structure Pack where
  /-- The code of the language. -/
  code : Text
  /-- The spec of each block that the language has words for, by its name. -/
  blocks : Dictionary Text
  /-- Further specs, with the names of their blocks. -/
  aliases : Dictionary Text := []
  /-- The words that start the header of a defined block. -/
  headerWords : List Text := []
  /-- The phrases after which `<` and `>` are part of the text of a block. -/
  signPhrases : List Text := []
  /-- The names of mathematical functions. -/
  mathFunctions : List Text := []
  /-- The names of the scripts that can be stopped without ending the script that stops them. -/
  otherScripts : List Text := []
  deriving DecidableEq

/-- A dictionary of texts, given as literals. -/
def Pack.ofStrings (entries : List (String × String)) : Dictionary Text :=
  Dictionary.ofList (entries.map fun e => (e.1.toList, e.2.toList))

end BlockScript
