import BlockScript.Vocabulary.Basic
import BlockScript.Vocabulary.Bundle

/-!
# Loading packs

A lexicon starts with English. Packs are loaded into it one by one, and a reset takes it back to
English. A pack that is refused changes nothing. The vocabulary at one time is a value, so later loads
do not touch what has been read with it.
-/

namespace BlockScript

/-- A vocabulary that packs are loaded into, and what a reset takes it back to. -/
structure Lexicon where
  initial : Vocabulary
  current : Vocabulary
  deriving DecidableEq

namespace Lexicon

/-- A lexicon with English alone. -/
def english (folded : Bool) : Lexicon := ⟨Vocabulary.english folded, Vocabulary.english folded⟩

/-- Add a pack that is known to be valid. -/
def add (l : Lexicon) (p : Pack) : Lexicon := { l with current := l.current.add p }

/-- Load a pack given as JSON. The pack is part of the answer. -/
def load (l : Lexicon) (value : Json) : Except LoadError (Pack × Lexicon) :=
  match Pack.ofJson value with
  | .ok p => .ok (p, l.add p)
  | .error e => .error (.invalid e)

/-- Load a pack from the contents of a file. -/
def loadFile (l : Lexicon) (file contents : Text) : Except LoadError (Pack × Lexicon) :=
  match Pack.ofFile file contents with
  | .ok p => .ok (p, l.add p)
  | .error e => .error e

/-- Load a bundled pack, in view of the folders around the bundled files. -/
def loadBundled (around : List Folder) (l : Lexicon) (name : Text) :
    Except LoadError (Pack × Lexicon) :=
  match Bundle.find? around name with
  | some value => l.load value
  | none => .error (.notBundled name)

/-- Forget all packs but English. -/
def reset (l : Lexicon) : Lexicon := { l with current := l.initial }

/-- The codes of the languages, in the order in which they were first loaded. -/
def codes (l : Lexicon) : List Text := Dictionary.keys l.current.languages

/-- A lexicon with bundled packs and then packs given as JSON. -/
def withPacks (around : List Folder) (folded : Bool) (names : List Text) (packs : List Json) :
    Except LoadError Lexicon := do
  let l ← names.foldlM (fun l name => (loadBundled around l name).map (·.2)) (english folded)
  packs.foldlM (fun l value => (l.load value).map (·.2)) l

/-- A lexicon in a few words. -/
def describe (l : Lexicon) : Text :=
  "<BlockDatabase languages=[".toList ++ ", ".toList.intercalate (l.codes.map Text.quoted) ++
    "]>".toList

end Lexicon

/-- A pack in a few words. -/
def Pack.describe (p : Pack) : Text :=
  "<Language \"".toList ++ p.code ++ "\" (".toList ++ Text.ofNat p.blocks.length ++
    " blocks)>".toList

end BlockScript
