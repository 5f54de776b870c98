import BlockScript.Token
import BlockScript.Vocabulary.English

/-!
# Vocabularies

A vocabulary is what the packs of several languages come to: the block of each key, the specs of each
language, and the keywords of all of them. Packs are added one after the other; under one key the last
entry counts. A text is matched by its key, so case, punctuation and, if marks do not count, accents
play no part.
-/

namespace BlockScript

/-- The blocks and keywords of some languages. -/
structure Vocabulary where
  /-- Whether letters that differ in their marks alone count as the same. -/
  folded : Bool
  /-- The name of a block and a language, by the key of a spec. -/
  index : Dictionary (Text × Text) := []
  /-- The names of blocks by further specs, as they were written. -/
  aliases : Dictionary Text := []
  /-- The last pack of each language, with the known blocks only and without names of images. -/
  languages : Dictionary Pack := []
  /-- The words that start the header of a defined block, in lower case. -/
  headerWords : List Text := []
  /-- The keys of phrases after which `<` and `>` are text. -/
  signPhrases : List Text := []
  /-- The keys of the names of mathematical functions. -/
  mathFunctions : List Text := []
  /-- The keys of the scripts that can be stopped without ending the script that stops them. -/
  otherScripts : List Text := []
  deriving DecidableEq

/-- A block that has no spec in the language in which it was found. -/
structure MissingSpec where
  id : Text
  deriving DecidableEq

/-- A block found by its spec: its attributes, and the text that it is drawn with. -/
structure Found where
  attrs : Attrs
  text : Text
  deriving DecidableEq

namespace Vocabulary

/-- The key of a text. -/
def key (v : Vocabulary) (t : Text) : Text := Text.key v.folded t

/-- The key of a spec. -/
def specKey (v : Vocabulary) (spec : Text) : Text := v.key (Text.padSlots spec)

/-! ## Adding a pack -/

/-- The known blocks of a pack with their specs, without names of images. -/
def knownSpecs (p : Pack) : Dictionary Text :=
  (p.blocks.filter fun e => isKnown e.1).map fun e => (e.1, withoutImageName e.2)

/-- The aliases of known blocks in a pack. -/
def knownAliases (p : Pack) : List (Text × Text) := p.aliases.filter fun e => isKnown e.2

/-- The entries that the specs of a pack make, in order. A spec without a key makes none. -/
def specEntries (v : Vocabulary) (p : Pack) : List (Text × (Text × Text)) :=
  ((knownSpecs p).map fun e => (v.specKey e.2, (e.1, p.code))).filter fun e => e.1 ≠ []

/-- The entries that the aliases of a pack make, in order. -/
def aliasEntries (v : Vocabulary) (p : Pack) : List (Text × (Text × Text)) :=
  (knownAliases p).map fun e => (v.specKey e.1, (e.2, p.code))

/-- The keys of the phrases that are not empty. -/
def keysOf (v : Vocabulary) (phrases : List Text) : List Text :=
  (phrases.filter (· ≠ [])).map v.key

/-- The words that are not blank, trimmed and in lower case. -/
def lowerWords (words : List Text) : List Text :=
  (words.filter fun w => Text.trim w ≠ []).map fun w => Text.lower (Text.trim w)

/-- Add a pack. -/
def add (v : Vocabulary) (p : Pack) : Vocabulary where
  folded := v.folded
  index := Dictionary.putAll (v.aliasEntries p) (Dictionary.putAll (v.specEntries p) v.index)
  aliases := Dictionary.putAll (knownAliases p) v.aliases
  languages := Dictionary.put p.code { p with blocks := knownSpecs p } v.languages
  headerWords := v.headerWords ++ lowerWords p.headerWords
  signPhrases := v.signPhrases ++ v.keysOf p.signPhrases
  mathFunctions := v.mathFunctions ++ v.keysOf p.mathFunctions
  otherScripts := v.otherScripts ++ v.keysOf p.otherScripts

/-- A vocabulary without any language. -/
def empty (folded : Bool) : Vocabulary := { folded := folded }

/-- The English vocabulary in which marks do not count. -/
def englishFolded : Vocabulary := (empty true).add englishPack

/-- The English vocabulary in which marks count. -/
def englishMarked : Vocabulary := (empty false).add englishPack

/-- The English vocabulary. -/
def english (folded : Bool) : Vocabulary := if folded then englishFolded else englishMarked

/-! ## Keywords -/

/-- Whether a key starts with one of the phrases of blocks in which `<` and `>` are part of the
text. -/
def startsWithPhrase (v : Vocabulary) (k : Text) : Bool :=
  v.signPhrases.any fun phrase => phrase.isPrefixOf k

/-- Whether a text starts a block in which `<` and `>` are part of the text. -/
def takesSigns (v : Vocabulary) (t : Text) : Bool := v.startsWithPhrase (v.key t)

/-- How much of a text is looked at in search of these phrases: more than there is in the longest. -/
def signReach (v : Vocabulary) : Nat := (v.signPhrases.map List.length).foldl max 0 + 12

/-- The key of the first characters of a text, if it shows with what phrase the text starts: it is not
shorter than any phrase, and what follows has no influence on it. -/
def tellingKey? (v : Vocabulary) (head : Text) : Option Text :=
  let k := Text.bareKey v.folded head
  if !head.contains 'Σ' && !k.isEmpty && v.signPhrases.all fun phrase => phrase.length ≤ k.length
  then some k else none

/-- The test whether so many characters of a text start a block in which `<` and `>` are part of the
text. What the first of them show is found out once. -/
def signRule (v : Vocabulary) : SignRule := fun t =>
  let reach := v.signReach
  let shown := (v.tellingKey? (t.take reach)).map v.startsWithPhrase
  { holds := fun n =>
      match shown with
      | some answer => if n ≤ reach then v.takesSigns (t.take n) else answer
      | none => v.takesSigns (t.take n) }

/-- The first word that makes a text the header of a defined block: the text starts with it, up to
case and accents, and goes on with a space if at all. -/
def header? (v : Vocabulary) (t : Text) : Option Text :=
  v.headerWords.find? fun word =>
    (t.drop word.length).head?.all (· == ' ') && v.key (t.take word.length) == v.key word

/-! ## Blocks that depend on their arguments -/

/-- A text without the sign of a menu at its end, a line break after it aside. -/
def withoutMenu (t : Text) : Text :=
  match t.reverse with
  | 'v' :: ' ' :: front => front.reverse
  | '\n' :: 'v' :: ' ' :: front => front.reverse ++ ['\n']
  | _ => t

/-- The key of what an argument says, its brackets and its menu aside. -/
def choiceKey (v : Vocabulary) (argument : Text) : Text :=
  v.key (withoutMenu (Bracket.strip argument))

/-- The key of a function of which the space in front of the power sign may be left out. -/
def functionKey (k : Text) : Text :=
  if k = "e^".toList then "e ^".toList
  else if k = "10^".toList then "10 ^".toList
  else k

/-- Whether an argument is a square bracket with a menu in it, on one line. -/
def isSquareMenu (argument : Text) : Bool :=
  match argument with
  | '[' :: rest =>
    match rest.reverse with
    | ']' :: 'v' :: ' ' :: middle => !middle.contains '\n'
    | _ => false
  | _ => false

/-- The attributes of a block in view of its first argument. The block that takes an attribute of a
sprite is a function if that is what it names; the length is that of a list or of a text; stopping
other scripts does not end a script. -/
def refine (v : Vocabulary) (args : List Text) (a : Attrs) : Attrs :=
  match args with
  | [] => a
  | first :: _ =>
    if a.id = some "_ of _".toList then
      let named := functionKey (v.choiceKey first)
      { a with category := some (if v.mathFunctions.contains named then .operators else .sensing) }
    else if a.id = some "length of _".toList then
      { a with category := some (if isSquareMenu first then .list else .operators) }
    else if a.id = some "stop _".toList then
      { a with shape := if v.otherScripts.contains (v.choiceKey first) then none else some .cap }
    else a

/-! ## Finding blocks -/

/-- The spec of a block in a language. -/
def specIn? (v : Vocabulary) (lang id : Text) : Option Text :=
  (Dictionary.get? lang v.languages).bind fun p => Dictionary.get? id p.blocks

/-- The text that an ellipsis is drawn with. -/
def drawnText (spec : Text) : Text :=
  if spec = Text.ellipsis ∨ spec = "…".toList then ". . .".toList else spec

/-- The block with the given spec and arguments. A block with an image is drawn as its language spells
it, any other block as it was written. -/
def find? (v : Vocabulary) (spec : Text) (args : List Text) :
    Except MissingSpec (Option Found) :=
  match Dictionary.get? (v.key spec) v.index with
  | none => .ok none
  | some (id, lang) =>
    let known := (knownBlock? id).getD {}
    let attrs := v.refine args { known with lang := some lang }
    match known.image with
    | none => .ok (some ⟨attrs, drawnText spec⟩)
    | some _ =>
      match v.specIn? lang id with
      | some text => .ok (some ⟨attrs, text⟩)
      | none => .error ⟨id⟩

end Vocabulary

end BlockScript
