import BlockScript.Vocabulary.Pack
import BlockScript.Json.Notation
import BlockScript.Json.Reader

/-!
# Packs as JSON

A pack is written as a JSON object. It is checked in a fixed order, and the first flaw is reported with
its place: that it is an object, that no required field is missing, then field by field that each has
the form it should have, and last that there is no other field.
-/

namespace BlockScript

/-! ## Errors -/

/-- A form that a value can be required to have. -/
inductive Form where
  | object
  | array
  | string
  deriving DecidableEq, Repr

/-- The name of a form. -/
def Form.name : Form → String
  | .object => "object"
  | .array => "array"
  | .string => "string"

/-- What is wrong with a value in a pack. -/
inductive PackFlaw where
  /-- The value has not the form that it should have. -/
  | wrongForm (value : Json) (form : Form)
  /-- A required field is missing. -/
  | missing (field : Text)
  /-- The text is not a language code. -/
  | badCode (code : Text)
  /-- There are fields without a meaning. -/
  | unexpected (fields : List Text)

/-- A flaw of a pack, with the names and numbers that lead to it. -/
structure InvalidPack where
  path : List Text
  flaw : PackFlaw

/-- Why a pack is not loaded. -/
inductive LoadError where
  | invalid (e : InvalidPack)
  /-- The file is not JSON. -/
  | notJson (file : Text) (e : Json.PlacedFlaw)
  /-- The file goes beyond what is read of JSON. -/
  | tooLarge (e : Json.Excess)
  /-- There is no pack of that name. -/
  | notBundled (name : Text)

/-- The pattern of a language code, as messages show it. -/
def codePattern : Text := "'^[a-z]\x7b2,3\x7d([_-][A-Za-z0-9]+)*$'".toList

/-- A flaw in words. -/
def PackFlaw.message : PackFlaw → Text
  | .wrongForm value form =>
    value.shown ++ " is not of type '".toList ++ form.name.toList ++ "'".toList
  | .missing field => field.quoted ++ " is a required property".toList
  | .badCode code => code.quoted ++ " does not match ".toList ++ codePattern
  | .unexpected fields =>
    "Additional properties are not allowed (".toList ++
      ", ".toList.intercalate (fields.map Text.quoted) ++
      (if fields.length = 1 then " was".toList else " were".toList) ++ " unexpected)".toList

/-- The place of a flaw in words. -/
def InvalidPack.place (e : InvalidPack) : Text :=
  if e.path = [] then "(root)".toList else ['/'].intercalate e.path

/-- A load error in words. -/
def LoadError.message : LoadError → Text
  | .invalid e => "Invalid language pack at ".toList ++ e.place ++ ": ".toList ++ e.flaw.message
  | .notJson file e =>
    "Language pack \"".toList ++ file ++ "\" is not valid JSON: ".toList ++ e.message
  | .tooLarge e => e.message
  | .notBundled name => "No bundled language pack for \"".toList ++ name ++ "\"".toList

/-! ## Language codes -/

/-- Whether a text is a language code: two or three small letters, and then parts of letters and digits,
each after a line or an underscore. -/
def isCode (t : Text) : Bool :=
  match Text.splitAt (fun c => c == '_' || c == '-') t with
  | language :: parts =>
    (language.length == 2 || language.length == 3) && language.all Char.isLower &&
      parts.all fun part => !part.isEmpty && part.all Char.isAlphanum
  | [] => false

/-- Whether a text is accepted as a language code: one line break may follow it. -/
def isAcceptedCode (t : Text) : Bool :=
  isCode t || (t.getLast? == some '\n' && isCode t.dropLast)

/-! ## Checking -/

/-- The result of checking a part of a pack. -/
abbrev Checked (α : Type) := Except InvalidPack α

/-- A value of the wrong form. -/
def wrongForm {α : Type} (path : List Text) (value : Json) (form : Form) : Checked α :=
  .error ⟨path, .wrongForm value form⟩

/-- A text. -/
def checkText (path : List Text) : Json → Checked Text
  | .str t => .ok t
  | value => wrongForm path value .string

/-- The fields of an object of texts. -/
def checkEntries (path : List Text) : List (Text × Json) → Checked (Dictionary Text)
  | [] => .ok []
  | (name, value) :: rest => do
    let t ← checkText (path ++ [name]) value
    let ts ← checkEntries path rest
    .ok ((name, t) :: ts)

/-- An object of texts. -/
def checkTextObject (path : List Text) : Json → Checked (Dictionary Text)
  | .obj fields => checkEntries path fields
  | value => wrongForm path value .object

/-- The items of an array of texts, counted from the given number. -/
def checkItems (path : List Text) (number : Nat) : List Json → Checked (List Text)
  | [] => .ok []
  | value :: rest => do
    let t ← checkText (path ++ [Text.ofNat number]) value
    let ts ← checkItems path (number + 1) rest
    .ok (t :: ts)

/-- An array of texts. -/
def checkTextArray (path : List Text) : Json → Checked (List Text)
  | .arr items => checkItems path 0 items
  | value => wrongForm path value .array

/-- A language code. -/
def checkCode (path : List Text) (value : Json) : Checked Text := do
  let code ← checkText path value
  if isAcceptedCode code then .ok code else .error ⟨path, .badCode code⟩

/-- A field that must be there. -/
def requireField (fields : List (Text × Json)) (name : Text) : Checked Json :=
  match Dictionary.get? name fields with
  | some value => .ok value
  | none => .error ⟨[], .missing name⟩

/-- A field that may be missing, with what stands for it then. -/
def checkField {α : Type} (fields : List (Text × Json)) (name : Text) (default : α)
    (check : List Text → Json → Checked α) : Checked α :=
  match Dictionary.get? name fields with
  | some value => check [name] value
  | none => .ok default

/-- The fields that a pack may have, in the order in which they are checked. -/
def packFields : List Text :=
  ["code", "blocks", "aliases", "define", "ignorelt", "math", "osis", "palette"].map String.toList

/-- The fields that have no meaning in a pack, sorted by name. -/
def unexpectedFields (fields : List (Text × Json)) : List Text :=
  ((Dictionary.keys fields).filter fun name => !packFields.contains name).mergeSort Text.notAfter

/-- The pack that a JSON value describes. -/
def Pack.ofJson (value : Json) : Checked Pack := do
  let fields ← match value with
    | .obj fields => .ok fields
    | value => wrongForm [] value .object
  let codeValue ← requireField fields "code".toList
  let blocksValue ← requireField fields "blocks".toList
  let code ← checkCode ["code".toList] codeValue
  let blocks ← checkTextObject ["blocks".toList] blocksValue
  let aliases ← checkField fields "aliases".toList [] checkTextObject
  let headerWords ← checkField fields "define".toList [] checkTextArray
  let signPhrases ← checkField fields "ignorelt".toList [] checkTextArray
  let mathFunctions ← checkField fields "math".toList [] checkTextArray
  let otherScripts ← checkField fields "osis".toList [] checkTextArray
  let _ ← checkField fields "palette".toList [] checkTextObject
  match unexpectedFields fields with
  | [] => .ok { code, blocks, aliases, headerWords, signPhrases, mathFunctions, otherScripts }
  | names => .error ⟨[], .unexpected names⟩

/-- An object of texts as JSON. -/
def textObject (entries : Dictionary Text) : Json := .obj (entries.map fun e => (e.1, .str e.2))

/-- A pack as JSON. -/
def Pack.toJson (p : Pack) : Json :=
  .record [("code", .str p.code), ("blocks", textObject p.blocks),
    ("aliases", textObject p.aliases), ("define", .texts p.headerWords),
    ("ignorelt", .texts p.signPhrases), ("math", .texts p.mathFunctions),
    ("osis", .texts p.otherScripts)]

/-- The pack in the text of a file, whose line ends may be of any kind. -/
def Pack.ofFile (file : Text) (contents : Text) : Except LoadError Pack :=
  match Json.parse (Text.withNewlines contents) with
  | .error (.flaw e) => .error (.notJson file e)
  | .error (.excess e) => .error (.tooLarge e)
  | .ok value => (Pack.ofJson value).mapError .invalid

end BlockScript
