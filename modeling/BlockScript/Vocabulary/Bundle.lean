import BlockScript.Vocabulary.Folder
import BlockScript.Vocabulary.German
import BlockScript.Vocabulary.PackFile

/-!
# Bundled files

The library comes with a folder of JSON files: the German pack, and a description of what a pack looks
like. A file is asked for by its name without the extension, or by a path that leads to it from inside
the folder; such a path may pass through the folders around.
-/

namespace BlockScript.Bundle

/-! ## The description of packs -/

/-- A description of the values of one form. -/
def formSchema (form : Form) (more : List (String × Json)) : Json :=
  .record (("type", .ofString form.name) :: more)

/-- A description of objects of texts. -/
def textObjectSchema : Json :=
  formSchema .object [("additionalProperties", formSchema .string [])]

/-- A description of arrays of texts. -/
def textArraySchema : Json := formSchema .array [("items", formSchema .string [])]

/-- The description of packs. -/
def packSchema : Json :=
  .record [("title", .ofString "language pack"), ("type", .ofString Form.object.name),
    ("required", .arr [.ofString "code", .ofString "blocks"]),
    ("properties", .record [("code", formSchema .string []), ("blocks", textObjectSchema),
      ("aliases", textObjectSchema), ("define", textArraySchema), ("ignorelt", textArraySchema),
      ("math", textArraySchema), ("osis", textArraySchema), ("palette", textObjectSchema)]),
    ("additionalProperties", .bool false)]

/-! ## The folder -/

/-- The bundled files. -/
def folder : Folder :=
  .mk [] [("de.json".toList, germanPack.toJson), ("language.schema.json".toList, packSchema)]

/-- The folder around the bundled files, without what else there may be in it. -/
def home : Folder := .mk [("resources".toList, folder)] []

/-- The least length of a path that is too long to be followed. -/
def pathLimit : Nat := 4096

/-- The bundled file of the given name, or the one that a path leads to. The folders around the bundled
files are given from the inside out. A path that starts with a slash does not start in the folder and
leads to none of the files. -/
def find? (around : List Folder) (name : Text) : Option Json :=
  let path := name ++ ".json".toList
  if name.head? = some '/' ∨ pathLimit ≤ path.length then none
  else folder.follow around (Text.splitAt (· == '/') path)

end BlockScript.Bundle
