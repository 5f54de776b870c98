import BlockScript.Script.Node
import BlockScript.Json.Printer

/-!
# Scripts as JSON

Blocks are objects with their pieces first and then the attributes that they have. C blocks and mouths
are objects with a type. A script is a list of nodes. C blocks can stand inside one another without end,
but making and writing the JSON takes a call for each array and object inside another, so scripts whose
JSON is deeper than `saveLimit` are not saved. What else is said of the JSON has no such limit.
-/

namespace BlockScript

/-- A field that is written only if there is a value. -/
def optionalField (name : String) (value : Option Text) : List (Text × Json) :=
  match value with
  | some t => [(name.toList, .str t)]
  | none => []

/-- The flag as it is written: with a note if the branch before the block ends in a cap block. -/
def Attrs.flagNote (a : Attrs) : Option Text :=
  a.flag.map fun f => if a.capEnd then f.name ++ " capend".toList else f.name

/-- The attributes as fields, in order. -/
def Attrs.fields (a : Attrs) : List (Text × Json) :=
  optionalField "blockid" a.id ++ optionalField "category" (a.category.map Category.name) ++
    optionalField "shape" (a.shape.map Shape.name) ++ optionalField "flag" a.flagNote ++
    optionalField "lang" a.lang ++ optionalField "comment" a.comment ++
    optionalField "image_replacement" a.image ++
    (if a.ringed then [("is_ringed".toList, .bool true)] else [])

mutual

/-- A piece as JSON: text, or an object for a block. -/
def Piece.toJson : Piece → Json
  | .text t => .str t
  | .block a ps => .obj (("pieces".toList, .arr (Piece.toJsonList ps)) :: a.fields)

/-- Pieces as JSON. -/
def Piece.toJsonList : List Piece → List Json
  | [] => []
  | p :: ps => Piece.toJson p :: Piece.toJsonList ps

end

/-- A block as JSON. -/
def Block.toJson (b : Block) : Json := b.toPiece.toJson

mutual

/-- A node as JSON. -/
def Node.toJson : Node → Json
  | .block b => b.toJson
  | .wrap s nodes =>
    .record [("type", .ofString "cwrap"), ("shape", .orNull (s.map fun s => .str s.name)),
      ("contents", .arr (Node.toJsonList nodes))]
  | .mouth c nodes =>
    .record [("type", .ofString "cmouth"), ("category", .orNull (c.map fun c => .str c.name)),
      ("contents", .arr (Node.toJsonList nodes))]

/-- Nodes as JSON. -/
def Node.toJsonList : List Node → List Json
  | [] => []
  | n :: ns => Node.toJson n :: Node.toJsonList ns

end

/-- A script as JSON. -/
def Script.toJson (s : Script) : Json := .arr (Node.toJsonList s)

/-- Scripts as JSON. The value is there at every depth: that a program may run out of calls while it makes
one is left out here, and looked at by `save`. -/
def scriptsToJson (scripts : List Script) : Json := .arr (scripts.map Script.toJson)

/-- A script written for reading. -/
def Script.display (s : Script) : Text := Json.write .display (Script.toJson s)

/-! ## Saving -/

/-- The contents of a file with scripts, on one line or laid out for reading, if they are saved. -/
def savedText (laidOut : Bool) (scripts : List Script) : Text :=
  Json.write (if laidOut then .pretty else .compact) (scriptsToJson scripts)

/-- The greatest number of arrays and objects inside one another that can be saved. A program may have a
thousand calls inside one another; each array and object takes one, and saving from its top five more. -/
def saveLimit : Nat := 995

/-- Why scripts are not saved. -/
inductive SaveError where
  /-- There are too many arrays and objects inside one another. -/
  | tooDeep
  deriving DecidableEq, Repr

/-- The reason in words. -/
def SaveError.message : SaveError → Text
  | .tooDeep => "maximum recursion depth exceeded".toList

/-- What is written to a file with scripts. Nothing is written of scripts that are too deep. -/
def save (laidOut : Bool) (scripts : List Script) : Except SaveError Text :=
  if (scriptsToJson scripts).depth ≤ saveLimit then .ok (savedText laidOut scripts)
  else .error .tooDeep

end BlockScript
