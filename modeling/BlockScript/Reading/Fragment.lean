import BlockScript.Reading.Outcome
import BlockScript.Reading.Override
import BlockScript.Reading.Shape
import BlockScript.Token

/-!
# Reading a fragment

A fragment is the text of a block or of an argument. It is cut into tokens; the literal ones and a slot
for each bracketed one make up its spec, by which the block is looked up, and the bracketed ones are
read in turn. Each level of brackets takes one level of nesting, of which there is a fixed number.
-/

namespace BlockScript

namespace Fragment

/-! ## Literal text and arguments -/

/-- The pieces of a fragment with the blanks at its two ends dropped. -/
def trimEnds : List Text → List Text
  | [] => []
  | [t] => [Text.trim t]
  | t :: ts => Text.trimLeft t :: trimLast ts
where
  /-- Drop the blanks at the end of the last piece. -/
  trimLast : List Text → List Text
    | [] => []
    | [t] => [Text.trimRight t]
    | t :: ts => t :: trimLast ts

/-- The spec of pieces that have not been read yet. -/
def specOf (pieces : List Text) : Text := Piece.spec (pieces.map .text)

/-- The pieces that stand for arguments. -/
def argumentsOf (pieces : List Text) : List Text :=
  pieces.filter fun t => (Bracket.leading? t).isSome

/-! ## Headers of defined blocks -/

/-- A parameter in a header. -/
def parameter (piece : Text) : Block :=
  ⟨{ category := some .customArg, shape := some (.ofParameter (Bracket.leading? piece)) },
    [.text (Text.trim (Bracket.strip piece))]⟩

/-- A piece of a header; empty text is left out. -/
def outlinePiece? (piece : Text) : Option Piece :=
  if (Bracket.leading? piece).isSome then some (parameter piece).toPiece
  else if piece = [] then none
  else some (.text piece)

/-- The pieces of a header after its first word. -/
def outlineTexts (word : Text) : List Text → List Text
  | [] => [[]]
  | t :: ts => Text.trimLeft (t.drop word.length) :: ts

/-- The header of a defined block that starts with the given word. -/
def definition (code word : Text) (pieces : List Text) : Block :=
  ⟨{ category := some .custom, shape := some .defineHat },
    [.text (code.take word.length),
      .block { shape := some .outline } ((outlineTexts word pieces).filterMap outlinePiece?)]⟩

/-! ## Inserts -/

/-- Whether a fragment is an insert of the given shape; a fragment with several pieces is none, except
in square brackets. -/
def insertShape? (bracket : Option Bracket) (pieces : List Text) (code : Text) : Option Shape :=
  if 1 < pieces.length ∧ bracket ≠ some .square then none
  else
    let shape := Shape.ofArgument bracket code
    if shape.isInsert then some shape else none

/-- The shape of a fragment that is a block. -/
def blockShape (bracket : Option Bracket) (pieces : List Text) (code : Text) : Shape :=
  if 1 < pieces.length then .ofBlock bracket else .ofArgument bracket code

/-- An insert of the given shape, without the sign of its menu. -/
def insert (shape : Shape) (code : Text) : Block :=
  ⟨{ shape := some shape }, [.text (if shape.hasMenu then code.dropLast.dropLast else code)]⟩

/-! ## Blocks -/

/-- The attributes of a block that is not known. A reporter may be a variable. -/
def unknownAttrs (spec : Text) (shape : Shape) : Attrs :=
  { id := some spec
    category := some (if shape = .reporter then .vars else .obsolete)
    shape := some shape
    lang := some "en".toList
    namedAs := if shape = .reporter then some spec else none }

/-- The attributes of a block that is known, where it has no shape of its own with the shape of its
place. -/
def knownAttrs (attrs : Attrs) (shape : Shape) : Attrs :=
  { attrs with shape := attrs.shape.or (some shape) }

/-- What a fragment with the given spec, arguments and shape is, and the text it is drawn with. The block
that closes a C block is drawn without text. -/
def identify (v : Vocabulary) (spec : Text) (args : List Text) (shape : Shape) :
    Except MissingSpec Found :=
  match if spec = [] then .ok none else v.find? spec args with
  | .error e => .error e
  | .ok none => .ok ⟨unknownAttrs spec shape, spec⟩
  | .ok (some ⟨attrs, text⟩) =>
    .ok ⟨knownAttrs attrs shape, if attrs.flag = some .cEnd then [] else text⟩

/-- Whether a character is a piece of its own in the text of a block: a slot, an image, a triangle, or a
plus sign, unless the block adds two numbers. -/
def isMark (adds : Bool) (c : Char) : Bool :=
  "_@▶◀▸◂".toList.contains c || (c == '+' && !adds)

/-- Cut a text at its marks. No part is empty. -/
def partsAt (isMark : Char → Bool) : Text → List Text
  | [] => []
  | c :: rest =>
    if isMark c then [c] :: partsAt isMark rest
    else
      match partsAt isMark rest with
      | (d :: part) :: parts =>
        if isMark d then [c] :: (d :: part) :: parts else (c :: d :: part) :: parts
      | parts => [c] :: parts

/-- Read the arguments into the slots of a text. A slot without an argument is an underscore. -/
def fillSlots (nested : Text → Outcome Block) :
    List Text → List Text → Outcome (List Piece)
  | [], _ => .done []
  | part :: parts, args =>
    match part, args with
    | ['_'], arg :: args =>
      (nested arg).andThen fun b => (fillSlots nested parts args).map (b.toPiece :: ·)
    | _, _ => (fillSlots nested parts args).map (.text part :: ·)

/-- The number of the argument that names a list, for the blocks that use lists. -/
def listArguments : List (Text × Nat) :=
  [("add _ to _", 1), ("delete _ of _", 1), ("insert _ at _ of _", 2),
    ("replace item _ of _ with _", 1), ("item _ of _", 1), ("length of _", 0), ("_ contains _", 0),
    ("show list _", 0), ("hide list _", 0)].map fun e => (e.1.toList, e.2)

/-- The list that an argument of a block in the given category names. -/
def listName? (category : Option Category) : Piece → Option Text
  | .block a (.text name :: _) =>
    if a.shape = some .dropdown ∨ (a.shape = some .string ∧ category = some .list) then some name
    else none
  | _ => none

/-- The list that a block names. -/
def listUse? (b : Block) : Option Text := do
  let number ← Dictionary.get? (← b.attrs.id) listArguments
  listName? b.attrs.category (← (Piece.arguments b.pieces)[number]?)

/-- A block with its overrides, and with rings around its arguments if they ask for them. -/
def override (overrides : List Override) (b : Block) : Block :=
  let attrs := Override.applyAll overrides b.attrs
  ⟨attrs, if attrs.flag = some .ring then b.pieces.map Piece.ring else b.pieces⟩

/-- The complaints about overrides that mean nothing. -/
def overrideComplaints (overrides : List Override) : List Complaint :=
  overrides.filterMap fun o => o.unknownWord?.map .unknownOverride

/-- The sighting of a block that may be a list or a parameter. -/
def ownSighting (a : Attrs) : List Sighting :=
  match a.namedAs with
  | some name => [.reporter name a.category]
  | none => []

/-- A block with its pieces and the words of its overrides. The block itself is sighted before its
arguments, with the category that it has in the end; a list that it uses is sighted after them, unless
there are overrides. -/
def finish (attrs : Attrs) (words : List Text) (pieces : Outcome (List Piece)) : Outcome Block :=
  match pieces.result with
  | .error f => ⟨.error f, pieces.complaints, ownSighting attrs ++ pieces.sightings⟩
  | .ok ps =>
    let overrides := words.map .ofWord
    let b : Block := if words = [] then ⟨attrs, ps⟩ else override overrides ⟨attrs, ps⟩
    let lists := if words = [] then (listUse? b).toList.map .list else []
    ⟨.ok b, pieces.complaints ++ overrideComplaints overrides,
      ownSighting b.attrs ++ pieces.sightings ++ lists⟩

/-- Read a fragment that is a block. -/
def readBlock (v : Vocabulary) (nested : Text → Outcome Block) (shape : Shape)
    (pieces : List Text) : Outcome Block :=
  let pieces := trimEnds pieces
  let (spec, words) := Override.split (specOf pieces)
  let args := argumentsOf pieces
  match identify v spec args shape with
  | .error e => .fail (.missingSpec e.id)
  | .ok ⟨attrs, text⟩ =>
    let adds := attrs.id == some "_ + _".toList
    finish attrs words (fillSlots nested (partsAt (isMark adds) text) args)

/-! ## Fragments -/

/-- The brackets around a fragment; a fragment that is a line has none. -/
def outerBracket (isLine : Bool) (code : Text) : Option Bracket :=
  if isLine then none else Bracket.leading? code

/-- The complaint that the outer bracket of a fragment is left open. -/
def outerComplaints (bracket : Option Bracket) (code : Text) : List Complaint :=
  match bracket with
  | some b => if b.isClosed code then [] else [.unterminated b]
  | none => []

/-- The complaint that a bracket inside a fragment is left open. The text in square brackets is not
looked at. -/
def innerComplaints (bracket : Option Bracket) (tokens : Tokens) : List Complaint :=
  if bracket = some .square then [] else tokens.unclosed.toList.map .unterminated

/-- Read a fragment, given how to read what is nested in it. -/
def readWith (v : Vocabulary) (nested : Text → Outcome Block) (isLine : Bool) (code : Text) :
    Outcome Block :=
  let bracket := outerBracket isLine code
  let inner := if isLine then code else Bracket.strip code
  let tokens := tokenize v.signRule inner
  let pieces := tokens.texts
  .after (outerComplaints bracket code ++ innerComplaints bracket tokens) []
    (match v.header? inner with
      | some word => .done (definition inner word pieces)
      | none =>
        match insertShape? bracket pieces inner with
        | some shape => .done (insert shape inner)
        | none => readBlock v nested (blockShape bracket pieces inner) pieces)

/-- Read a fragment with the given number of levels left. -/
def read (v : Vocabulary) : Nat → Bool → Text → Outcome Block
  | 0, _, _ => .fail .tooDeep
  | depth + 1, isLine, code => readWith v (read v depth false) isLine code

/-- The number of levels that blocks can be nested. -/
def nestingLimit : Nat := 200

end Fragment

/-- Read a fragment: a line, or an argument with its brackets. -/
def Vocabulary.readFragment (v : Vocabulary) (isLine : Bool) (code : Text) : Outcome Block :=
  Fragment.read v Fragment.nestingLimit isLine code

end BlockScript
