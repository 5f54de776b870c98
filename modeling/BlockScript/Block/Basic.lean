import BlockScript.Block.Label
import BlockScript.Text.Key
import BlockScript.Bracket

/-!
# Blocks

A block is a list of pieces, literal text and nested blocks, with attributes. An *insert* is a block
that has no category and holds nothing but text. The attributes also remember under which key a block
may turn out to be a call of a defined block, and under which name it may turn out to be a list or a
parameter.
-/

namespace BlockScript

/-- What is known of a block besides its pieces. -/
structure Attrs where
  /-- The English spec of the block, which names it in every language. -/
  id : Option Text := none
  category : Option Category := none
  shape : Option Shape := none
  flag : Option Flag := none
  /-- The language in which the block was written. -/
  lang : Option Text := none
  comment : Option Text := none
  /-- The name of the image that is drawn for an at sign in the text. -/
  image : Option Text := none
  /-- Whether a ring is drawn around it. -/
  ringed : Bool := false
  /-- Whether the branch that it closes ends in a cap block. -/
  capEnd : Bool := false
  /-- The key of an unknown block of a script, which may be a call of a defined block. -/
  calledAs : Option Text := none
  /-- The text of an unknown reporter, which may be the name of a list or of a parameter. -/
  namedAs : Option Text := none
  deriving DecidableEq

/-- A piece of a block: literal text, or a nested block with its attributes and pieces. -/
inductive Piece where
  | text (t : Text)
  | block (attrs : Attrs) (pieces : List Piece)
  deriving Inhabited

/-- A block with its pieces. -/
structure Block where
  attrs : Attrs
  pieces : List Piece

/-! ## Equality is decidable -/

mutual

/-- Whether two pieces are equal. -/
def Piece.decEq : (p q : Piece) → Decidable (p = q)
  | .text s, .text t =>
    if h : s = t then isTrue (by rw [h]) else isFalse (by simpa using h)
  | .text _, .block _ _ => isFalse (by simp)
  | .block _ _, .text _ => isFalse (by simp)
  | .block a ps, .block b qs =>
    if h : a = b then
      match Piece.decEqList ps qs with
      | isTrue h' => isTrue (by rw [h, h'])
      | isFalse h' => isFalse (by simp [h'])
    else isFalse (by simp [h])

/-- Whether two lists of pieces are equal. -/
def Piece.decEqList : (ps qs : List Piece) → Decidable (ps = qs)
  | [], [] => isTrue rfl
  | [], _ :: _ => isFalse (by simp)
  | _ :: _, [] => isFalse (by simp)
  | p :: ps, q :: qs =>
    match Piece.decEq p q, Piece.decEqList ps qs with
    | isTrue h, isTrue h' => isTrue (by rw [h, h'])
    | isFalse h, _ => isFalse (by simp [h])
    | _, isFalse h => isFalse (by simp [h])

end

instance : DecidableEq Piece := Piece.decEq

deriving instance DecidableEq for Block

/-! ## Pieces -/

namespace Piece

/-- The blocks among pieces. -/
def blocks : List Piece → List Block
  | [] => []
  | .text _ :: ps => blocks ps
  | .block a qs :: ps => ⟨a, qs⟩ :: blocks ps

/-- Whether a piece stands for an argument: a block, or text that starts with a bracket. -/
def isArgument : Piece → Bool
  | .text t => (Bracket.leading? t).isSome
  | .block _ _ => true

/-- What a piece contributes to a spec: an argument leaves a slot. -/
def inSpec : Piece → Text
  | .text t => if (Bracket.leading? t).isSome then ['_'] else t
  | .block _ _ => ['_']

/-- The spec of pieces. -/
def spec (ps : List Piece) : Text := Text.padSlots (ps.flatMap inSpec)

/-- The arguments among pieces. -/
def arguments (ps : List Piece) : List Piece := ps.filter isArgument

/-- The text of a piece that is no block. -/
def text? : Piece → Option Text
  | .text t => some t
  | .block _ _ => none

mutual

/-- Change the attributes of a piece and of everything nested in it. -/
def mapAttrs (f : Attrs → Attrs) : Piece → Piece
  | .text t => .text t
  | .block a ps => .block (f a) (mapAttrsList f ps)

/-- Change the attributes of all blocks in a list of pieces. -/
def mapAttrsList (f : Attrs → Attrs) : List Piece → List Piece
  | [] => []
  | p :: ps => mapAttrs f p :: mapAttrsList f ps

end

/-- Draw a ring around a piece that is a block. -/
def ring : Piece → Piece
  | .text t => .text t
  | .block a ps => .block { a with ringed := true } ps

theorem mapAttrsList_eq_map (f : Attrs → Attrs) (ps : List Piece) :
    mapAttrsList f ps = ps.map (mapAttrs f) := by
  induction ps with
  | nil => simp [mapAttrsList]
  | cons p ps ih => simp [mapAttrsList, ih]

end Piece

/-! ## Blocks -/

namespace Block

/-- A block as a piece of another one. -/
def toPiece (b : Block) : Piece := .block b.attrs b.pieces

/-- The text of an insert. -/
def insertText? (b : Block) : Option Text :=
  match b.attrs.category, b.pieces with
  | none, [.text t] => some t
  | _, _ => none

/-- Whether a block is an insert. -/
def isInsert (b : Block) : Bool := b.insertText?.isSome

/-- The blocks nested directly in a block, in order. -/
def arguments (b : Block) : List Block := Piece.blocks b.pieces

/-- The spec of a block: its text with a slot for each argument. -/
def spec (b : Block) : Text := Piece.spec b.pieces

/-- Change the attributes of a block and of everything nested in it. -/
def mapAttrs (f : Attrs → Attrs) (b : Block) : Block :=
  ⟨f b.attrs, Piece.mapAttrsList f b.pieces⟩

/-- Put a block into another category. -/
def withCategory (c : Option Category) (b : Block) : Block :=
  { b with attrs := { b.attrs with category := c } }

/-- A comment that stands on a line of its own. -/
def comment (t : Text) : Block := ⟨{ id := some "//".toList, comment := some t }, []⟩

/-- Whether a block is a comment that stands on its own. -/
def isComment (b : Block) : Bool := b.attrs.id == some "//".toList

end Block

end BlockScript
