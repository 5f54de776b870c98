import BlockScript.Block.Basic

/-!
# Blocks as text

Rendering writes a block the way it is typed: the pieces one after the other, with the brackets that
belong to its shape around them. Images are drawn as arrows where there is one, and else by name. The
header of a defined block is its keyword and its outline, and nothing else is written of it; a header
without them cannot be written.
-/

namespace BlockScript

/-! ## What cannot be written -/

/-- Why something cannot be written. -/
inductive Unwritable where
  /-- The header of a defined block lacks its keyword or its outline. -/
  | missingPiece
  /-- The header has a block in the place of its keyword. -/
  | keywordIsBlock
  /-- The header has a text in the place of its outline. -/
  | outlineIsText
  /-- A comment that stands on its own has no text. -/
  | missingComment
  /-- A C block is a piece of a block. -/
  | wrapInside
  /-- A mouth is a piece of a block. -/
  | mouthInside
  deriving DecidableEq, Repr

/-- The reason in words. -/
def Unwritable.message : Unwritable → Text
  | .missingPiece => "list index out of range".toList
  | .keywordIsBlock => "unsupported operand type(s) for +: 'BlockInfo' and 'str'".toList
  | .outlineIsText => "'str' object has no attribute 'isInsert'".toList
  | .missingComment => "can only concatenate str (not \"NoneType\") to str".toList
  | .wrapInside => "can only concatenate str (not \"CWrap\") to str".toList
  | .mouthInside => "can only concatenate str (not \"CMouth\") to str".toList

/-- A text, or why it cannot be written. -/
abbrev Written := Except Unwritable Text

/-- Texts one after the other; the first that cannot be written decides. -/
def Written.join : List Written → Written
  | [] => .ok []
  | .ok t :: rest => (join rest).map (t ++ ·)
  | .error e :: _ => .error e

/-! ## Pieces and blocks -/

/-- What is drawn for an image. -/
def imageText (name : Text) : Text :=
  if name = "arrow-cw".toList then "↻".toList
  else if name = "arrow-ccw".toList then "↺".toList
  else '@' :: name

/-- A text between brackets. -/
def Bracket.enclose (b : Bracket) (t : Text) : Text := b.opener :: t ++ [b.closer]

/-- The brackets around the text of an insert. -/
def Shape.insertBracket : Option Shape → Bracket
  | some .string | some .dropdown | some .color => .square
  | _ => .round

/-- An insert of the given shape with its text. -/
def renderInsert (shape : Option Shape) (t : Text) : Text :=
  (Shape.insertBracket shape).enclose (if shape.any (·.hasMenu) then t ++ " v".toList else t)

/-- The text of a block, given that of its pieces, with the brackets of its shape. -/
def Attrs.enclose (a : Attrs) (t : Text) : Text :=
  match a.shape with
  | some .outline => t
  | some .boolean => Bracket.angle.enclose t
  | some .reporter | some .embedded => Bracket.round.enclose t
  | _ => if a.category = some .customArg then Bracket.round.enclose t else t

/-- A literal piece of a block with the given image. -/
def renderLiteral (image : Option Text) (t : Text) : Text :=
  match image with
  | some name => if t = ['@'] then imageText name else t
  | none => t

/-- The header of a defined block, given its pieces and what is written of each: the keyword, a space
and the outline. -/
def renderHeader : List Piece → List Written → Written
  | .text keyword :: .block _ _ :: _, _ :: outline :: _ => outline.map fun t => keyword ++ ' ' :: t
  | .text _ :: .text _ :: _, _ => .error .outlineIsText
  | .block _ _ :: _, _ => .error .keywordIsBlock
  | _, _ => .error .missingPiece

/-- A block, given its pieces and what is written of each. -/
def renderWith (a : Attrs) (ps : List Piece) (written : List Written) : Written :=
  match a.category, ps with
  | none, [.text t] => .ok (renderInsert a.shape t)
  | _, _ =>
    if a.shape = some .defineHat then renderHeader ps written
    else (Written.join written).map a.enclose

mutual

/-- What is written of a piece of a block with the given image. -/
def Piece.render (image : Option Text) : Piece → Written
  | .text t => .ok (renderLiteral image t)
  | .block a ps => renderWith a ps (Piece.renderList a.image ps)

/-- What is written of each piece of a block with the given image. -/
def Piece.renderList (image : Option Text) : List Piece → List Written
  | [] => []
  | p :: ps => Piece.render image p :: Piece.renderList image ps

end

/-- What is written of a block. -/
def Block.render (b : Block) : Written :=
  renderWith b.attrs b.pieces (Piece.renderList b.attrs.image b.pieces)

end BlockScript
