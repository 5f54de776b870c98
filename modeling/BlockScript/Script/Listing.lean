import BlockScript.Script.Node
import BlockScript.Text.Quoted

/-!
# Scripts as a listing

A listing shows one block to a line, with its category and its flag or shape, indented by the mouths
around it. A description shows a node in a few words; a C block is named by the block that opens it, so
one that does not start with a block has no description.
-/

namespace BlockScript

/-- A text that may be missing, in a listing or a description. -/
def Text.orNone (t : Option Text) : Text := t.getD "None".toList

namespace Attrs

/-- The category by name. -/
def categoryText (a : Attrs) : Text := Text.orNone (a.category.map Category.name)

/-- The shape by name. -/
def shapeText (a : Attrs) : Text := Text.orNone (a.shape.map Shape.name)

/-- The flag by name. -/
def flagText (a : Attrs) : Text := Text.orNone (a.flag.map Flag.name)

/-- The part that a block plays: its flag if there is one that has a name, and else its shape. -/
def roleText (a : Attrs) : Text :=
  match a.flag with
  | some f => if f.name = [] then a.shapeText else f.name
  | none => a.shapeText

end Attrs

/-! ## Listings -/

/-- The indentation of a line inside so many mouths. -/
def Listing.margin (depth : Nat) : Text := List.replicate (4 * depth) ' '

/-- What a line shows of a block before its labels. -/
def Block.heading (b : Block) : Written :=
  if b.pieces.isEmpty then .ok (Text.orNone b.attrs.id) else b.render

/-- What a line shows of a block behind its heading: its labels, and its comment if it has one. -/
def Attrs.labels (a : Attrs) : Text :=
  "  [".toList ++ a.categoryText ++ ", ".toList ++ a.roleText ++
    (if a.capEnd then ", capend".toList else []) ++ [']'] ++
    (match a.comment with
      | some c => "  // ".toList ++ c
      | none => [])

/-- The line of a block. -/
def Block.listing (depth : Nat) (b : Block) : Written :=
  if b.isComment then
    match b.attrs.comment with
    | some c => .ok (Listing.margin depth ++ "// ".toList ++ c ++ ['\n'])
    | none => .error .missingComment
  else b.heading.map fun t => Listing.margin depth ++ t ++ b.attrs.labels ++ ['\n']

mutual

/-- The lines of a node. -/
def Node.listing (depth : Nat) : Node → List Written
  | .block b => [b.listing depth]
  | .wrap _ nodes => Node.listingList depth nodes
  | .mouth _ nodes => Node.listingList (depth + 1) nodes

/-- The lines of a list of nodes. -/
def Node.listingList (depth : Nat) : List Node → List Written
  | [] => []
  | n :: ns => Node.listing depth n ++ Node.listingList depth ns

end

/-- A script with its number. -/
def Script.listing (number : Nat) (s : Script) : Written :=
  (Written.join (Node.listingList 0 s)).map fun t =>
    "=== Script ".toList ++ Text.ofNat number ++ " ===\n".toList ++ t ++ ['\n']

/-- Scripts one by one, counted from the given number. -/
def Listing.ofScriptsFrom (number : Nat) : List Script → List Written
  | [] => []
  | s :: rest => Script.listing number s :: Listing.ofScriptsFrom (number + 1) rest

/-- A listing of scripts. It goes as deep as the scripts do: that a program may run out of calls on the way is
left out. -/
def Listing.ofScripts (scripts : List Script) : Written :=
  Written.join (Listing.ofScriptsFrom 1 scripts)

/-! ## Descriptions -/

/-- A block in a few words. -/
def Block.describe (b : Block) : Text :=
  match b.insertText? with
  | some t => "<Insert ".toList ++ b.attrs.shapeText ++ ' ' :: t.quoted ++ ['>']
  | none =>
    "<Block \"".toList ++ Text.orNone b.attrs.id ++ "\" category=".toList ++ b.attrs.categoryText ++
      " shape=".toList ++ b.attrs.shapeText ++ " flag=".toList ++ b.attrs.flagText ++ ['>']

/-- Why a C block has no name. -/
inductive Headless where
  /-- There is nothing in it. -/
  | empty
  /-- It starts with another C block. -/
  | wrapFirst
  /-- It starts with a mouth. -/
  | mouthFirst
  deriving DecidableEq, Repr

/-- The reason in words. -/
def Headless.message : Headless → Text
  | .empty => "list index out of range".toList
  | .wrapFirst => "'CWrap' object has no attribute 'blockid'".toList
  | .mouthFirst => "'CMouth' object has no attribute 'blockid'".toList

/-- A description, or why there is none. -/
abbrev Described := Except Headless Text

/-- The block that opens a C block with the given contents. -/
def Node.opener : List Node → Except Headless Block
  | [] => .error .empty
  | .block b :: _ => .ok b
  | .wrap _ _ :: _ => .error .wrapFirst
  | .mouth _ _ :: _ => .error .mouthFirst

/-- A node in a few words. A C block is named by the block that opens it. -/
def Node.describe : Node → Described
  | .block b => .ok b.describe
  | .wrap s nodes =>
    (Node.opener nodes).map fun b =>
      "<CWrap \"".toList ++ Text.orNone b.attrs.id ++ "\" (".toList ++
        Text.ofNat (Node.wrap s nodes).innerMouths.length ++ " mouths)>".toList
  | .mouth c nodes =>
    .ok ("<CMouth ".toList ++ Text.orNone (c.map Category.name) ++ " (".toList ++
      Text.ofNat nodes.length ++ " blocks)>".toList)

mutual

/-- Descriptions of a piece that is a block and of all blocks nested in it, outside in. -/
def Piece.describeAll : Piece → List Text
  | .text _ => []
  | .block a ps => Block.describe ⟨a, ps⟩ :: Piece.describeAllList ps

/-- Descriptions of the blocks among pieces and of all blocks nested in them. -/
def Piece.describeAllList : List Piece → List Text
  | [] => []
  | p :: ps => Piece.describeAll p ++ Piece.describeAllList ps

end

mutual

/-- Descriptions of a node and of all nodes and blocks in it, outside in. -/
def Node.describeAll : Node → List Described
  | .block b => (b.describe :: Piece.describeAllList b.pieces).map .ok
  | .wrap s nodes => Node.describe (.wrap s nodes) :: Node.describeAllList nodes
  | .mouth c nodes => Node.describe (.mouth c nodes) :: Node.describeAllList nodes

/-- Descriptions of a list of nodes and of all in them. -/
def Node.describeAllList : List Node → List Described
  | [] => []
  | n :: ns => Node.describeAll n ++ Node.describeAllList ns

end

end BlockScript
