import BlockScript.Reading.Fragment

/-!
# Reading a line

A line is a block of a script and may end in a comment. A line that is one argument in brackets stands
for that argument; an insert alone is put into a block without text. A comment can name the category of
its block.
-/

namespace BlockScript

namespace Line

/-! ## Comments -/

/-- The text before the first two slashes, and the text after them, unless a colon stands in front of
them; the text before what is searched is given backwards. -/
def splitComment (before : Text) : Text → Option (Text × Text)
  | '/' :: '/' :: rest => if before.head? = some ':' then none else some (before.reverse, rest)
  | c :: rest => splitComment (c :: before) rest
  | [] => none

/-- The small letters in front of a text, if there are any and a space or nothing follows them, and the
text that a directive with them takes up, given what it starts with. -/
def directiveAt (start t : Text) : Option (Text × Text) :=
  let isSmall := fun c : Char => 'a' ≤ c && c ≤ 'z'
  match t.takeWhile isSmall, t.dropWhile isSmall with
  | [], _ => none
  | word, [] => some (word, start ++ word)
  | word, ' ' :: _ => some (word, start ++ word ++ [' '])
  | _, _ => none

/-- What a directive starts with. -/
def directiveStart : Text := "category=".toList

/-- The word of the first directive after a space in a comment, and the text that it takes up. -/
def laterDirective? : Text → Option (Text × Text)
  | [] => none
  | c :: rest =>
    let found :=
      if c = ' ' ∧ directiveStart.isPrefixOf rest then
        directiveAt (' ' :: directiveStart) (rest.drop directiveStart.length)
      else none
    match found with
    | some d => some d
    | none => laterDirective? rest

/-- The word of the first directive in a comment, and the text that it takes up. -/
def directive? (comment : Text) : Option (Text × Text) :=
  let found :=
    if directiveStart.isPrefixOf comment then
      directiveAt directiveStart (comment.drop directiveStart.length)
    else none
  match found with
  | some d => some d
  | none => laterDirective? comment

/-- The category that a comment names, and the comment without its directive. -/
def categoryOf? (comment : Text) : Option (Category × Text) := do
  let (word, taken) ← directive? comment
  let category ← Override.category? word
  some (category, Text.trim (Text.replaceFirst taken [' '] comment))

/-! ## Blocks of a line -/

/-- An insert on a line of its own, in a block without text. -/
def lone (b : Block) : Block :=
  if b.attrs.category = none then
    ⟨{ id := some ['_'], category := some .obsolete, shape := some .stack }, [b.toPiece]⟩
  else b

/-- Whether a text is one argument in brackets. -/
def isLoneArgument (v : Vocabulary) (t : Text) : Bool :=
  (Bracket.leading? t).isSome && (tokenize v.signRule t).tokens.length == 1

/-- Read a line without its comment. -/
def readBare (v : Vocabulary) (line : Text) : Outcome Block :=
  if isLoneArgument v line then (v.readFragment false line).map lone
  else v.readFragment true line

/-- Sightings that go with a new category of the block that they are of. -/
def recategorise (b : Block) (category : Option Category) (sightings : List Sighting) :
    List Sighting :=
  match b.attrs.namedAs, sightings with
  | some _, .reporter name _ :: rest => .reporter name category :: rest
  | _, _ => sightings

/-- A block in the category that its comment names, with what is left of the comment. The header of a
defined block keeps its category. -/
def applyDirective (comment : Option Text) (b : Block) : Block × Option Text :=
  if b.attrs.shape = some .defineHat then (b, comment)
  else
    match comment.bind categoryOf? with
    | some (category, rest) => (b.withCategory (some category), some rest)
    | none => (b, comment)

/-- The outline in the header of a defined block. -/
def outlineOf (b : Block) : List Piece :=
  match b.arguments with
  | outline :: _ => outline.pieces
  | [] => []

/-- What the header of a defined block says: which block it defines, and the names of its parameters. -/
def headerSightings (v : Vocabulary) (b : Block) : List Sighting :=
  let outline := outlineOf b
  .definition (v.key (Piece.spec outline)) ::
    (Piece.blocks outline).filterMap fun p => (p.pieces.head?.bind Piece.text?).map .parameter

/-- Whether a block is an unknown block of a script. -/
def isUnknownBlock (b : Block) : Bool :=
  b.attrs.shape == some .stack && b.attrs.category == some .obsolete

/-- The block of a line with its comment, and with the key under which it may turn out to be a call of a
defined block. -/
def settleLine (v : Vocabulary) (comment : Option Text) (b : Block) : Block :=
  let comment := comment.filter fun c => !c.all Text.isBlank
  let calledAs := if isUnknownBlock b then some (v.key b.spec) else none
  { b with attrs := { b.attrs with comment := comment, calledAs := calledAs } }

/-- What a line says by itself. -/
def lineSightings (v : Vocabulary) (b : Block) : List Sighting :=
  (if b.attrs.shape = some .defineHat then headerSightings v b else []) ++
    (if isUnknownBlock b then [.call (v.key b.spec)] else [])

/-- Complete the reading of a line by its comment. -/
def withComment (v : Vocabulary) (comment : Option Text) (o : Outcome Block) : Outcome Block :=
  match o.result with
  | .error f => ⟨.error f, o.complaints, o.sightings⟩
  | .ok b =>
    let (b', rest) := applyDirective comment b
    ⟨.ok (settleLine v rest b'), o.complaints,
      recategorise b b'.attrs.category o.sightings ++ lineSightings v b'⟩

end Line

open Line in
/-- Read a line. -/
def Vocabulary.readLine (v : Vocabulary) (line : Text) : Outcome Block :=
  let line := Text.trim line
  match splitComment [] line with
  | none => withComment v none (readBare v line)
  | some (front, back) =>
    let comment := Text.trim back
    match Text.trim front with
    | [] => .done (Block.comment comment)
    | front => withComment v (some comment) (readBare v front)

end BlockScript
