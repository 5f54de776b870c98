import BlockScript.Block.Basic
import BlockScript.Dictionary

/-!
# The palette

All blocks that are known, by category. A block is named by its English spec, in which an underscore
stands for an argument and an at sign with a name for an image. Most blocks are plain; some start or
end a script, or open, divide or close a C block. Where a spec is listed twice the later entry counts.
-/

namespace BlockScript

/-! ## Entries -/

/-- A block of the palette. -/
structure Entry where
  spec : Text
  /-- The shape, where the block has one wherever it stands. -/
  shape : Option Shape := none
  flag : Option Flag := none
  deriving DecidableEq

namespace Entry

/-- A block without a shape of its own. -/
def plain (spec : String) : Entry := { spec := spec.toList }

/-- A block that starts a script. -/
def hat (spec : String) : Entry := { spec := spec.toList, shape := some .hat }

/-- A block that ends a script. -/
def cap (spec : String) : Entry := { spec := spec.toList, shape := some .cap }

/-- A block that opens a C block. -/
def opening (spec : String) : Entry := { spec := spec.toList, flag := some .cStart }

/-- A block that opens a C block which ends a script. -/
def openingCap (spec : String) : Entry :=
  { spec := spec.toList, shape := some .cap, flag := some .cStart }

/-- The block that starts another branch of a C block. -/
def dividing (spec : String) : Entry := { spec := spec.toList, flag := some .cElse }

/-- The block that closes a C block. -/
def closing (spec : String) : Entry := { spec := spec.toList, flag := some .cEnd }

end Entry

/-! ## The blocks of each category -/

/-- The blocks of the category motion. -/
def motionEntries : List Entry :=
  ["move _ steps", "turn @arrow-ccw _ degrees", "turn @arrow-cw _ degrees",
   "point in direction _", "point towards _", "go to x:_ y:_", "go to _",
   "glide _ secs to x:_ y:_", "change x by _", "set x to _", "change y by _", "set y to _",
   "if on edge, bounce", "set rotation style _", "x position", "y position", "direction"].map
   .plain

/-- The blocks of the category looks. -/
def looksEntries : List Entry :=
  ["say _ for _ secs", "say _", "think _ for _ secs", "think _", "show", "hide",
   "switch costume to _", "next costume", "switch backdrop to _", "change _ effect by _",
   "set _ effect to _", "clear graphic effects", "change size by _", "set size to _%",
   "go to front", "go back _ layers", "costume #", "backdrop name", "size",
   "switch backdrop to _ and wait", "next backdrop", "backdrop #", "switch to costume _",
   "switch to background _", "next background", "background #"].map .plain

/-- The blocks of the category sound. -/
def soundEntries : List Entry :=
  ["play sound _", "play sound _ until done", "stop all sounds", "play drum _ for _ beats",
   "rest for _ beats", "play note _ for _ beats", "set instrument to _", "change volume by _",
   "set volume to _%", "volume", "change tempo by _", "set tempo to _ bpm", "tempo"].map .plain

/-- The blocks of the category pen. -/
def penEntries : List Entry :=
  ["clear", "stamp", "pen down", "pen up", "set pen color to _", "change pen color by _",
   "change pen shade by _", "set pen shade to _", "change pen size by _",
   "set pen size to _"].map .plain

/-- The blocks of the category variables. -/
def variablesEntries : List Entry :=
  ["set _ to _", "change _ by _", "show variable _", "hide variable _"].map .plain

/-- The blocks of the category list. -/
def listEntries : List Entry :=
  ["add _ to _", "delete _ of _", "insert _ at _ of _", "replace item _ of _ with _",
   "item _ of _", "length of _", "_ contains _", "show list _", "hide list _"].map .plain

/-- The blocks of the category events. -/
def eventsEntries : List Entry :=
  [.hat "when @green-flag clicked", .hat "when _ key pressed", .hat "when this sprite clicked",
   .hat "when Stage clicked", .hat "when backdrop switches to _", .hat "when _ > _",
   .hat "when I receive _", .plain "broadcast _", .plain "broadcast _ and wait"]

/-- The blocks of the category control. -/
def controlEntries : List Entry :=
  [.plain "wait _ secs", .opening "repeat _", .openingCap "forever", .opening "if _ then",
   .dividing "else", .closing "end", .plain "wait until _", .opening "repeat until _",
   .cap "stop _", .hat "when I start as a clone", .plain "create clone of _",
   .cap "delete this clone", .opening "if _", .openingCap "forever if _", .cap "stop script",
   .cap "stop all"]

/-- The blocks of the category sensing. -/
def sensingEntries : List Entry :=
  ["touching _?", "touching color _?", "color _ is touching _?", "distance to _",
   "ask _ and wait", "answer", "key _ pressed?", "mouse down?", "mouse x", "mouse y",
   "loudness", "video _ on _", "turn video _", "set video transparency to _%", "timer",
   "reset timer", "_ of _", "current _", "days since 2000", "username", "loud?"].map .plain

/-- The blocks of the category operators. -/
def operatorsEntries : List Entry :=
  ["_ + _", "_ - _", "_ * _", "_ / _", "pick random _ to _", "_ < _", "_ = _", "_ > _",
   "_ and _", "_ or _", "not _", "join _ _", "letter _ of _", "length of _", "_ mod _",
   "round _", "_ of _"].map .plain

/-- Blocks of extension hardware. -/
def extensionEntries : List Entry :=
  [.hat "when _", .hat "when _ _ _", .plain "sensor _?", .plain "_ sensor value",
   .plain "turn _ on for _ secs", .plain "turn _ on", .plain "turn _ off",
   .plain "set _ power _", .plain "set _ direction _", .hat "when distance _ _",
   .hat "when tilt _ _", .plain "distance", .plain "tilt", .plain "turn motor on for _ secs",
   .plain "turn motor on", .plain "turn motor off", .plain "set motor power _",
   .plain "set motor direction _", .hat "when distance < _", .hat "when tilt = _",
   .plain "motor on", .plain "motor off", .plain "motor on for _ secs", .plain "motor power _",
   .plain "motor direction _"]

/-- The ellipsis, which stands for blocks left out. -/
def greyEntries : List Entry :=
  ["…", "..."].map .plain

/-- The palette, category by category. -/
def palette : List (Category × List Entry) := [
  (.motion, motionEntries),
  (.looks, looksEntries),
  (.sound, soundEntries),
  (.pen, penEntries),
  (.vars, variablesEntries),
  (.list, listEntries),
  (.events, eventsEntries),
  (.control, controlEntries),
  (.sensing, sensingEntries),
  (.operators, operatorsEntries),
  (.extension, extensionEntries),
  (.grey, greyEntries)]

/-! ## Looking up a block -/

/-- Whether a character can stand in the name of an image. -/
def isImageChar (c : Char) : Bool := c == '-' || c.isAlpha

/-- The name of the first image in a spec. -/
def imageName? : Text → Option Text
  | [] => none
  | c :: rest =>
    if c = '@' ∧ (rest.head?.any isImageChar) then some (rest.takeWhile isImageChar)
    else imageName? rest

/-- A spec in which the first image is left without its name. -/
def withoutImageName : Text → Text
  | [] => []
  | c :: rest =>
    if c = '@' ∧ (rest.head?.any isImageChar) then c :: rest.dropWhile isImageChar
    else c :: withoutImageName rest

/-- The attributes of an entry in a category. -/
def Entry.attrs (category : Category) (e : Entry) : Attrs :=
  { id := some e.spec
    category := some category
    shape := e.shape
    flag := e.flag
    image := imageName? e.spec }

/-- The attributes of every known block, by its name. -/
def knownBlocks : Dictionary Attrs :=
  Dictionary.ofList (palette.flatMap fun group =>
    group.2.map fun e => (e.spec, e.attrs group.1))

/-- The attributes of a known block. -/
def knownBlock? (id : Text) : Option Attrs := Dictionary.get? id knownBlocks

/-- Whether a block is known. -/
def isKnown (id : Text) : Bool := (knownBlock? id).isSome

end BlockScript
