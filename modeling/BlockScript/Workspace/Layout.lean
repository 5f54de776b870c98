import BlockScript.Workspace.Nesting

/-!
# Laying out scripts

Blocks come one by one and are laid out in scripts. A hat starts a script, a cap ends one, reporters and
comments stand in scripts of their own, and C blocks hold what comes until they are closed. Starting a
script closes every C block that is still open.
-/

namespace BlockScript

/-- The finished scripts, and the script that is being put together. -/
structure Layout where
  scripts : List Script := []
  nesting : Nesting := {}

namespace Layout

/-- Finish the present script, if there is anything in it. -/
def newScript (l : Layout) : Layout :=
  if l.nesting.isEmpty then l
  else { scripts := l.scripts ++ [l.nesting.closed] }

/-- Change the nesting. -/
def nest (f : Nesting → Nesting) (l : Layout) : Layout := { l with nesting := f l.nesting }

/-- Place a block in the innermost container. -/
def place (b : Block) (l : Layout) : Layout := l.nest (Nesting.place (.block b))

/-- Place a block in a script of its own. -/
def placeAlone (b : Block) (l : Layout) : Layout := (l.newScript.place b).newScript

/-- Add a block that plays no part in C blocks, by its shape. -/
def addByShape (b : Block) (l : Layout) : Layout :=
  match b.attrs.shape with
  | some .hat | some .defineHat => l.newScript.place b
  | some .cap =>
    let placed := l.place b
    if placed.nesting.isFlat then placed.newScript else placed
  | some .reporter | some .boolean | some .embedded => l.placeAlone b
  | _ => l.place b

/-- Add a block. Its flag decides where it goes, and without one its shape. A comment stands alone,
except inside a C block. -/
def add (b : Block) (l : Layout) : Layout :=
  if b.isComment && l.nesting.isFlat then l.placeAlone b
  else
    match b.attrs.flag with
    | some .cStart => l.nest (Nesting.openWith b)
    | some .cElse => l.nest (Nesting.divideWith b)
    | some .cEnd => l.nest (Nesting.closeWith b)
    | some .ring => l.placeAlone b
    | _ => l.addByShape b

/-- Change the attributes of all blocks. -/
def mapAttrs (f : Attrs → Attrs) (l : Layout) : Layout :=
  ⟨l.scripts.map (·.map (Node.mapAttrs f)), l.nesting.mapAttrs f⟩

end Layout

end BlockScript
