import BlockScript.Reading.Session
import BlockScript.Workspace.Layout

/-!
# Resolving names

Once all lines have been read it is known which blocks are defined, which names are parameters and which
are lists. Three passes give the blocks that were waiting for this their category: calls of defined
blocks, then lists, then parameters. A pass touches only blocks that are still in the category in which
they were waiting, so a category that was set by hand stays.
-/

namespace BlockScript

/-- Move an attribute record from one category to another if it is one of the waiting. -/
def reclassify (waiting : Attrs → Bool) (old new : Category) (a : Attrs) : Attrs :=
  if waiting a ∧ a.category = some old then { a with category := some new } else a

/-- Unknown blocks that a header defines are custom blocks. -/
def resolveCalls (s : Session) : Attrs → Attrs :=
  reclassify (fun a => a.calledAs.any s.definitions.contains) .obsolete .custom

/-- Unknown reporters with the name of a list are lists. -/
def resolveLists (s : Session) : Attrs → Attrs :=
  reclassify (fun a => a.namedAs.any s.lists.contains) .vars .list

/-- Unknown reporters with the name of a parameter are parameters. -/
def resolveParameters (s : Session) : Attrs → Attrs :=
  reclassify (fun a => a.namedAs.any s.parameters.contains) .vars .customArg

/-- Resolve all blocks by what has been sighted. -/
def Layout.resolve (s : Session) (l : Layout) : Layout :=
  ((l.mapAttrs (resolveCalls s)).mapAttrs (resolveLists s)).mapAttrs (resolveParameters s)

end BlockScript
