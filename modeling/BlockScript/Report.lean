import BlockScript.Workspace.Basic
import BlockScript.Script.Json
import BlockScript.Script.Listing
import BlockScript.Vocabulary.Lexicon

/-!
# Reports

A report on a script in English or German: the complaints if there are any, a listing of its scripts,
and the scripts as a file.
-/

namespace BlockScript

/-- What is reported on a text. -/
structure Report where
  /-- What is printed. -/
  output : Text
  /-- The scripts as the contents of a file, laid out for reading, or why they are not saved. -/
  saved : Except SaveError Text

/-- Why there is no report. -/
inductive ReportError where
  | load (e : LoadError)
  | fault (f : Fault)
  | noSuchLine (e : NoSuchLine)
  | unwritable (e : Unwritable)

/-- A report error in words. -/
def ReportError.message : ReportError → Text
  | .load e => e.message
  | .fault f => f.message
  | .noSuchLine e => e.message
  | .unwritable e => e.message

namespace Report

/-- A text that shows what can be written. -/
def sample : Text :=
  "\nwhen flag clicked\nset [i v] to (0)\nrepeat (10)\n    change [i v] by (1)\n    if <(i) > (5)> then\n        say [big]\n    else\n        jump (i)\n    end\nend\n\ndefine jump (height)\nchange y by (height)\nadd (height) to [heights v]\n\n(heights)\n".toList

/-- The complaints about a text as they are printed. -/
def complaints (w : Workspace) : Except NoSuchLine Text :=
  if w.log = [] then .ok [] else w.report.map (· ++ ['\n'])

/-- The report on a text with line ends of any kind. -/
def ofText (text : Text) : Except ReportError Report := do
  let lexicon ← (Lexicon.withPacks [Bundle.home] true ["de".toList] []).mapError .load
  let w ← (lexicon.current.parse (Text.withNewlines text)).mapError .fault
  let said ← (complaints w).mapError .noSuchLine
  let listing ← (Listing.ofScripts w.scripts).mapError .unwritable
  .ok ⟨said ++ listing ++ ['\n'], save true w.scripts⟩

end Report

end BlockScript
