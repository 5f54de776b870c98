import BlockScript.Reading.Line
import BlockScript.Workspace.Log
import BlockScript.Workspace.Resolution

/-!
# Workspaces

A text is read into a workspace line by line, which lays out the blocks in scripts and logs complaints by
line. A line that is nested too deeply becomes one unknown block. Lines are counted from one, without the
blank lines in front of the text.
-/

namespace BlockScript

/-- There is no line of the given number. -/
structure NoSuchLine where
  line : Int
  deriving DecidableEq

/-- A complaint that stops the workspace, with its line. -/
structure Halt where
  line : Int
  complaint : Complaint
  deriving DecidableEq

/-- A line number that is out of range, in words. -/
def NoSuchLine.message (_ : NoSuchLine) : Text := "list index out of range".toList

/-- A complaint with its line, in words. -/
def Halt.message (h : Halt) : Text :=
  "line ".toList ++ Text.ofInt h.line ++ ": ".toList ++ h.complaint.message

/-! ## Workspaces -/

/-- What a text is read into. -/
structure Workspace where
  vocabulary : Vocabulary
  session : Session := {}
  layout : Layout := {}
  log : Log := []
  /-- The number of the line that is being read. -/
  line : Int := 1
  /-- The lines of the text that is being read. -/
  source : List Text := []

namespace Workspace

/-- The line of the given number. Zero is the last line, and numbers below count backwards from it. -/
def lineAt? (w : Workspace) (number : Int) : Option Text :=
  let index := if number < 1 then number - 1 + w.source.length else number - 1
  if 0 ≤ index then w.source[index.toNat]? else none

/-- Log complaints about the present line. -/
def complain (complaints : List Complaint) (w : Workspace) : Workspace :=
  { w with log := w.log ++ complaints.map fun c => (w.line, c) }

/-- Log a complaint, about the present line if no other is given. -/
def complainAt (line : Option Int) (c : Complaint) (w : Workspace) : Workspace :=
  { w with log := w.log ++ [(line.getD w.line, c)] }

/-- Log a complaint and stop if it is critical. -/
def raise (line : Option Int) (critical : Bool) (c : Complaint) (w : Workspace) :
    Workspace × Option Halt :=
  (w.complainAt line c, if critical then some ⟨line.getD w.line, c⟩ else none)

/-! ### Lines -/

/-- What a line becomes that is nested too deeply. -/
def unread (line : Text) : Block :=
  let t := Text.trim line
  ⟨{ id := some t, category := some .obsolete, shape := some .stack }, [.text t]⟩

/-- Read a line. What it reports is recorded even if it fails. -/
def readLine (line : Text) (w : Workspace) : Workspace × Except Fault Block :=
  let o := w.vocabulary.readLine line
  let session := w.session.record o
  match o.result with
  | .ok b =>
    (({ w with session := session.fetched }).complain session.pending, .ok b)
  | .error .tooDeep =>
    (({ w with session := session.fetched }).complain [.tooDeep], .ok (unread line))
  | .error f => ({ w with session := session }, .error f)

/-- Lay out a block. -/
def place (b : Block) (w : Workspace) : Workspace := { w with layout := w.layout.add b }

/-- Finish the present script. -/
def newScript (w : Workspace) : Workspace := { w with layout := w.layout.newScript }

/-- Read a line and lay out its block. -/
def addLine (line : Text) (w : Workspace) : Workspace × Option Fault :=
  match w.readLine line with
  | (w, .ok b) => (w.place b, none)
  | (w, .error f) => (w, some f)

/-- Take a line of a text. A blank line ends the script, except inside a C block. -/
def takeLine (line : Text) (w : Workspace) : Workspace × Option Fault :=
  if Text.trim line = [] then
    (if w.layout.nesting.isFlat then w.newScript else w, none)
  else w.addLine line

/-- Take lines one after the other, as long as none fails. -/
def takeLines : List Text → Workspace → Workspace × Option Fault
  | [], w => (w, none)
  | line :: rest, w =>
    match w.takeLine line with
    | (w, none) => takeLines rest { w with line := w.line + 1 }
    | (w, some f) => (w, some f)

/-! ### Texts -/

/-- Resolve the blocks laid out so far. -/
def resolve (w : Workspace) : Workspace := { w with layout := w.layout.resolve w.session }

/-- The lines of a text, without the blanks at its ends. -/
def sourceLines (text : Text) : List Text := Text.lines (Text.trim text)

/-- Read a text, finish the last script and resolve what can be resolved. -/
def readText (text : Text) (w : Workspace) : Workspace × Option Fault :=
  match takeLines (sourceLines text) { w with source := sourceLines text, line := 1 } with
  | (w, none) => (w.newScript.resolve, none)
  | (w, some f) => (w, some f)

/-- A workspace with nothing in it. -/
def new (v : Vocabulary) : Workspace := { vocabulary := v }

/-- The finished scripts. -/
def scripts (w : Workspace) : List Script := w.layout.scripts

/-! ### Reports -/

/-- The complaints about a line, each with the line itself. -/
def reportLine (number : Int) (source : Text) (complaints : List Complaint) : Text :=
  (complaints.flatMap fun c =>
    "line ".toList ++ Text.ofInt number ++ ": error: ".toList ++ c.message ++ "\n    ".toList ++
      Text.trim source ++ ['\n']) ++ ['\n']

/-- The complaints about lines, one after the other. -/
def reportLines (w : Workspace) : List (Int × List Complaint) → Except NoSuchLine Text
  | [] => .ok []
  | (number, complaints) :: rest =>
    match w.lineAt? number with
    | none => .error ⟨number⟩
    | some source => (reportLines w rest).map (reportLine number source complaints ++ ·)

/-- A report of all complaints. It fails if there is one about a line that the text does not have. -/
def report (w : Workspace) : Except NoSuchLine Text := w.reportLines w.log.byLine

end Workspace

/-- The scripts of a text. -/
def Vocabulary.parse (v : Vocabulary) (text : Text) : Except Fault Workspace :=
  match (Workspace.new v).readText text with
  | (w, none) => .ok w
  | (_, some f) => .error f

end BlockScript
