import BlockScript.Main
import BlockScript.Vocabulary.SignRule
import BlockScript.Proofs.Text.LowerCase
import BlockScript.Proofs.Text.Bases
import BlockScript.Proofs.Text.Padding
import BlockScript.Proofs.Script.Forest
import BlockScript.Proofs.Workspace.Moves
import BlockScript.Proofs.Workspace.Trace
import BlockScript.Proofs.Lists
import BlockScript.Proofs.Reading.Comment
import BlockScript.Proofs.Reading.Fragment
import BlockScript.Proofs.Reading.Line
import BlockScript.Proofs.Workspace.Colour
import BlockScript.Proofs.Workspace.Stack
import BlockScript.Proofs.Reading.Literal
import BlockScript.Proofs.Reading.Form
import BlockScript.Proofs.Token.Cut
import BlockScript.Proofs.Token.Segment
import BlockScript.Proofs.Token.Structure
import BlockScript.Proofs.Token.Inner
import BlockScript.Proofs.Text.Weave
import BlockScript.Proofs.Token.Woven
import BlockScript.Proofs.Reading.Woven
import BlockScript.Proofs.Text.Letters
import BlockScript.Proofs.Text.Canonical
import BlockScript.Proofs.Text.Sigma
import BlockScript.Proofs.Vocabulary.Specs
import BlockScript.Proofs.Reading.Recognised
import BlockScript.Proofs.Reading.Header
import BlockScript.Proofs.Reading.Call
import BlockScript.Proofs.Reading.Origin
import BlockScript.Proofs.Workspace.Explicit
import BlockScript.Proofs.Token.Plain
import BlockScript.Proofs.Vocabulary.English
import BlockScript.Proofs.Reading.Name
import BlockScript.Proofs.Reading.ListUse
import BlockScript.Proofs.Workspace.Names
import BlockScript.Proofs.Text.Key
import BlockScript.Proofs.Workspace.Boundaries
import BlockScript.Proofs.Vocabulary.Loads
import BlockScript.Proofs.Reading.Recorder
import BlockScript.Proofs.Block.Formed
import BlockScript.Proofs.Reading.Success
import BlockScript.Proofs.Vocabulary.Bundled
import BlockScript.Proofs.Workspace.Logs
import BlockScript.Proofs.Workspace.Safety
import BlockScript.Proofs.Workspace.Calls
import BlockScript.Proofs.Workspace.Succession
import BlockScript.Proofs.Workspace.Numbers
import BlockScript.Proofs.Vocabulary.Translation
import BlockScript.Proofs.Vocabulary.History
import BlockScript.Proofs.Vocabulary.Blanks
import BlockScript.Proofs.Vocabulary.HeaderWords
import BlockScript.Proofs.Token.Enclosed
import BlockScript.Proofs.Reading.Rendered
import BlockScript.Proofs.Reading.Depth
import BlockScript.Proofs.Reading.Typed
import BlockScript.Proofs.Block.Kind
import BlockScript.Proofs.Reading.Kind
import BlockScript.Proofs.Workspace.Kinds
import BlockScript.Proofs.Vocabulary.Slots
import BlockScript.Proofs.Reading.Override
import BlockScript.Proofs.Reading.Pieces
import BlockScript.Proofs.Reading.Arguments
import BlockScript.Proofs.Token.Comparison
import BlockScript.Proofs.Reading.Comparison
import BlockScript.Proofs.Token.Trailing
import BlockScript.Proofs.Reading.Suffix
import BlockScript.Proofs.Reading.Patch
import BlockScript.Proofs.Reading.Unclosed
import BlockScript.Proofs.Reading.LengthOf
import BlockScript.Proofs.Reading.Mark
import BlockScript.Proofs.Text.Spaced
import BlockScript.Proofs.Reading.Directive
import BlockScript.Proofs.Reading.HeaderText
import BlockScript.Proofs.Reading.Sighted
import BlockScript.Proofs.Reading.Unmarked
import BlockScript.Proofs.Reading.Nested
import BlockScript.Proofs.Workspace.Places
import BlockScript.Proofs.Workspace.Marks
import BlockScript.Proofs.Script.Alike
import BlockScript.Proofs.Workspace.Alike
import BlockScript.Proofs.Workspace.Closing
import BlockScript.Proofs.Workspace.Caps
import BlockScript.Proofs.Workspace.TooDeep
import BlockScript.Proofs.Json.Order
import BlockScript.Proofs.Json.Depth
import BlockScript.Proofs.Json.Characters
import BlockScript.Proofs.Json.Roundtrip
import BlockScript.Proofs.Script.Json
import BlockScript.Proofs.Script.Saved
import BlockScript.Proofs.Workspace.Saved
