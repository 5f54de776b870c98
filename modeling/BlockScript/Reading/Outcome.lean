import BlockScript.Vocabulary.Basic
import BlockScript.Text.Quoted

/-!
# Outcomes of reading

Reading a piece of a script gives a block, unless it fails. Either way it may have complaints, and it
reports what it has sighted on the way: things whose meaning depends on the rest of the script. Nothing
sighted earlier is needed to read a line, so an outcome depends on the text and the vocabulary alone;
running two readings after each other joins their reports.
-/

namespace BlockScript

/-! ## Complaints -/

/-- What can be said against a line. -/
inductive Complaint where
  /-- A bracket is left open. -/
  | unterminated (b : Bracket)
  /-- A word after two colons means nothing. -/
  | unknownOverride (word : Text)
  /-- The blocks of a line are nested too deeply. -/
  | tooDeep
  /-- Something else, in words. -/
  | remark (text : Text)
  deriving DecidableEq

/-- A complaint in words. -/
def Complaint.message : Complaint → Text
  | .unterminated b => "Unterminated \"".toList ++ b.opener :: "\" bracket".toList
  | .unknownOverride word => "Unknown override \"".toList ++ word ++ ['"']
  | .tooDeep => "Blocks are nested too deeply".toList
  | .remark text => text

/-- Add complaints, each only once. -/
def addComplaints (known new : List Complaint) : List Complaint :=
  new.foldl (fun cs c => if c ∈ cs then cs else cs ++ [c]) known

/-! ## Sightings -/

/-- Something whose meaning depends on the whole script, or that gives other things their meaning. -/
inductive Sighting where
  /-- An unknown block of a script, by the key of its spec. -/
  | call (key : Text)
  /-- An unknown reporter, by its text, and its category for the time being. -/
  | reporter (name : Text) (category : Option Category)
  /-- The header of a defined block, by the key of its spec. -/
  | definition (key : Text)
  /-- A parameter of a defined block. -/
  | parameter (name : Text)
  /-- The use of a list. -/
  | list (name : Text)
  deriving DecidableEq

namespace Sighting

/-- The key of a defined block. -/
def definition? : Sighting → Option Text
  | .definition key => some key
  | _ => none

/-- The name of a parameter. -/
def parameter? : Sighting → Option Text
  | .parameter name => some name
  | _ => none

/-- The name of a list. -/
def list? : Sighting → Option Text
  | .list name => some name
  | _ => none

/-- The key of an unknown block. -/
def call? : Sighting → Option Text
  | .call key => some key
  | _ => none

/-- The name of an unknown reporter, with its category. -/
def reporter? : Sighting → Option (Text × Option Category)
  | .reporter name category => some (name, category)
  | _ => none

end Sighting

/-! ## Outcomes -/

/-- Why reading fails. -/
inductive Fault where
  /-- A block with an image has no spec in the language in which it was found. -/
  | missingSpec (id : Text)
  /-- Blocks are nested too deeply. -/
  | tooDeep
  deriving DecidableEq

/-- A fault in words. -/
def Fault.message : Fault → Text
  | .missingSpec id => id.quoted
  | .tooDeep => Complaint.tooDeep.message

/-- The outcome of reading. -/
structure Outcome (α : Type) where
  result : Except Fault α
  complaints : List Complaint := []
  sightings : List Sighting := []

namespace Outcome

variable {α β : Type}

/-- Success with nothing to report. -/
def done (a : α) : Outcome α := { result := .ok a }

/-- Failure. -/
def fail (f : Fault) : Outcome α := { result := .error f }

/-- Go on with the result. A failure ends the reading, what has been reported up to it stays. -/
def andThen (o : Outcome α) (next : α → Outcome β) : Outcome β :=
  match o.result with
  | .error f => ⟨.error f, o.complaints, o.sightings⟩
  | .ok a =>
    let later := next a
    ⟨later.result, o.complaints ++ later.complaints, o.sightings ++ later.sightings⟩

/-- Change the result. -/
def map (f : α → β) (o : Outcome α) : Outcome β := ⟨o.result.map f, o.complaints, o.sightings⟩

/-- Report complaints and sightings before anything else. -/
def after (complaints : List Complaint) (sightings : List Sighting) (o : Outcome α) : Outcome α :=
  ⟨o.result, complaints ++ o.complaints, sightings ++ o.sightings⟩

@[simp] theorem andThen_done (a : α) (next : α → Outcome β) : (done a).andThen next = next a := by
  simp [done, andThen]

@[simp] theorem andThen_fail (f : Fault) (next : α → Outcome β) :
    (fail f : Outcome α).andThen next = fail f := rfl

end Outcome

end BlockScript
