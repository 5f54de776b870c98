import BlockScript.Reading.Outcome

/-!
# Sessions

Lines are read independently of each other. A session collects what they report: all that has been
sighted, from which it is known afterwards what is defined, and the complaints that nobody has fetched
yet.
-/

namespace BlockScript

/-- What has been reported so far: all sightings, and the complaints that have not been fetched yet. -/
structure Session where
  sightings : List Sighting := []
  pending : List Complaint := []
  deriving DecidableEq

namespace Session

/-- Record what a reading reports. -/
def record {α : Type} (s : Session) (o : Outcome α) : Session :=
  ⟨s.sightings ++ o.sightings, addComplaints s.pending o.complaints⟩

/-- The session after its complaints have been fetched. -/
def fetched (s : Session) : Session := { s with pending := [] }

/-! ### Views of the sightings -/

/-- The keys of the defined blocks. -/
def definitions (s : Session) : List Text := s.sightings.filterMap Sighting.definition?

/-- The names of the parameters. -/
def parameters (s : Session) : List Text := s.sightings.filterMap Sighting.parameter?

/-- The names of the lists. -/
def lists (s : Session) : List Text := s.sightings.filterMap Sighting.list?

/-- The categories of the unknown blocks of each key, none of which has been resolved yet. -/
def calls (s : Session) : Dictionary (List (Option Category)) :=
  (s.sightings.filterMap Sighting.call?).foldl
    (fun d key => Dictionary.append key (some .obsolete) d) []

/-- The categories of the unknown reporters of each name. -/
def reporters (s : Session) : Dictionary (List (Option Category)) :=
  (s.sightings.filterMap Sighting.reporter?).foldl (fun d r => Dictionary.append r.1 r.2 d) []

end Session

end BlockScript
