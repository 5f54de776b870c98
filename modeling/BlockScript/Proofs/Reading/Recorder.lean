import BlockScript.Proofs.Reading.Line
import BlockScript.Reading.Session

/-!
# Reading into a session

Reading can also be told as it happens: complaints are made, and things are sighted, the moment that they
come up, in a session which has a history. A reporter is sighted before it is known in what category it
ends, so its entry is changed later. Such a reading could look at what has been sighted before, and could
change it. It does neither: it comes to the outcome that is read without any session.

## Key results

- `Recorder.Records.bind`: outcomes are joined as readings follow each other
- `Recorder.readBlock_records`: an entry that is changed later is one that the reading has made
- `Vocabulary.recordLine_records`: a line is read into a session as it is read without one
- `Vocabulary.recordLine_independent`: so its reading does not depend on the history
-/

namespace BlockScript

/-- A reading that writes what it reports into a session. -/
abbrev Recorder := ExceptT Fault (StateM Session)

/-- Put a reporter that has been sighted into another category. -/
def Sighting.withCategory (c : Option Category) : Sighting → Sighting
  | .reporter name _ => .reporter name c
  | x => x

@[simp] theorem addComplaints_nil (known : List Complaint) : addComplaints known [] = known := rfl

/-- `addComplaints` adds complaints one at a time, so it can be done in two goes. -/
theorem addComplaints_append (known cs ds : List Complaint) :
    addComplaints known (cs ++ ds) = addComplaints (addComplaints known cs) ds :=
  List.foldl_append

namespace Recorder

variable {α β : Type}

/-- Carry out a reading in a session. -/
def runIn (r : Recorder α) (s : Session) : Except Fault α × Session := r.run.run s

/-! ## What a reading writes -/

/-- Make a complaint. -/
def complain (c : Complaint) : Recorder Unit :=
  modify fun s => { s with pending := addComplaints s.pending [c] }

/-- Sight something. -/
def sight (x : Sighting) : Recorder Unit :=
  modify fun s => { s with sightings := s.sightings ++ [x] }

/-- How much has been sighted, which is the number of what is sighted next. -/
def count : Recorder Nat := do
  return (← get).sightings.length

/-- Change the category with which a block has been sighted under a number, if it has been sighted. -/
def recategorise (number : Nat) (b : Block) (c : Option Category) : Recorder Unit :=
  modify fun s =>
    if b.attrs.namedAs.isSome then
      { s with sightings := s.sightings.modify number (Sighting.withCategory c) }
    else s

@[simp] theorem runIn_pure (a : α) (s : Session) : (pure a : Recorder α).runIn s = (.ok a, s) := rfl

@[simp] theorem runIn_throw (f : Fault) (s : Session) :
    (throw f : Recorder α).runIn s = (.error f, s) := rfl

/-- `runIn` of one reading after another: the second one is carried out where the first one has left the
    session. -/
private theorem runIn_bind (r : Recorder α) (next : α → Recorder β) (s : Session) :
    (r >>= next).runIn s =
      match r.runIn s with
      | (.ok a, s') => (next a).runIn s'
      | (.error f, s') => (.error f, s') := by
  -- unfolded, the second reading is matched on the result of the first
  show (ExceptT.bindCont next (r.runIn s).1).run (r.runIn s).2 = _
  cases r.runIn s with
  | mk result s' => cases result <;> rfl

@[simp] theorem runIn_count (s : Session) : count.runIn s = (.ok s.sightings.length, s) := rfl

/-- What `recategorise` changes under a number is what was sighted next when that was the number of the
    next. -/
private theorem runIn_recategorise (before later : List Sighting) (pending : List Complaint) (b : Block)
    (c : Option Category) :
    (recategorise before.length b c).runIn ⟨before ++ later, pending⟩ =
      (.ok (), ⟨before ++ Line.recategorise b c later, pending⟩) := by
  -- the entries in front are skipped, so the first of the later ones is changed
  have hmodify : (before ++ later).modify before.length (Sighting.withCategory c) =
      before ++ later.modifyHead (Sighting.withCategory c) :=
    List.modifyTailIdx_add (List.modifyHead (Sighting.withCategory c)) 0 before later
  have hrun : (recategorise before.length b c).runIn ⟨before ++ later, pending⟩ =
      (.ok (), if b.attrs.namedAs.isSome then
        ⟨(before ++ later).modify before.length (Sighting.withCategory c), pending⟩
        else ⟨before ++ later, pending⟩) := rfl
  rw [hrun, hmodify]
  unfold Line.recategorise
  cases b.attrs.namedAs with
  | none => rfl
  | some name =>
    cases later with
    | nil => rfl
    | cons x later => cases x <;> rfl

/-! ## Readings and outcomes -/

/-- `Records r o`: in every session `r` has the outcome `o`. The result does not depend on the session, and
    what is reported is added to it. -/
def Records (r : Recorder α) (o : Outcome α) : Prop := ∀ s, r.runIn s = (o.result, s.record o)

/-- To give a result `Records` being done. -/
theorem Records.pure (a : α) : Records (pure a) (Outcome.done a) := by
  intro s
  simp [Outcome.done, Session.record, addComplaints]

/-- To fail `Records` the fault. -/
theorem Records.throw (f : Fault) : Records (throw f : Recorder α) (Outcome.fail f) := by
  intro s
  simp [Outcome.fail, Session.record, addComplaints]

/-- Readings that follow each other `Records` the joined outcomes. -/
theorem Records.bind {r : Recorder α} {o : Outcome α} {next : α → Recorder β}
    {later : α → Outcome β} (h : Records r o) (hnext : ∀ a, Records (next a) (later a)) :
    Records (r >>= next) (o.andThen later) := by
  intro s
  rw [runIn_bind, h]
  unfold Outcome.andThen
  -- the second reading takes place only if the first one has a result
  cases ho : o.result with
  | error f => simp [Session.record]
  | ok a =>
    dsimp only
    rw [hnext]
    simp only [Session.record, addComplaints_append, List.append_assoc]

/-- `Records` is kept when both results are changed in the same way. -/
theorem Records.map {r : Recorder α} {o : Outcome α} (h : Records r o) (f : α → β) :
    Records (do return f (← r)) (o.map f) := by
  have hmap : o.map f = o.andThen fun a => .done (f a) := by
    unfold Outcome.map Outcome.andThen
    cases o.result <;> simp [Outcome.done, Except.map]
  rw [hmap]
  exact h.bind fun a => .pure (f a)

/-- `Records` is kept when complaints and sightings are reported first and come first in the outcome. -/
theorem Records.after {r : Recorder α} {o : Outcome α} {cs : List Complaint} {xs : List Sighting}
    {first : Recorder Unit} (hfirst : Records first ⟨.ok (), cs, xs⟩) (h : Records r o) :
    Records (do first; r) (o.after cs xs) :=
  hfirst.bind fun _ => h

/-- `complain` makes one complaint and nothing else. -/
private theorem complain_records (c : Complaint) : Records (complain c) ⟨.ok (), [c], []⟩ := by
  intro s
  simp [Session.record]
  rfl

/-- `sight` adds one sighting and nothing else. -/
private theorem sight_records (x : Sighting) : Records (sight x) ⟨.ok (), [], [x]⟩ := by
  intro s
  simp [Session.record]
  rfl

/-- Several complaints, in order. -/
private theorem complaints_record (cs : List Complaint) :
    Records (forM cs complain) ⟨.ok (), cs, []⟩ := by
  induction cs with
  | nil => exact .pure ()
  | cons c cs ih =>
    rw [List.forM_cons]
    exact (complain_records c).bind fun _ => ih

/-- Several sightings, in order. -/
private theorem sightings_record (xs : List Sighting) :
    Records (forM xs sight) ⟨.ok (), [], xs⟩ := by
  induction xs with
  | nil => exact .pure ()
  | cons x xs ih =>
    rw [List.forM_cons]
    exact (sight_records x).bind fun _ => ih

/-! ## Fragments -/

open Fragment

/-- Read the arguments into the slots of a text. -/
def fillSlots (nested : Text → Recorder Block) : List Text → List Text → Recorder (List Piece)
  | [], _ => return []
  | part :: parts, args =>
    match part, args with
    | ['_'], arg :: args => do
      let b ← nested arg
      return b.toPiece :: (← fillSlots nested parts args)
    | _, _ => return .text part :: (← fillSlots nested parts args)

/-- Complete a block whose pieces are still to be read. A reporter is sighted before its pieces are read,
    with the category that it has by then, which the words of its overrides can still change. -/
def finish (attrs : Attrs) (words : List Text) (fill : Recorder (List Piece)) :
    Recorder Block := do
  let number ← count
  forM (ownSighting attrs) sight
  let ps ← fill
  if words = [] then
    forM ((listUse? ⟨attrs, ps⟩).toList.map .list) sight
    return ⟨attrs, ps⟩
  else
    let overrides := words.map .ofWord
    let b := override overrides ⟨attrs, ps⟩
    forM (overrideComplaints overrides) complain
    recategorise number b b.attrs.category
    return b

/-- Read a fragment that is a block. -/
def readBlock (v : Vocabulary) (nested : Text → Recorder Block) (shape : Shape)
    (pieces : List Text) : Recorder Block :=
  let pieces := trimEnds pieces
  let (spec, words) := Override.split (specOf pieces)
  let args := argumentsOf pieces
  match identify v spec args shape with
  | .error e => throw (.missingSpec e.id)
  | .ok ⟨attrs, text⟩ =>
    let adds := attrs.id == some "_ + _".toList
    finish attrs words (fillSlots nested (partsAt (isMark adds) text) args)

/-- Read a fragment, given how to read what is nested in it. -/
def readWith (v : Vocabulary) (nested : Text → Recorder Block) (isLine : Bool) (code : Text) :
    Recorder Block := do
  let bracket := outerBracket isLine code
  let inner := if isLine then code else Bracket.strip code
  let tokens := tokenize v.signRule inner
  let pieces := tokens.texts
  forM (outerComplaints bracket code) complain
  forM (innerComplaints bracket tokens) complain
  match v.header? inner with
  | some word => return definition inner word pieces
  | none =>
    match insertShape? bracket pieces inner with
    | some shape => return insert shape inner
    | none => readBlock v nested (blockShape bracket pieces inner) pieces

/-- Read a fragment with the given number of levels left. -/
def read (v : Vocabulary) : Nat → Bool → Text → Recorder Block
  | 0, _, _ => throw .tooDeep
  | depth + 1, isLine, code => readWith v (read v depth false) isLine code

/-- `fillSlots` records what the reading without a session gives, if that is so of what is nested. -/
private theorem fillSlots_records {nested : Text → Recorder Block} {nested' : Text → Outcome Block}
    (h : ∀ t, Records (nested t) (nested' t)) (parts args : List Text) :
    Records (fillSlots nested parts args) (Fragment.fillSlots nested' parts args) := by
  induction parts generalizing args with
  | nil =>
    rw [fillSlots, Fragment.fillSlots]
    exact .pure []
  | cons part parts ih =>
    -- both readers have the same three cases, the last of them being all that is left
    by_cases hslot : ∃ arg rest, part = ['_'] ∧ args = arg :: rest
    · obtain ⟨arg, rest, rfl, rfl⟩ := hslot
      rw [fillSlots, Fragment.fillSlots]
      exact (h arg).bind fun b => (ih rest).map (b.toPiece :: ·)
    · have hnone : ∀ arg rest, part = ['_'] → args = arg :: rest → False :=
        fun arg rest hpart hargs => hslot ⟨arg, rest, hpart, hargs⟩
      rw [fillSlots.eq_3 nested args part parts hnone,
        Fragment.fillSlots.eq_3 nested' args part parts hnone]
      exact (ih args).map (.text part :: ·)

/-- So does `finish`, though it changes an entry later: it is the one that it has made itself. -/
private theorem finish_records {fill : Recorder (List Piece)} {pieces : Outcome (List Piece)}
    (h : Records fill pieces) (attrs : Attrs) (words : List Text) :
    Records (finish attrs words fill) (Fragment.finish attrs words pieces) := by
  intro s
  -- the block is recorded before its pieces, with the category that it has so far
  have hpieces : (do forM (ownSighting attrs) sight; fill).runIn s =
      (pieces.result, ⟨s.sightings ++ (ownSighting attrs ++ pieces.sightings),
        addComplaints s.pending pieces.complaints⟩) :=
    (sightings_record _).after h s
  rw [finish, runIn_bind, runIn_count]
  dsimp only
  rw [← bind_assoc, runIn_bind, hpieces]
  unfold Fragment.finish
  cases pieces.result with
  | error f => rfl
  | ok ps =>
    dsimp only
    split
    · -- without overrides a list that is used is sighted last
      have hlists := (sightings_record ((listUse? ⟨attrs, ps⟩).toList.map .list)).bind
        (fun _ => Records.pure (⟨attrs, ps⟩ : Block))
      rw [hlists]
      rename_i hwords
      simp [Outcome.andThen, Outcome.done, Session.record, hwords, overrideComplaints]
    · rename_i hwords
      generalize hb : override (words.map .ofWord) ⟨attrs, ps⟩ = b
      -- overrides leave the name alone, so the block has an entry of its own just as before
      have hown : Line.recategorise b b.attrs.category (ownSighting attrs ++ pieces.sightings) =
          ownSighting b.attrs ++ pieces.sightings := by
        have hnamed : b.attrs.namedAs = attrs.namedAs := by
          rw [← hb, override, Override.applyAll_eq]
        unfold Line.recategorise ownSighting
        rw [hnamed]
        cases attrs.namedAs <;> rfl
      rw [runIn_bind, complaints_record]
      dsimp only [Session.record]
      rw [runIn_bind, List.append_nil, runIn_recategorise, hown]
      simp [addComplaints_append]

/-- So does `readBlock`. -/
theorem readBlock_records {v : Vocabulary} {nested : Text → Recorder Block}
    {nested' : Text → Outcome Block} (h : ∀ t, Records (nested t) (nested' t)) (shape : Shape)
    (pieces : List Text) :
    Records (readBlock v nested shape pieces) (Fragment.readBlock v nested' shape pieces) := by
  unfold readBlock Fragment.readBlock
  dsimp only
  generalize identify v (Override.split (specOf (trimEnds pieces))).1
    (argumentsOf (trimEnds pieces)) shape = found
  cases found with
  | error e => exact .throw _
  | ok f => exact finish_records (fillSlots_records h _ _) _ _

/-- And `readWith`, which complains about brackets before anything is read. -/
private theorem readWith_records {v : Vocabulary} {nested : Text → Recorder Block}
    {nested' : Text → Outcome Block} (h : ∀ t, Records (nested t) (nested' t)) (isLine : Bool)
    (code : Text) :
    Records (readWith v nested isLine code) (Fragment.readWith v nested' isLine code) := by
  unfold readWith Fragment.readWith
  dsimp only
  rw [← bind_assoc]
  refine Records.after ?_ ?_
  · exact (complaints_record _).bind fun _ => complaints_record _
  · cases v.header? (if isLine then code else Bracket.strip code) with
    | some word => exact .pure _
    | none =>
      dsimp only
      -- the condition is the same on both sides, so it need not be opened
      generalize insertShape? (outerBracket isLine code)
        (tokenize v.signRule (if isLine then code else Bracket.strip code)).texts
        (if isLine then code else Bracket.strip code) = shape
      cases shape with
      | some shape => exact .pure _
      | none => exact readBlock_records h _ _

/-- So `read` over a session `Records` what `Fragment.read` gives, by induction on the levels that are
    left. -/
theorem read_records (v : Vocabulary) (depth : Nat) (isLine : Bool) (code : Text) :
    Records (read v depth isLine code) (Fragment.read v depth isLine code) := by
  induction depth generalizing isLine code with
  | zero => exact .throw .tooDeep
  | succ depth ih => exact readWith_records (ih false) isLine code

/-! ## Lines -/

open Line

/-- Read a line without its comment. -/
def readBare (v : Vocabulary) (line : Text) : Recorder Block :=
  if isLoneArgument v line then
    return lone (← read v nestingLimit false line)
  else read v nestingLimit true line

/-- Read a line whose comment has been split off. A reporter that it consists of is sighted before anything
    else of the line, and the comment can change its category after everything else. -/
def readCommented (v : Vocabulary) (comment : Option Text) (line : Text) : Recorder Block := do
  let number ← count
  let b ← readBare v line
  let (b', rest) := applyDirective comment b
  recategorise number b b'.attrs.category
  forM (lineSightings v b') sight
  return settleLine v rest b'

/-- `readBare` records what it gives without a session. -/
private theorem readBare_records (v : Vocabulary) (line : Text) :
    Records (readBare v line) (Line.readBare v line) := by
  unfold readBare Line.readBare
  split
  · exact (read_records v nestingLimit false line).map lone
  · exact read_records v nestingLimit true line

/-- `readCommented` records what `withComment` gives, with the entry of the line itself as the first one that
    is new. -/
private theorem readCommented_records (v : Vocabulary) (comment : Option Text) (line : Text) :
    Records (readCommented v comment line) (withComment v comment (Line.readBare v line)) := by
  -- the sightings of before are only counted, so that the new ones can be found again
  intro s
  rw [readCommented, runIn_bind, runIn_count]
  dsimp only
  rw [runIn_bind, readBare_records]
  unfold withComment
  cases (Line.readBare v line).result with
  | error f => rfl
  | ok b =>
    dsimp only [Session.record]
    -- the number was taken before the line was read, so it is that of its own entry
    rw [runIn_bind, runIn_recategorise]
    dsimp only
    rw [runIn_bind, sightings_record]
    simp [Session.record]

end Recorder

/-! ## The tables of a session -/

namespace Session

/-- `s'.Extends s new`: the session has gone on from `s`. Each table has what it had before, at its place, and
    behind it in order what is new. -/
structure Extends (s' s : Session) (new : List Sighting) : Prop where
  sightings : s'.sightings = s.sightings ++ new
  definitions : s'.definitions = s.definitions ++ new.filterMap Sighting.definition?
  parameters : s'.parameters = s.parameters ++ new.filterMap Sighting.parameter?
  lists : s'.lists = s.lists ++ new.filterMap Sighting.list?
  calls : ∀ key, (Dictionary.get? key s'.calls).getD [] =
    (Dictionary.get? key s.calls).getD [] ++
      ((new.filterMap Sighting.call?).filter fun k => k == key).map fun _ => some .obsolete
  reporters : ∀ name, (Dictionary.get? name s'.reporters).getD [] =
    (Dictionary.get? name s.reporters).getD [] ++
      ((new.filterMap Sighting.reporter?).filter fun r => r.1 == name).map (·.2)
  callKeys : Dictionary.keys s.calls <+: Dictionary.keys s'.calls
  reporterKeys : Dictionary.keys s.reporters <+: Dictionary.keys s'.reporters

/-- The table of `calls` is made like that of `reporters`, with one category for all. -/
private theorem calls_eq (s : Session) : s.calls =
    ((s.sightings.filterMap Sighting.call?).map fun key => (key, some Category.obsolete)).foldl
      (fun d e => Dictionary.append e.1 e.2 d) [] := by
  rw [calls, List.foldl_map]

/-- A session with an outcome on `record` is one that `Extends` it by what is sighted. -/
private theorem record_extends {α : Type} (s : Session) (o : Outcome α) :
    (s.record o).Extends s o.sightings := by
  constructor
  · rfl
  · simp [definitions, record]
  · simp [parameters, record]
  · simp [lists, record]
  · -- under each name the new entries come after the old ones
    intro key
    simp only [calls_eq, record, List.filterMap_append, List.map_append, List.foldl_append]
    rw [Dictionary.getD_get?_appendAll, List.filter_map, List.map_map]
    rfl
  · intro name
    simp only [reporters, record, List.filterMap_append, List.foldl_append]
    rw [Dictionary.getD_get?_appendAll]
  · simp only [calls_eq, record, List.filterMap_append, List.map_append, List.foldl_append]
    exact Dictionary.keys_isPrefix_appendAll _ _
  · simp only [reporters, record, List.filterMap_append, List.foldl_append]
    exact Dictionary.keys_isPrefix_appendAll _ _

end Session

namespace Vocabulary

open Line

/-- Read a line into a session. -/
def recordLine (v : Vocabulary) (line : Text) : Recorder Block :=
  let line := Text.trim line
  match splitComment [] line with
  | none => Recorder.readCommented v none line
  | some (front, back) =>
    let comment := Text.trim back
    match Text.trim front with
    | [] => return Block.comment comment
    | front => Recorder.readCommented v (some comment) front

/-- `recordLine` records what `readLine` reports. -/
theorem recordLine_records (v : Vocabulary) (line : Text) :
    Recorder.Records (v.recordLine line) (v.readLine line) := by
  unfold recordLine readLine
  dsimp only
  cases splitComment [] (Text.trim line) with
  | none => exact Recorder.readCommented_records v none (Text.trim line)
  | some parts =>
    dsimp only
    cases Text.trim parts.1 with
    | nil => exact .pure _
    | cons c front => exact Recorder.readCommented_records v _ (c :: front)

/-- `recordLine` does not depend on what has been read before. In any two sessions without pending complaints
    it comes to the same result, which is that of `readLine` by itself, makes the same complaints, and each
    session `Extends` the one before by the same entries: those that the block of the line remembers, where it
    has registered itself. -/
theorem recordLine_independent (v : Vocabulary) (line : Text) (s s' : Session)
    (h : s.pending = []) (h' : s'.pending = []) :
    ((v.recordLine line).runIn s).1 = ((v.recordLine line).runIn s').1 ∧
      ((v.recordLine line).runIn s).2.pending = ((v.recordLine line).runIn s').2.pending ∧
      (v.recordLine line).runIn s = ((v.readLine line).result, s.record (v.readLine line)) ∧
      ∃ new, ((v.recordLine line).runIn s).2.Extends s new ∧
        ((v.recordLine line).runIn s').2.Extends s' new ∧
        ∀ b, ((v.recordLine line).runIn s).1 = .ok b →
          new.filterMap Sighting.name? = b.allAttrs.filterMap (·.namedAs) ∧
            new.filterMap Sighting.call? = b.allAttrs.filterMap (·.calledAs) := by
  rw [recordLine_records v line s, recordLine_records v line s']
  refine ⟨rfl, ?_, rfl, (v.readLine line).sightings, s.record_extends _, s'.record_extends _, ?_⟩
  · simp only [Session.record, h, h']
  · intro b hb
    have hregistered := v.readLine_registered line
    exact ⟨hregistered.names b hb, hregistered.calls b hb⟩

/-- An unknown block with an unknown reporter, read before and after the name of the reporter has been used
    as that of a list. -/
theorem recordLine_independent_of_list :
    (((empty true).recordLine "say (n)".toList).runIn {}).1 =
        (((empty true).recordLine "say (n)".toList).runIn ⟨[.list ['n']], []⟩).1 ∧
      (((empty true).recordLine "say (n)".toList).runIn ⟨[.list ['n']], []⟩).2.Extends
        ⟨[.list ['n']], []⟩ [.reporter ['n'] (some .vars), .call "say _".toList] := by
  obtain ⟨hresult, -, -, new, hnew, hnew', -⟩ := (empty true).recordLine_independent
    "say (n)".toList {} ⟨[.list ['n']], []⟩ rfl rfl
  -- in a session without a history the new entries are all there is
  obtain rfl : new = [.reporter ['n'] (some .vars), .call "say _".toList] := by
    have hentries : (((empty true).recordLine "say (n)".toList).runIn {}).2.sightings = new :=
      hnew.sightings
    rw [← hentries]
    decide +kernel
  exact ⟨hresult, hnew'⟩

end Vocabulary

end BlockScript
