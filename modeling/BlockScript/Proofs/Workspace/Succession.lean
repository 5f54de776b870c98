import BlockScript.Proofs.Workspace.Logs
import BlockScript.Proofs.Workspace.Exactness

/-!
# Texts one after the other

What has been read before plays no part in how lines are laid out, except for the scripts that are still
open. So a workspace that takes lines can be seen *behind* its past: the scripts, the sightings and the log
of the past stand in front of what is new, and lines are counted on from it. A text that leaves no C block
open leaves nothing but a past when a blank line follows it, and the text behind that is laid out as if it
stood alone.

## Key results

- `Workspace.takeLines_behind`: lines are taken behind a past as they are taken without one
- `Vocabulary.layOut_apart`: two texts with a blank line between them are laid out one behind the other
- `Vocabulary.parse_apart`: they are parsed one behind the other if neither defines anything
-/

namespace BlockScript

/-! ## Behind a past -/

namespace Layout

/-- A layout behind scripts that were finished before. -/
def behind (l : Layout) (past : List Script) : Layout := { l with scripts := past ++ l.scripts }

variable (l : Layout) (past : List Script) (b : Block)

@[simp] theorem behind_nesting : (l.behind past).nesting = l.nesting := rfl

/-- `place` puts a block `behind` a past as without one. -/
@[simp] theorem place_behind : (l.behind past).place b = (l.place b).behind past := rfl

/-- `newScript` does `behind` a past what it does without one. -/
@[simp] theorem newScript_behind : (l.behind past).newScript = l.newScript.behind past := by
  unfold newScript
  rw [behind_nesting]
  split
  · rfl
  · simp [behind]

@[simp] theorem placeAlone_behind : (l.behind past).placeAlone b = (l.placeAlone b).behind past := by
  simp [placeAlone]

/-- `addByShape` does `behind` a past what it does without one, as it looks at the nesting alone. -/
private theorem addByShape_behind : (l.behind past).addByShape b = (l.addByShape b).behind past := by
  unfold addByShape
  split
  case h_3 =>
    -- a cap block ends the script in either case, or in neither
    simp only [place_behind, behind_nesting, newScript_behind]
    split <;> rfl
  all_goals simp only [newScript_behind, place_behind, placeAlone_behind]

/-- `add` does `behind` finished scripts what it does without them. -/
theorem add_behind : (l.behind past).add b = (l.add b).behind past := by
  simp only [add, behind_nesting, placeAlone_behind, addByShape_behind]
  split
  · rfl
  · split <;> rfl

end Layout

namespace Workspace

/-- A workspace behind a past. -/
def behind (w past : Workspace) : Workspace where
  vocabulary := w.vocabulary
  session := ⟨past.session.sightings ++ w.session.sightings, w.session.pending⟩
  layout := w.layout.behind past.layout.scripts
  log := past.log ++ w.log.shift (past.line - 1)
  line := w.line + (past.line - 1)
  source := past.source

variable (w past : Workspace)

theorem newScript_behind : (w.behind past).newScript = w.newScript.behind past := by
  simp [newScript, behind]

theorem place_behind (b : Block) : (w.behind past).place b = (w.place b).behind past := by
  simp [place, behind, Layout.add_behind]

/-- `readLine` does `behind` a past what it does without one. -/
theorem readLine_behind (line : Text) :
    (w.behind past).readLine line = ((w.readLine line).1.behind past, (w.readLine line).2) := by
  have hsession : (w.behind past).session.record (w.vocabulary.readLine line) =
      ⟨past.session.sightings ++ (w.session.record (w.vocabulary.readLine line)).sightings,
        (w.session.record (w.vocabulary.readLine line)).pending⟩ := by
    simp [behind, Session.record]
  have hvocabulary : (w.behind past).vocabulary = w.vocabulary := rfl
  simp only [readLine, hvocabulary, hsession]
  split <;> simp [behind, complain, Session.fetched, Log.shift]

/-- `takeLine` does `behind` a past what it does without one. -/
theorem takeLine_behind (line : Text) :
    (w.behind past).takeLine line = ((w.takeLine line).1.behind past, (w.takeLine line).2) := by
  have hnesting : (w.behind past).layout.nesting = w.layout.nesting := rfl
  unfold takeLine
  -- whether the line is blank and whether a C block is open does not depend on the past
  split
  · rw [hnesting, newScript_behind]
    split <;> rfl
  · simp only [addLine, readLine_behind]
    cases hread : w.readLine line with
    | mk w₁ result =>
      cases result with
      | error f => rfl
      | ok b => simp only [place_behind]

/-- `takeLines` does `behind` a past what it does without one. -/
theorem takeLines_behind (lines : List Text) :
    takeLines lines (w.behind past) =
      ((takeLines lines w).1.behind past, (takeLines lines w).2) := by
  induction lines generalizing w with
  | nil => rfl
  | cons line rest ih =>
    rw [takeLines, takeLines, takeLine_behind]
    cases htaken : w.takeLine line with
    | mk w₁ fault =>
      cases fault with
      | some f => rfl
      | none =>
        -- the next line is counted on in the past, too
        have hnext : { w₁.behind past with line := (w₁.behind past).line + 1 } =
            { w₁ with line := w₁.line + 1 }.behind past := by
          simp [behind, Int.add_right_comm]
        simp only [hnext, ih]

/-- With nothing open and nothing pending, a workspace is a new one `behind` a past. -/
private theorem eq_behind {w : Workspace} (hnesting : w.layout.nesting = {})
    (hpending : w.session.pending = []) :
    w = (new w.vocabulary).behind w := by
  obtain ⟨v, ⟨sightings, pending⟩, ⟨scripts, nesting⟩, log, line, source⟩ := w
  obtain rfl : nesting = {} := hnesting
  obtain rfl : pending = [] := hpending
  have hline : line = 1 + (line - 1) := by omega
  simp [new, behind, Layout.behind, Log.shift, ← hline]

/-! ## Taking lines in parts -/

/-- Blanks at the ends of a line play no part in `takeLine`. -/
private theorem takeLine_trim (line : Text) : w.takeLine (Text.trim line) = w.takeLine line := by
  have hread : w.readLine (Text.trim line) = w.readLine line := by
    simp only [readLine, Vocabulary.readLine_trim, unread, Text.trim_trim]
  simp only [takeLine, addLine, hread, Text.trim_trim]

/-- `takeLines` does the same with lines that are trimmed first. -/
theorem takeLines_map_trim (lines : List Text) : takeLines (lines.map Text.trim) w = takeLines lines w := by
  induction lines generalizing w with
  | nil => rfl
  | cons line rest ih => simp only [List.map_cons, takeLines, takeLine_trim, ih]

variable {w past}

/-- To take lines and more lines is `takeLines` twice. -/
theorem takeLines_append {front back : List Text} {w' : Workspace}
    (h : takeLines front w = (w', none)) : takeLines (front ++ back) w = takeLines back w' := by
  induction front generalizing w with
  | nil =>
    cases h
    rfl
  | cons line rest ih =>
    rw [takeLines] at h
    rw [List.cons_append, takeLines]
    cases htaken : w.takeLine line with
    | mk w₁ fault =>
      rw [htaken] at h
      cases fault with
      | some f => simp at h
      -- a line that has been taken leads to the same state, whatever lines follow
      | none => exact ih h

/-- `takeLines` takes lines as far as one likes, and then the others. -/
theorem exists_takeLines_front {front back : List Text} {w' : Workspace}
    (h : takeLines (front ++ back) w = (w', none)) :
    ∃ w₁, takeLines front w = (w₁, none) ∧ takeLines back w₁ = (w', none) := by
  induction front generalizing w with
  | nil => exact ⟨w, rfl, h⟩
  | cons line rest ih =>
    rw [List.cons_append, takeLines] at h
    rw [takeLines]
    cases htaken : w.takeLine line with
    | mk w₁ fault =>
      rw [htaken] at h
      cases fault with
      | some f => simp at h
      | none => exact ih h

/-- For blank lines `takeLines` ends the script, once and for all, unless a C block is open. -/
private theorem takeLines_blank (hflat : w.layout.nesting.frames = []) (n : Nat) :
    takeLines (List.replicate (n + 1) []) w = ({ w.newScript with line := w.line + (n + 1) }, none) := by
  induction n generalizing w with
  | zero => simp [takeLines, takeLine, (Nesting.isFlat_iff _).2 hflat, newScript]
  | succ n ih =>
    have hempty : w.newScript.layout.nesting = {} := Layout.newScript_nesting _
    -- a new script on an empty one changes nothing
    have hagain : w.layout.newScript.newScript = w.layout.newScript :=
      if_pos (by rw [Layout.newScript_nesting]; rfl)
    have hrest := ih (w := { w.newScript with line := w.line + 1 }) (congrArg Nesting.frames hempty)
    rw [List.replicate_succ, takeLines]
    simp only [takeLine, Text.trim_nil, (Nesting.isFlat_iff _).2 hflat, if_true]
    refine hrest.trans ?_
    simp only [newScript, hagain]
    congr 2
    push_cast
    omega

/-- While a C block is open, `takeLines` does nothing for blank lines but count them. -/
theorem takeLines_blank_nested (hopen : w.layout.nesting.frames ≠ []) (n : Nat) :
    takeLines (List.replicate n []) w = ({ w with line := w.line + n }, none) := by
  -- with a C block open a blank line ends nothing, and is only counted
  have hflat : w.layout.nesting.isFlat = false := by
    rw [Bool.eq_false_iff, ne_eq, Nesting.isFlat_iff]
    exact hopen
  induction n generalizing w with
  | zero => simp [takeLines]
  | succ n ih =>
    have hrest := @ih { w with line := w.line + 1 } hopen hflat
    rw [List.replicate_succ, takeLines]
    simp only [takeLine, Text.trim_nil, hflat, if_true, Bool.false_eq_true, if_false, hrest]
    congr 2
    push_cast
    omega

/-- After `takeLine` all complaints have been fetched. -/
theorem takeLine_pending {line : Text} {w' : Workspace} (h : w.takeLine line = (w', none))
    (hpending : w.session.pending = []) : w'.session.pending = [] := by
  unfold takeLine at h
  split at h
  · split at h <;> cases h <;> exact hpending
  · simp only [addLine, readLine] at h
    cases hresult : (w.vocabulary.readLine line).result with
    -- a block that is read takes its complaints to the log
    | ok b =>
      simp only [hresult] at h
      cases h
      rfl
    | error f =>
      -- of the faults only that of depth lets a line be taken
      cases f <;> simp only [hresult, Prod.mk.injEq, reduceCtorEq, and_false] at h
      obtain ⟨rfl, -⟩ := h
      rfl

/-- `takeLines` counts the lines, and leaves no complaint behind. -/
theorem takeLines_line {lines : List Text} {w' : Workspace} (h : takeLines lines w = (w', none))
    (hpending : w.session.pending = []) :
    w'.line = w.line + lines.length ∧ w'.session.pending = [] := by
  induction lines generalizing w with
  | nil =>
    cases h
    exact ⟨by simp, hpending⟩
  | cons line rest ih =>
    rw [takeLines] at h
    split at h
    · rename_i w₁ htaken
      have hpending₁ := takeLine_pending htaken hpending
      obtain ⟨hline, hdone⟩ := ih h hpending₁
      -- to take a line leaves the number alone, and it is counted up afterwards
      have hnumber := (takeLine_log htaken).1
      refine ⟨?_, hdone⟩
      rw [hline, List.length_cons]
      push_cast
      omega
    · simp at h

/-- Lines that leave no C block open, blank lines, and more lines: `takeLines` takes what comes last `behind`
    the rest as if it were taken first. -/
theorem takeLines_apart {front : List Text} {v : Vocabulary} {w' : Workspace}
    (h : takeLines front (new v) = (w', none)) (hflat : w'.layout.nesting.frames = []) (n : Nat)
    (back : List Text) :
    takeLines (front ++ List.replicate (n + 1) [] ++ back) (new v) =
      ((takeLines back (new v)).1.behind { w'.newScript with line := w'.line + (n + 1) },
        (takeLines back (new v)).2) := by
  have hpending := (takeLines_line h rfl).2
  have hvocabulary : w'.vocabulary = v := (takeLines_takes h).vocabulary
  -- with nothing open, the first lines are nothing but a past
  have hpast : ({ w'.newScript with line := w'.line + (n + 1) } : Workspace) =
      (new v).behind { w'.newScript with line := w'.line + (n + 1) } := by
    rw [← hvocabulary]
    exact eq_behind (Layout.newScript_nesting _) hpending
  have hfront : takeLines (front ++ List.replicate (n + 1) []) (new v) =
      ({ w'.newScript with line := w'.line + (n + 1) }, none) := by
    rw [takeLines_append h, takeLines_blank hflat]
  rw [takeLines_append hfront]
  conv_lhs => rw [hpast]
  exact takeLines_behind _ _ back

end Workspace

/-! ## Nothing to resolve -/

/-- Whether nothing has been sighted by which a name is resolved. -/
structure Session.DefinesNothing (s : Session) : Prop where
  definitions : s.definitions = []
  parameters : s.parameters = []
  lists : s.lists = []

/-- If each of two sessions `DefinesNothing`, they define nothing together. -/
theorem Session.DefinesNothing.append {s s' s'' : Session} (h : s.DefinesNothing) (h' : s'.DefinesNothing)
    (hsightings : s''.sightings = s.sightings ++ s'.sightings) : s''.DefinesNothing where
  definitions := by
    rw [Session.definitions, hsightings, List.filterMap_append]
    exact List.append_eq_nil_iff.2 ⟨h.definitions, h'.definitions⟩
  parameters := by
    rw [Session.parameters, hsightings, List.filterMap_append]
    exact List.append_eq_nil_iff.2 ⟨h.parameters, h'.parameters⟩
  lists := by
    rw [Session.lists, hsightings, List.filterMap_append]
    exact List.append_eq_nil_iff.2 ⟨h.lists, h'.lists⟩

/-- If nothing is defined, resolution changes nothing. -/
private theorem Workspace.scripts_resolve_of_definesNothing {w : Workspace} (h : w.session.DefinesNothing) :
    w.resolve.scripts = w.scripts := by
  -- no name has been sighted, so every category stays
  have hcategory : ∀ a, w.session.resolvedCategory a = a.category := by
    have hnone : ∀ o : Option Text, o.any ([] : List Text).contains = false := by
      intro o
      cases o <;> rfl
    intro a
    simp [Session.resolvedCategory, h.definitions, h.parameters, h.lists, hnone]
  have hresolved : w.session.resolved = id := by
    funext a
    rw [Session.resolved_eq, hcategory, id_eq]
  rw [scripts_resolve, hresolved, List.map_congr_left (fun s _ => Script.mapAttrs_id s), List.map_id']

/-! ## Texts one after the other -/

namespace Text

/-- The `sourceLines` of two texts with a line end and then some blanks between them, if there is something to
    read in both: the lines of the one and of the other, with blank lines in between. -/
theorem exists_lines_joined {s blanks t : Text} (hblanks : ∀ c ∈ blanks, isBlank c = true)
    (hs : trim s ≠ []) (ht : trim t ≠ []) :
    ∃ n, (Workspace.sourceLines (s ++ '\n' :: (blanks ++ t))).map trim =
      (Workspace.sourceLines s).map trim ++ List.replicate (n + blanks.count '\n') [] ++
        (Workspace.sourceLines t).map trim := by
  obtain ⟨lead, trail, hs', hlead, htrail⟩ := exists_eq_trim s
  obtain ⟨lead', trail', ht', hlead', htrail'⟩ := exists_eq_trim t
  have htight := (isTight_trim hs).append (isTight_trim ht) (trail ++ '\n' :: (blanks ++ lead'))
  have hafter : ∀ c ∈ blanks ++ lead', isBlank c = true := List.forall_mem_append.2 ⟨hblanks, hlead'⟩
  have htrim : trim (s ++ '\n' :: (blanks ++ t)) =
      (trim s ++ trail) ++ '\n' :: ((blanks ++ lead') ++ trim t) := by
    calc trim (s ++ '\n' :: (blanks ++ t))
        = trim (lead ++ (trim s ++ (trail ++ '\n' :: (blanks ++ lead')) ++ trim t) ++ trail') := by
          conv_lhs => rw [hs', ht']
          simp only [List.append_assoc, List.cons_append]
      _ = trim s ++ (trail ++ '\n' :: (blanks ++ lead')) ++ trim t := by
          rw [trim_append_right _ _ htrail', trim_append_left _ _ hlead, htight.trim_eq_self]
      _ = (trim s ++ trail) ++ '\n' :: ((blanks ++ lead') ++ trim t) := by simp
  -- the line ends on both sides and in between
  refine ⟨trail.count '\n' + lead'.count '\n', ?_⟩
  have hcount : trail.count '\n' + lead'.count '\n' + blanks.count '\n' =
      trail.count '\n' + (blanks ++ lead').count '\n' := by
    rw [List.count_append]
    omega
  rw [Workspace.sourceLines, htrim, lines_append_newline, List.map_append,
    map_trim_lines_append_right _ _ htrail, map_trim_lines_append_left _ _ hafter, hcount]
  simp only [Workspace.sourceLines, List.replicate_add, List.append_assoc]

/-- A blank line between two texts stays one when the blanks at the ends of the whole are dropped, if there
    is something to read in both. -/
private theorem exists_lines_between {s gap t : Text} (hgap : ∀ c ∈ gap, isBlank c = true)
    (hs : trim s ≠ [])
    (ht : trim t ≠ []) :
    ∃ n, (Workspace.sourceLines (s ++ '\n' :: (gap ++ '\n' :: t))).map trim =
      (Workspace.sourceLines s).map trim ++ List.replicate (n + 1) [] ++
        (Workspace.sourceLines t).map trim := by
  have hblanks : ∀ c ∈ gap ++ ['\n'], isBlank c = true :=
    List.forall_mem_append.2 ⟨hgap, List.forall_mem_singleton.2 rfl⟩
  obtain ⟨n, hlines⟩ := exists_lines_joined hblanks hs ht
  refine ⟨n + gap.count '\n', ?_⟩
  rw [List.count_append, List.count_singleton_self, List.append_assoc, ← Nat.add_assoc] at hlines
  exact hlines

end Text

/-- Whether a workspace comes of two texts: what there is of the first one stands in front, and the lines of
    the second one are counted on from a number that is not less than those of the first. -/
structure Workspace.Joins (w wa wb : Workspace) (k : Int) : Prop where
  scripts : w.scripts = wa.scripts ++ wb.scripts
  sightings : w.session.sightings = wa.session.sightings ++ wb.session.sightings
  log : w.log = wa.log ++ wb.log.shift k
  bound : ∀ e ∈ wa.log, e.1 ≤ k

namespace Vocabulary

/-- The C blocks that are open at the end of a text, innermost first. -/
def leftOpen (v : Vocabulary) (text : Text) : List Frame :=
  (Workspace.takeLines (Workspace.sourceLines text) (Workspace.new v)).1.layout.nesting.frames

/-- `layOut` is `takeLines` for the lines of a text. Which text they are from plays no part in that. -/
theorem layOut_eq_ok {v : Vocabulary} {text : Text} {w : Workspace} :
    v.layOut text = .ok w ↔ ∃ w₁,
      Workspace.takeLines (Workspace.sourceLines text) (Workspace.new v) = (w₁, none) ∧
        w = { w₁.newScript with source := Workspace.sourceLines text } := by
  -- the text is only remembered, so taking the lines can start without it
  have hsource : ∀ w : Workspace, w.behind { Workspace.new v with source := Workspace.sourceLines text } =
      { w with source := Workspace.sourceLines text } := by
    intro w
    simp [Workspace.behind, Workspace.new, Layout.behind, Log.shift]
  have hstart := Workspace.takeLines_behind (Workspace.new v)
    { Workspace.new v with source := Workspace.sourceLines text } (Workspace.sourceLines text)
  rw [hsource, hsource] at hstart
  unfold layOut
  dsimp only
  have hone : ({ Workspace.new v with source := Workspace.sourceLines text, line := 1 } : Workspace) =
      { Workspace.new v with source := Workspace.sourceLines text } := rfl
  rw [hone, hstart]
  cases Workspace.takeLines (Workspace.sourceLines text) (Workspace.new v) with
  | mk w₁ fault =>
    cases fault with
    | none => simp [Workspace.newScript, eq_comm]
    | some f => simp

/-- If each line of a text gives a block, `parse` adds these blocks one after the other, finishes the last
    script, and resolves what is left open in the scripts. -/
theorem parse_of_blocks {v : Vocabulary} {text : Text} {bs : List Block}
    (hlines : List.Forall₂ (fun line b => Text.trim line ≠ [] ∧ v.lineBlock line = .ok b)
      (Workspace.sourceLines text) bs) :
    ∃ w s, v.parse text = .ok w ∧
      w.scripts = (bs.foldl (fun l b => l.add b) ({} : Layout)).newScript.scripts.map
        (Script.mapAttrs (Session.resolved s)) := by
  obtain ⟨w₁, htaken, hlayout⟩ := @Workspace.takeLines_of_blocks _ _ (Workspace.new v) hlines
  have hparse := parse_eq v text
  rw [layOut_eq_ok.2 ⟨w₁, htaken, rfl⟩, Except.map] at hparse
  have hstart : (Workspace.new v).layout = {} := rfl
  refine ⟨_, w₁.session, hparse, ?_⟩
  rw [Workspace.scripts_resolve, ← hstart, ← hlayout]
  rfl

/-- `layOut` makes nothing of a text of blanks. -/
private theorem layOut_blank {v : Vocabulary} {text : Text} {w : Workspace} (h : v.layOut text = .ok w)
    (hblank : Text.trim text = []) : w.layout = {} ∧ w.session = {} ∧ w.log = [] := by
  obtain ⟨w₁, htaken, rfl⟩ := layOut_eq_ok.1 h
  rw [Workspace.sourceLines, hblank] at htaken
  cases htaken
  exact ⟨rfl, rfl, rfl⟩

/-- `layOut` looks only at what is left of a text without the blanks at its ends. -/
theorem layOut_congr (v : Vocabulary) {s t : Text} (h : Text.trim s = Text.trim t) :
    v.layOut s = v.layOut t := by
  simp only [layOut, Workspace.sourceLines, h]

/-- What `layOut` logs has the numbers of lines of the text. -/
private theorem log_le_length {v : Vocabulary} {text : Text} {w : Workspace} (h : v.layOut text = .ok w) :
    ∀ e ∈ w.log, e.1 ≤ (Workspace.sourceLines text).length := by
  intro e he
  obtain ⟨i, line, hnumber, hline, -⟩ := (layOut_log h).2 e he
  have hlt := (List.getElem?_eq_some_iff.1 hline).1
  omega

section Apart

variable {v : Vocabulary} {a b gap : Text} {la lb : Workspace} (ha : v.layOut a = .ok la)
  (hb : v.layOut b = .ok lb) (hgap : ∀ c ∈ gap, Text.isBlank c = true)

include ha hb hgap

/-- Blanks in front of a text play no part in `layOut`. -/
private theorem layOut_apart_of_blank_front (hblank : Text.trim a = []) :
    v.layOut (a ++ '\n' :: (gap ++ '\n' :: b)) = .ok lb ∧ lb.Joins la lb 0 := by
  obtain ⟨hlayout, hsession, hlog⟩ := layOut_blank ha hblank
  have hlead : ∀ c ∈ a ++ '\n' :: (gap ++ ['\n']), Text.isBlank c = true := by
    refine List.forall_mem_append.2 ⟨Text.isBlank_of_trim_eq_nil hblank, ?_⟩
    exact List.forall_mem_cons.2 ⟨rfl, List.forall_mem_append.2 ⟨hgap, List.forall_mem_singleton.2 rfl⟩⟩
  -- then nothing but blanks is in front of the second text
  have htrim : Text.trim (a ++ '\n' :: (gap ++ '\n' :: b)) = Text.trim b := by
    rw [← Text.trim_append_left _ b hlead]
    simp
  refine ⟨(layOut_congr v htrim).trans hb, ?_, ?_, ?_, ?_⟩
  · simp [Workspace.scripts, hlayout]
  · simp [hsession]
  · simp [hlog, Log.shift]
  · simp [hlog]

/-- Nor do blanks behind a text play a part in how `layOut` joins the two. -/
private theorem layOut_apart_of_blank_back (hblank : Text.trim b = []) :
    v.layOut (a ++ '\n' :: (gap ++ '\n' :: b)) = .ok la ∧ la.Joins la lb (Workspace.sourceLines a).length := by
  obtain ⟨hlayout, hsession, hlog⟩ := layOut_blank hb hblank
  have htrail : ∀ c ∈ '\n' :: (gap ++ '\n' :: b), Text.isBlank c = true := by
    refine List.forall_mem_cons.2 ⟨rfl, List.forall_mem_append.2 ⟨hgap, ?_⟩⟩
    exact List.forall_mem_cons.2 ⟨rfl, Text.isBlank_of_trim_eq_nil hblank⟩
  have htrim : Text.trim (a ++ '\n' :: (gap ++ '\n' :: b)) = Text.trim a :=
    Text.trim_append_right a _ htrail
  refine ⟨(layOut_congr v htrim).trans ha, ?_, ?_, ?_, log_le_length ha⟩
  · simp [Workspace.scripts, hlayout]
  · simp [hsession]
  · simp [hlog, Log.shift]

/-- `layOut` puts two texts with a blank line between them one behind the other, if the first one has nothing
    `leftOpen`. -/
theorem layOut_apart (hclosed : v.leftOpen a = []) :
    ∃ (l : Workspace) (k : Int), v.layOut (a ++ '\n' :: (gap ++ '\n' :: b)) = .ok l ∧ l.Joins la lb k := by
  by_cases hblank : Text.trim a = []
  · exact ⟨lb, 0, layOut_apart_of_blank_front ha hb hgap hblank⟩
  · by_cases hblank' : Text.trim b = []
    · exact ⟨la, _, layOut_apart_of_blank_back ha hb hgap hblank'⟩
    · have hbound := log_le_length ha
      obtain ⟨n, hlines⟩ := Text.exists_lines_between hgap hblank hblank'
      -- blanks at the ends of lines play no part, so the lines of the whole are those of both texts
      obtain ⟨wa, htaken, rfl⟩ := layOut_eq_ok.1 ha
      obtain ⟨wb, htaken', rfl⟩ := layOut_eq_ok.1 hb
      rw [leftOpen, htaken] at hclosed
      rw [← Workspace.takeLines_map_trim] at htaken htaken'
      have hapart := Workspace.takeLines_apart htaken hclosed n ((Workspace.sourceLines b).map Text.trim)
      have hnumber := (Workspace.takeLines_line htaken rfl).1
      rw [← hlines, Workspace.takeLines_map_trim, htaken'] at hapart
      refine ⟨_, wa.line + n, layOut_eq_ok.2 ⟨_, hapart, rfl⟩, ?_, rfl, ?_, ?_⟩
      · -- the last script of either text is finished
        simp only [Workspace.newScript_behind]
        rfl
      · have hshift : wa.line + (n + 1) - 1 = wa.line + n := by omega
        simp only [Workspace.behind, Workspace.newScript, hshift]
      · intro e he
        have hle := hbound e he
        simp only [Workspace.new, List.length_map] at hnumber
        omega

end Apart

/-- Texts with a blank line between them do not interfere, if the first one has nothing `leftOpen`. Their
    scripts are as `layOut` gives them, one after the other, and what is logged is what is logged of either of
    them, with the lines of the second one counted on by one number. If both sessions `DefinesNothing`, the
    scripts that `parse` gives are those of the one and then those of the other, too. -/
theorem parse_apart {v : Vocabulary} {a b gap : Text} {wa wb : Workspace} (ha : v.parse a = .ok wa)
    (hb : v.parse b = .ok wb) (hclosed : v.leftOpen a = []) (hgap : ∀ c ∈ gap, Text.isBlank c = true) :
    ∃ la lb l w : Workspace,
      v.layOut a = .ok la ∧ v.layOut b = .ok lb ∧
      v.layOut (a ++ '\n' :: (gap ++ '\n' :: b)) = .ok l ∧
      v.parse (a ++ '\n' :: (gap ++ '\n' :: b)) = .ok w ∧
      l.scripts = la.scripts ++ lb.scripts ∧
      (∃ k : Int, w.log = wa.log ++ wb.log.map (fun e => (e.1 + k, e.2)) ∧ ∀ e ∈ wa.log, e.1 ≤ k) ∧
      (wa.session.DefinesNothing → wb.session.DefinesNothing → w.scripts = wa.scripts ++ wb.scripts) := by
  obtain ⟨la, hla, rfl⟩ := parse_ok ha
  obtain ⟨lb, hlb, rfl⟩ := parse_ok hb
  obtain ⟨l, k, hl, hscripts, hsightings, hlog, hbound⟩ := layOut_apart hla hlb hgap hclosed
  have hparse : v.parse (a ++ '\n' :: (gap ++ '\n' :: b)) = .ok l.resolve := by
    rw [parse_eq, hl]
    rfl
  refine ⟨la, lb, l, l.resolve, hla, hlb, hl, hparse, hscripts, ⟨k, hlog, hbound⟩, ?_⟩
  -- with nothing defined there is nothing to resolve, in each text and in both
  intro hnothing hnothing'
  have hla' : la.session.DefinesNothing := hnothing
  have hlb' : lb.session.DefinesNothing := hnothing'
  rw [Workspace.scripts_resolve_of_definesNothing (hla'.append hlb' hsightings),
    Workspace.scripts_resolve_of_definesNothing hla', Workspace.scripts_resolve_of_definesNothing hlb',
    hscripts]

/-- Two texts with a complaint about each, the second one with a blank line in front of it. -/
theorem parse_apart_of_complaints :
    ∃ wa wb w : Workspace,
      defining.parse "say [hi]\nfoo :: bar".toList = .ok wa ∧ wa.log.length = 1 ∧
      defining.parse "\n(foo :: baz)".toList = .ok wb ∧ wb.log.length = 1 ∧
      defining.leftOpen "say [hi]\nfoo :: bar".toList = [] ∧
      defining.parse "say [hi]\nfoo :: bar\n \n\n(foo :: baz)".toList = .ok w ∧
      w.scripts = wa.scripts ++ wb.scripts ∧
      ∃ k : Int, w.log = wa.log ++ wb.log.map (fun e => (e.1 + k, e.2)) ∧ ∀ e ∈ wa.log, e.1 ≤ k := by
  have hparse : ∀ text : Text, (defining.parse text).map (fun w =>
      (w.log.length, w.session.definitions, w.session.parameters, w.session.lists)) = .ok (1, [], [], []) →
        ∃ w, defining.parse text = .ok w ∧ w.log.length = 1 ∧ w.session.DefinesNothing := by
    intro text h
    cases hw : defining.parse text with
    | error f =>
      rw [hw] at h
      cases h
    | ok w =>
      rw [hw] at h
      simp only [Except.map, Except.ok.injEq, Prod.mk.injEq] at h
      obtain ⟨hlog, hdefinitions, hparameters, hlists⟩ := h
      exact ⟨w, rfl, hlog, hdefinitions, hparameters, hlists⟩
  obtain ⟨wa, ha, hcount, hnothing⟩ := hparse "say [hi]\nfoo :: bar".toList (by decide +kernel)
  obtain ⟨wb, hb, hcount', hnothing'⟩ := hparse "\n(foo :: baz)".toList (by decide +kernel)
  have hclosed : defining.leftOpen "say [hi]\nfoo :: bar".toList = [] :=
    List.isEmpty_iff.1 (by decide +kernel)
  -- the line in between has a space in it
  have hgap : ∀ c ∈ [' '], Text.isBlank c = true := List.forall_mem_singleton.2 rfl
  obtain ⟨-, -, -, w, -, -, -, hw, -, hlog, hscripts⟩ := parse_apart ha hb hclosed hgap
  exact ⟨wa, wb, w, ha, hcount, hb, hcount', hclosed, hw, hscripts hnothing hnothing', hlog⟩

end Vocabulary

end BlockScript
