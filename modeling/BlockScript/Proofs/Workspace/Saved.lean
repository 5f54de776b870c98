import BlockScript.Proofs.Reading.Recognised
import BlockScript.Proofs.Script.Saved
import BlockScript.Proofs.Workspace.Alike
import BlockScript.Proofs.Workspace.Marks

/-!
# The scripts of a text as they are saved

In the scripts of a text a mark can be told from a flag, so that the scripts can be told from their JSON,
whatever the texts and the vocabularies are that they come from. Scripts that `save` writes are read back,
unless there are more arrays and objects inside one another than the reader opens. `save` goes a little
further than the reader does, and C blocks nest without a limit, so there are texts whose scripts are saved and
not read back, and others whose scripts are not saved at all.

## Key results

- `Vocabulary.same_json_iff`: scripts of texts have the same JSON just if they are equal in all that is written
- `save_read`: when scripts are saved, and when what is saved is read back
- `Vocabulary.parse_openers`: how deep the scripts of lines are that only open C blocks
-/

namespace BlockScript

/-! ## Scripts from their JSON -/

namespace Vocabulary

/-- In the `scripts` of a text the flag of a block is written with the suffix just if there is a mark. -/
theorem parse_allNoted {v : Vocabulary} {text : Text} {w : Workspace} (h : v.parse text = .ok w) :
    ∀ s ∈ w.scripts, Node.AllNoted s := by
  -- marks are made in moves of the layout, and resolving changes neither marks nor flags
  obtain ⟨w₀, hlayOut, rfl⟩ := parse_ok h
  obtain ⟨-, -, -, moves, hlayout, hblocks⟩ := layOut_ok hlayOut
  have hsuits := Layout.run_suits Places.marked_keptFor moves
    (Lists.forall_right_of_forall₂ hblocks fun _ _ => lineBlock_isUnmarked)
  intro s hs b hb a ha
  rw [Workspace.scripts_resolve, List.mem_map] at hs
  obtain ⟨s₀, hs₀, rfl⟩ := hs
  have hs₀ : s₀ ∈ (Layout.run moves).scripts := hlayout ▸ hs₀
  have hmarked : (Script.mapAttrs w₀.session.resolved s₀).ExactlyMarked :=
    (hsuits.scripts s₀ hs₀).exactlyMarked.mapAttrs fun a => by rw [Session.resolved_eq]
  have hwritten := hmarked.written a (List.mem_flatMap.2 ⟨b, hb, ha⟩)
  simp only [Attrs.flag_mem_fields_iff, Json.str.injEq, exists_eq_right'] at hwritten
  exact hwritten

/-- The scripts of two texts, each read in its own vocabulary, have the `Same` JSON, up to the order of
    fields, just if they are equal node for node, in all texts and all attributes as `shown`. -/
theorem same_json_iff {v v' : Vocabulary} {text text' : Text} {w w' : Workspace} (h : v.parse text = .ok w)
    (h' : v'.parse text' = .ok w') :
    (scriptsToJson w.scripts).Same (scriptsToJson w'.scripts) ↔
      w.scripts.map (Script.mapAttrs Attrs.shown) = w'.scripts.map (Script.mapAttrs Attrs.shown) :=
  same_scriptsToJson_iff (parse_allNoted h) (parse_allNoted h')

/-- Two texts that come to the same but for a mark: it is written, so their JSON is not the same. -/
theorem same_json_iff_of_marked :
    ∃ w w', (empty true).parse "a :: cstart\nb :: cap\nc :: celse".toList = .ok w ∧
      (empty false).parse "a :: cstart\nb\nc :: celse".toList = .ok w' ∧
      ((scriptsToJson w.scripts).Same (scriptsToJson w'.scripts) ↔
        w.scripts.map (Script.mapAttrs Attrs.shown) = w'.scripts.map (Script.mapAttrs Attrs.shown)) ∧
      ¬(scriptsToJson w.scripts).Same (scriptsToJson w'.scripts) := by
  have hmarks : ((empty true).parse "a :: cstart\nb :: cap\nc :: celse".toList).map
      (fun w => (w.scripts.flatMap Script.blocks).map (·.attrs.capEnd)) = .ok [false, false, true, false] := by
    decide +kernel
  have hmarks' : ((empty false).parse "a :: cstart\nb\nc :: celse".toList).map
      (fun w => (w.scripts.flatMap Script.blocks).map (·.attrs.capEnd)) = .ok [false, false, false, false] := by
    decide +kernel
  -- the marks are among what is shown
  have hshown : ∀ ss : List Script, ((ss.map (Script.mapAttrs Attrs.shown)).flatMap Script.blocks).map
      (·.attrs.capEnd) = (ss.flatMap Script.blocks).map (·.attrs.capEnd) := by
    intro ss
    simp only [List.flatMap_map, Script.blocks_mapAttrs, List.map_flatMap, List.map_map]
    rfl
  cases hw : (empty true).parse "a :: cstart\nb :: cap\nc :: celse".toList with
  | error f =>
    rw [hw] at hmarks
    cases hmarks
  | ok w =>
    cases hw' : (empty false).parse "a :: cstart\nb\nc :: celse".toList with
    | error f =>
      rw [hw'] at hmarks'
      cases hmarks'
    | ok w' =>
      rw [hw] at hmarks
      rw [hw'] at hmarks'
      refine ⟨w, w', rfl, rfl, same_json_iff hw hw', fun hsame => ?_⟩
      -- so equal JSON would mean equal marks
      have heq := congrArg (fun ss => (ss.flatMap Script.blocks).map (·.attrs.capEnd))
        ((same_json_iff hw hw').1 hsame)
      simp only [hshown, Except.ok.inj hmarks, Except.ok.inj hmarks'] at heq
      cases heq

end Vocabulary

/-! ## Saved scripts -/

/-- What `save` writes, on one line or laid out, is read back as the JSON of the scripts up to the order of
    fields if that is within `Json.depthLimit`, and refused if it is not. Scripts whose JSON is beyond
    `saveLimit` are not saved, and all others are. -/
theorem save_read (laidOut : Bool) (scripts : List Script) :
    ((scriptsToJson scripts).depth ≤ Json.depthLimit →
      ∃ t j, save laidOut scripts = .ok t ∧ Json.parse (Text.withNewlines t) = .ok j ∧
        j.Same (scriptsToJson scripts)) ∧
    (∀ t, save laidOut scripts = .ok t → Json.depthLimit < (scriptsToJson scripts).depth →
      ∃ e, Json.parse (Text.withNewlines t) = .error (.excess e)) ∧
    ((∃ t, save laidOut scripts = .ok t) ↔ (scriptsToJson scripts).depth ≤ saveLimit) := by
  refine ⟨fun hdepth => ?_, fun t hsaved hdepth => ?_, ?_⟩
  · -- the reader stops earlier than `save`, so what it can read has been saved
    have hsaved : (scriptsToJson scripts).depth ≤ saveLimit := Nat.le_trans hdepth (by decide)
    exact ⟨_, _, save_eq_ok_iff.2 ⟨hsaved, rfl⟩, parse_savedText_of_depth_le laidOut hdepth,
      savedJson_same laidOut scripts⟩
  · obtain ⟨-, rfl⟩ := save_eq_ok_iff.1 hsaved
    exact parse_savedText_of_lt_depth laidOut hdepth
  · simp only [save_eq_ok_iff, exists_and_left, exists_eq, and_true]

/-! ## Lines that only open C blocks -/

/-- The frame of a C block that `b` has opened where nothing stood before it. -/
def Frame.opened (b : Block) : Frame where
  before := []
  shape := b.attrs.shape
  opener := b.asOpener
  branches := []
  mouth := b.attrs.category

namespace Nesting

/-- Closing a frame puts what is inside it four levels deeper. -/
private theorem depthItems_closedFrom {bs : List Block} (h : ∀ b ∈ bs, b.arguments = [])
    (inner : List Node) :
    Json.depthItems ((closedFrom inner (bs.map Frame.opened)).map Node.toJson) =
      Json.depthItems (inner.map Node.toJson) + 4 * bs.length := by
  -- what is closed so far is the inside of the next frame
  induction bs generalizing inner with
  | nil => rfl
  | cons b bs ih =>
    rw [List.forall_mem_cons] at h
    have hblock : ∀ closer : Block, closer.arguments = [] →
        Json.depthItems ([(Frame.opened b).closedBy inner closer].map Node.toJson) =
          Json.depthItems (inner.map Node.toJson) + 4 := by
      intro closer hcloser
      rw [List.map_singleton, Json.depthItems, Json.depthItems, Nat.max_zero]
      exact Node.depth_toJson_cBlock _ h.1 hcloser
    rw [List.map_cons, closedFrom, Frame.opened, List.nil_append, ih h.2, ← Frame.opened, hblock _ rfl,
      List.length_cons]
    omega

end Nesting

namespace Layout

/-- A block with the `flag` of an opener opens a C block. -/
private theorem add_of_opener {b : Block} (hflag : b.attrs.flag = some .cStart)
    (hcomment : b.isComment = false)
    (l : Layout) : l.add b = l.nest (Nesting.openWith b) := by
  rw [add, hcomment, hflag]
  rfl

/-- Where nothing has been placed yet, blocks that open C blocks leave a frame each, the last one in front. -/
private theorem foldl_add_openers {bs : List Block}
    (h : ∀ b ∈ bs, b.attrs.flag = some .cStart ∧ b.isComment = false) (frames : List Frame) :
    bs.foldl (fun l b => l.add b) (⟨[], ⟨frames, []⟩⟩ : Layout) =
      ⟨[], ⟨bs.reverse.map Frame.opened ++ frames, []⟩⟩ := by
  induction bs generalizing frames with
  | nil => rfl
  | cons b bs ih =>
    rw [List.forall_mem_cons] at h
    have hopened : Layout.nest (Nesting.openWith b) ⟨[], ⟨frames, []⟩⟩ =
        ⟨[], ⟨Frame.opened b :: frames, []⟩⟩ := rfl
    rw [List.foldl_cons, add_of_opener h.1.1 h.1.2, hopened, ih h.2]
    simp

end Layout

namespace Vocabulary

/-- If each line opens a C block and has no `arguments`, each one is inside those before it: the JSON of the
    scripts has four levels for each line, and two around them. -/
theorem parse_openers {v : Vocabulary} {text : Text} {bs : List Block}
    (hlines : List.Forall₂ (fun line b => Text.trim line ≠ [] ∧ v.lineBlock line = .ok b)
      (Workspace.sourceLines text) bs)
    (hopen : ∀ b ∈ bs, b.attrs.flag = some .cStart ∧ b.isComment = false)
    (harguments : ∀ b ∈ bs, b.arguments = []) (hne : bs ≠ []) :
    ∃ w, v.parse text = .ok w ∧ (scriptsToJson w.scripts).depth = 4 * bs.length + 2 := by
  obtain ⟨w, session, hparse, hscripts⟩ := parse_of_blocks hlines
  -- no line closes anything, so that there is an open frame for each of them at the end
  have hframes : bs.foldl (fun l b => l.add b) ({} : Layout) = ⟨[], ⟨bs.reverse.map Frame.opened, []⟩⟩ := by
    have hfold := Layout.foldl_add_openers hopen []
    rwa [List.append_nil] at hfold
  -- then all of them are closed, in one script
  have hclosed : (bs.foldl (fun l b => l.add b) ({} : Layout)).newScript.scripts =
      [Nesting.closedFrom [] (bs.reverse.map Frame.opened)] := by
    rw [hframes, Layout.newScript, if_neg (by simp [Nesting.isEmpty, hne])]
    rfl
  refine ⟨w, hparse, ?_⟩
  rw [hscripts, depth_scriptsToJson_mapAttrs, hclosed, depth_scriptsToJson_singleton,
    Nesting.depthItems_closedFrom (by simpa using harguments), List.length_reverse, List.map_nil,
    Json.depthItems, Nat.zero_add]

/-- One line so many times. -/
def repeated (line : Text) (n : Nat) : Text := ['\n'].intercalate (List.replicate n line)

/-- A line that is written n times gives n lines, if it is one line without blanks at its ends. -/
private theorem sourceLines_repeated {line : Text} (htight : line.IsTight) (hline : '\n' ∉ line) (n : Nat) :
    Workspace.sourceLines (repeated line (n + 1)) = List.replicate (n + 1) line := by
  have hstep : ∀ n, repeated line (n + 2) = line ++ '\n' :: repeated line (n + 1) := by
    intro n
    rw [repeated, repeated, List.replicate_succ, List.replicate_succ, List.intercalate_cons_cons]
    simp
  have hfirst : repeated line 1 = line := List.intercalate_singleton
  -- the lines together are tight as each of them is, so there is nothing to trim
  have hall : (repeated line (n + 1)).IsTight := by
    induction n with
    | zero => rwa [hfirst]
    | succ n ih => simpa [hstep] using htight.append ih ['\n']
  have hone : Text.lines line = [line] :=
    Text.splitAt_of_not fun c hc => beq_eq_false_iff_ne.2 (ne_of_mem_of_not_mem hc hline)
  rw [Workspace.sourceLines, hall.trim_eq_self]
  -- the induction is on the lines, and needs no more of them than that each one is a line
  clear hall
  induction n with
  | zero => rw [hfirst, hone]; rfl
  | succ n ih =>
    rw [hstep, Text.lines_append_newline, hone, ih]
    rfl

/-- The JSON of loops inside one another has four levels for each of them, and two around them. -/
private theorem parse_loops (n : Nat) :
    ∃ w, (english true).parse (repeated "forever".toList (n + 1)) = .ok w ∧
      (scriptsToJson w.scripts).depth = 4 * (n + 1) + 2 := by
  have hgroup : (Category.control, controlEntries) ∈ palette := by simp [palette]
  have he : Entry.openingCap "forever" ∈ controlEntries := by simp [controlEntries]
  obtain ⟨b, hread, hdescribes, harguments⟩ :=
    @readLine_spec_of_noSlots true _ _ hgroup he (by decide) (by decide)
  have hline : Text.weave (Text.runsOf (Entry.openingCap "forever").spec) [] = "forever".toList := by decide
  rw [hline] at hread
  have hcomment : b.isComment = false := by
    rw [Block.isComment, hdescribes.id]
    decide
  -- all lines give the same block, which opens a C block
  have hlines : List.Forall₂ (fun line b => Text.trim line ≠ [] ∧ (english true).lineBlock line = .ok b)
      (Workspace.sourceLines (repeated "forever".toList (n + 1))) (List.replicate (n + 1) b) := by
    rw [sourceLines_repeated ⟨by decide, by decide, by decide⟩ (by decide)]
    generalize n + 1 = count
    induction count with
    | zero => exact .nil
    | succ count ih => exact .cons ⟨by decide, lineBlock_of_readLine hread⟩ ih
  -- four levels a line, and there are as many blocks as lines
  obtain ⟨w, hw, hdepth⟩ := parse_openers hlines
    (fun b' hb' => List.eq_of_mem_replicate hb' ▸ ⟨hdescribes.flag, hcomment⟩)
    (fun b' hb' => List.eq_of_mem_replicate hb' ▸ harguments) (by simp)
  exact ⟨w, hw, by rw [hdepth, List.length_replicate]⟩

/-- Quotes, backslashes and line ends are read back from what a line says. Of loops inside one another 248 are
    saved and refused by the reader, and 249 are not saved. -/
theorem save_read_of_quotes :
    ∃ w w' w'', (empty true).parse "say [\"\\x\r\x07]".toList = .ok w ∧
      (english true).parse (repeated "forever".toList 248) = .ok w' ∧
      (english true).parse (repeated "forever".toList 249) = .ok w'' ∧
      (∀ laidOut, ∃ t j, save laidOut w.scripts = .ok t ∧ Json.parse (Text.withNewlines t) = .ok j ∧
        j.Same (scriptsToJson w.scripts)) ∧
      (∀ laidOut, ∃ t e, save laidOut w'.scripts = .ok t ∧
        Json.parse (Text.withNewlines t) = .error (.excess e)) ∧
      ∀ laidOut, ¬ ∃ t, save laidOut w''.scripts = .ok t := by
  have hshallow : ((empty true).parse "say [\"\\x\r\x07]".toList).map
      (fun w => (scriptsToJson w.scripts).depth) = .ok 6 := by decide +kernel
  -- 248 loops are within `saveLimit` and beyond `Json.depthLimit`, 249 are beyond both
  obtain ⟨w', hw', hdepth'⟩ := parse_loops 247
  obtain ⟨w'', hw'', hdepth''⟩ := parse_loops 248
  cases hw : (empty true).parse "say [\"\\x\r\x07]".toList with
  | error f =>
    rw [hw] at hshallow
    cases hshallow
  | ok w =>
    rw [hw] at hshallow
    have hdepth : (scriptsToJson w.scripts).depth = 6 := Except.ok.inj hshallow
    refine ⟨w, w', w'', rfl, hw', hw'', fun laidOut => ?_, fun laidOut => ?_, fun laidOut => ?_⟩
    · exact (save_read laidOut w.scripts).1 (by rw [hdepth]; decide)
    · obtain ⟨t, ht⟩ := (save_read laidOut w'.scripts).2.2.2 (by rw [hdepth']; decide)
      obtain ⟨e, he⟩ := (save_read laidOut w'.scripts).2.1 t ht (by rw [hdepth']; decide)
      exact ⟨t, e, ht, he⟩
    · exact mt (save_read laidOut w''.scripts).2.2.1 (by rw [hdepth'']; decide)

/-- The `scripts` of a text with so many loops inside one another are saved, but cannot be read back. -/
theorem saved_loops_not_read :
    ∃ w, (english true).parse (repeated "forever".toList 248) = .ok w ∧ ∀ laidOut,
      ∃ t, save laidOut w.scripts = .ok t ∧
        ¬ ∃ j, Json.parse (Text.withNewlines t) = .ok j ∧ j.Same (scriptsToJson w.scripts) := by
  obtain ⟨w, hw, hdepth⟩ := parse_loops 247
  refine ⟨w, hw, fun laidOut => ?_⟩
  -- 994 levels: the reader opens 990 of them, and `save` writes 995
  have hsaved : (scriptsToJson w.scripts).depth ≤ saveLimit := by
    rw [hdepth]
    decide
  have hdeep : Json.depthLimit < (scriptsToJson w.scripts).depth := by
    rw [hdepth]
    decide
  refine ⟨_, save_eq_ok_iff.2 ⟨hsaved, rfl⟩, fun ⟨j, hj, _⟩ => ?_⟩
  obtain ⟨e, he⟩ := parse_savedText_of_lt_depth laidOut hdeep
  rw [he] at hj
  cases hj

end Vocabulary

end BlockScript
