import BlockScript.Proofs.Reading.Recognised
import BlockScript.Proofs.Workspace.Alike
import BlockScript.Proofs.Workspace.Safety
import BlockScript.Proofs.Workspace.Succession

/-!
# Ends that are written and ends that are not

A C block that is still open when its script ends is closed by an end that nobody wrote. To write the ends
comes to the same: they go through `Layout.add` one by one, and find the same C blocks to close. An end that
is written is in a language, which is all that is different in the end.

## Key results

- `Vocabulary.english_readLine_end`: what a line with the English word for the end is read as
- `Layout.newScript_alike`: a layout in which a script is ended, and one in which the ends are written first
- `Vocabulary.closing_equals_ends`: the same for the states and for the texts of the English vocabulary
-/

namespace BlockScript

/-- The end that is written in English. -/
def writtenEnd : Block :=
  { impliedEnd with attrs := { impliedEnd.attrs with lang := some englishPack.code } }

/-- The same block, or an end that nobody wrote and the same end in English. -/
def Block.SameEnd (b b' : Block) : Prop :=
  b' = b ∨ b.isImplied = true ∧ b' = { b with attrs := { b.attrs with lang := some englishPack.code } }

namespace Block

theorem SameEnd.refl (b : Block) : b.SameEnd b := .inl rfl

private theorem sameEnd_writtenEnd : impliedEnd.SameEnd writtenEnd :=
  .inr ⟨(isImplied_iff _).2 ⟨_, _, rfl⟩, rfl⟩

/-- A block that `isImplied` does so `asEnder` of a branch, and no other does. -/
@[simp] theorem isImplied_asEnder (b : Block) (c : Option Category) (e : Bool) :
    (b.asEnder c e).isImplied = b.isImplied := by
  rw [Bool.eq_iff_iff, isImplied_iff, isImplied_iff]
  constructor
  · rintro ⟨c', e', h⟩
    obtain ⟨hattrs, hpieces⟩ := Block.mk.inj h
    obtain ⟨⟨id, category, shape, flag, lang, comment, image, ringed, capEnd, calledAs, namedAs⟩, pieces⟩ := b
    simp only [Attrs.mk.injEq] at hattrs hpieces
    obtain ⟨rfl, -, rfl, rfl, rfl, rfl, rfl, rfl, -, rfl, rfl⟩ := hattrs
    exact ⟨category, capEnd, by rw [hpieces]; rfl⟩
  · rintro ⟨c', e', rfl⟩
    exact ⟨c, e, rfl⟩

/-- Implied ends and written ones go the same ways. -/
private theorem sameEnd_placedAlike : PlacedAlike SameEnd := by
  refine ⟨SameEnd.refl, ?_, ?_, ?_, ?_, ?_, ?_, ?_⟩
  case refine_6 =>
    rintro b b' (rfl | ⟨himplied, -⟩) hflag
    · exact SameEnd.refl _
    · -- an implied end opens nothing
      simp [(isImplied_lang b himplied).1] at hflag
  case refine_7 =>
    rintro b b' (rfl | ⟨himplied, rfl⟩) - c e
    · exact SameEnd.refl _
    · exact .inr ⟨by rwa [isImplied_asEnder], rfl⟩
  all_goals
    rintro b b' (rfl | ⟨-, rfl⟩) <;> rfl

/-- Resolution keeps the `SameEnd`, what is the same but for a written end. -/
theorem SameEnd.mapAttrs_resolved (s : Session) {b b' : Block} (h : b.SameEnd b') :
    (b.mapAttrs s.resolved).SameEnd (b'.mapAttrs s.resolved) := by
  rcases h with rfl | ⟨himplied, rfl⟩
  · exact SameEnd.refl _
  · refine .inr ⟨by rwa [isImplied_mapAttrs_resolved], ?_⟩
    simp only [mapAttrs, Session.resolved_eq]
    rfl

end Block

/-! ## Layouts -/

namespace Nesting

/-- C blocks that are closed by implied ends are like those that are closed by written ones. -/
private theorem iterate_closeWith_alike (n : Nesting) (k : Nat) :
    ((closeWith impliedEnd)^[k] n).Alike Block.SameEnd ((closeWith writtenEnd)^[k] n) := by
  induction k with
  | zero => exact .refl Block.SameEnd.refl n
  | succ k ih =>
    rw [Function.iterate_succ_apply', Function.iterate_succ_apply']
    exact ih.closeWith Block.sameEnd_placedAlike Block.sameEnd_writtenEnd rfl

/-- Each C block that `closeWith` closes by an implied end has one such end more. -/
private theorem countP_iterate_closeWith (b : Block) (n : Nesting) {k : Nat} (hk : k ≤ n.frames.length) :
    ((closeWith b)^[k] n).parts.countP (·.2.isImplied) =
      n.parts.countP (·.2.isImplied) + if b.isImplied then k else 0 := by
  -- each step closes one more C block, as long as there is one
  induction k with
  | zero => simp
  | succ k ih =>
    have hlength := length_frames_iterate_closeWith b n k
    rw [Function.iterate_succ_apply']
    cases hn : (closeWith b)^[k] n with
    | mk frames inner =>
      rw [hn] at hlength ih
      cases frames with
      | nil =>
        simp only [List.length_nil] at hlength
        omega
      | cons f outer =>
        rw [parts_closeWith, List.countP_append, ih (by omega), branchEnd_eq, Nat.add_assoc]
        -- what is new is the block itself, which says whether it is implied
        congr 1
        simp only [List.countP_singleton, Block.isImplied_asEnder]
        split <;> rfl

end Nesting

namespace Layout

/-- An end that is written closes the innermost C block. -/
private theorem iterate_add_writtenEnd (l : Layout) (k : Nat) :
    (fun l => l.add writtenEnd)^[k] l = l.nest (Nesting.closeWith writtenEnd)^[k] := by
  induction k with
  | zero => rfl
  | succ k ih =>
    rw [Function.iterate_succ_apply', ih]
    simp only [nest, Function.iterate_succ_apply']
    rfl

/-- What there is in the scripts when the last one is ended: what is in those that are finished, and what is
    in the last one when its C blocks are closed. -/
private theorem flatMap_scripts_newScript {α : Type} (g : Script → List α) (hg : g [] = []) (l : Layout) :
    l.newScript.scripts.flatMap g = l.scripts.flatMap g ++ g l.nesting.closed := by
  unfold newScript
  split
  · rename_i hempty
    obtain ⟨scripts, ⟨frames, inner⟩⟩ := l
    simp only [Nesting.isEmpty, Bool.and_eq_true, List.isEmpty_iff] at hempty
    obtain ⟨rfl, rfl⟩ := hempty
    simp [Nesting.closed, Nesting.closedFrom, hg]
  · simp

/-- The layout with as many written ends as there are C blocks open. -/
def withEnds (l : Layout) : Layout := (fun l => l.add writtenEnd)^[l.depth] l

/-- Written ends close all C blocks that are open. -/
private theorem withEnds_eq (l : Layout) :
    l.withEnds = l.nest (Nesting.closeWith writtenEnd)^[l.nesting.frames.length] :=
  iterate_add_writtenEnd l _

/-- Nothing is open when the ends are written. -/
private theorem withEnds_frames (l : Layout) : l.withEnds.nesting.frames = [] := by
  have hlength := Nesting.length_frames_iterate_closeWith writtenEnd l.nesting l.nesting.frames.length
  rw [Nat.sub_self, List.length_eq_zero_iff] at hlength
  rw [withEnds_eq]
  exact hlength

/-- The number of implied ends in finished scripts. -/
def impliedEnds (l : Layout) : Nat := (l.scripts.flatMap Script.blocks).countP (·.isImplied)

/-- `newScript` comes to the same as to write the ends of its open C blocks first, by `withEnds`. -/
theorem newScript_alike (l : Layout) : l.newScript.Alike Block.SameEnd l.withEnds.newScript := by
  have hclosed : (⟨l.scripts, ⟨[], l.nesting.closed⟩⟩ : Layout).Alike Block.SameEnd l.withEnds := by
    have hnesting := l.nesting.iterate_closeWith_alike l.nesting.frames.length
    rw [Nesting.iterate_closeWith_eq_closed] at hnesting
    rw [withEnds_eq]
    exact ⟨List.forall₂_same.2 fun s _ => Script.Alike.refl Block.SameEnd.refl s, hnesting⟩
  -- and to end the script of what is closed already closes nothing
  have hended : (⟨l.scripts, ⟨[], l.nesting.closed⟩⟩ : Layout).newScript = l.newScript := by
    cases hempty : l.nesting.isEmpty with
    | true =>
      obtain ⟨scripts, ⟨frames, inner⟩⟩ := l
      simp only [Nesting.isEmpty, Bool.and_eq_true, List.isEmpty_iff] at hempty
      obtain ⟨rfl, rfl⟩ := hempty
      rfl
    | false =>
      -- what is closed is not empty either
      have hne := Nesting.closed_ne_nil hempty
      simp only [newScript, hempty, Bool.false_eq_true, if_false]
      rw [if_neg (by simpa [Nesting.isEmpty] using hne)]
      rfl
  rw [← hended]
  exact hclosed.newScript Block.sameEnd_placedAlike

/-- There is one implied end less for each end that is written. -/
private theorem impliedEnds_newScript (l : Layout) :
    l.newScript.impliedEnds = l.withEnds.newScript.impliedEnds + l.depth := by
  -- the ends are those of earlier scripts and those in what is closed now
  have hcount : ∀ (l : Layout) (n : Nesting), l.nesting.closed = n.inner → n.frames = [] →
      l.newScript.impliedEnds =
        (l.scripts.flatMap Script.blocks).countP (·.isImplied) + n.parts.countP (·.2.isImplied) := by
    intro l n hclosed hflat
    have hparts : n.parts = Script.parts l.nesting.closed := by
      rw [Nesting.parts, hflat, hclosed]
      rfl
    rw [impliedEnds, flatMap_scripts_newScript Script.blocks rfl, List.countP_append, Script.blocks_eq_parts,
      List.countP_map, hparts]
    rfl
  -- one end for each open C block, implied on one side and written on the other
  have himplied := Nesting.countP_iterate_closeWith impliedEnd l.nesting (Nat.le_refl _)
  have hwritten := Nesting.countP_iterate_closeWith writtenEnd l.nesting (Nat.le_refl _)
  rw [Nesting.iterate_closeWith_eq_closed, if_pos (by decide)] at himplied
  rw [if_neg (by decide), Nat.add_zero] at hwritten
  have hends : l.withEnds.nesting.closed = l.withEnds.nesting.inner := by
    rw [Nesting.closed, l.withEnds_frames]
    rfl
  have hnesting : l.withEnds.nesting = (Nesting.closeWith writtenEnd)^[l.nesting.frames.length] l.nesting := by
    rw [withEnds_eq]
    rfl
  rw [hcount l ⟨[], l.nesting.closed⟩ rfl rfl, hcount l.withEnds _ hends l.withEnds_frames, himplied,
    hnesting, hwritten, withEnds_eq, ← Nat.add_assoc]
  rfl

end Layout

namespace Vocabulary

/-- `readLine` reads the English word for the end as `writtenEnd`, and there is nothing more to it. -/
theorem english_readLine_end (folded : Bool) : (english folded).readLine "end".toList = .done writtenEnd := by
  have hgroup : (Category.control, controlEntries) ∈ palette := by simp [palette]
  have he : Entry.closing "end" ∈ controlEntries := by simp [controlEntries]
  have himage : '@' ∉ (Entry.closing "end").spec := by decide
  have hspec := isOrdinary_of_mem_palette hgroup he himage
  -- the block that closes is listed in the category control alone
  obtain ⟨group, hgroup', he', hfind⟩ := @english_find?_of_key_eq folded _ _ hgroup he himage _ rfl []
  have hcontrol : group.1 = .control := by
    have hlisted : ∀ group ∈ palette, group.2.any (·.flag == some .cEnd) = true → group.1 = .control := by
      decide
    exact hlisted group hgroup' (List.any_eq_true.2 ⟨_, he', rfl⟩)
  rw [hcontrol, refine_eq_self _ _ (by decide) (by decide) (by decide)] at hfind
  -- its spec has no slots, so it is the line itself
  have hidentify : Fragment.identify (english folded)
      (Text.padSlots (Text.slotted (Text.runsOf (Entry.closing "end").spec))) [] .stack =
        .ok ⟨writtenEnd.attrs, []⟩ := by
    rw [Text.slotted_runsOf, Fragment.identify, if_neg (padSlots_ne_nil hspec), hfind]
    rfl
  have hwoven := @isWoven_of_isOrdinary folded _ [] hspec (by decide) (by simp)
  have hform := Fragment.form_of_isWoven hwoven hidentify
  have hline : Text.weave (Text.runsOf (Entry.closing "end").spec) [] = "end".toList := by decide
  have hread : (english folded).readFragment true "end".toList = .done writtenEnd := by
    rw [hline] at hform
    rw [Fragment.readFragment_of_closed rfl, hform]
    rfl
  rw [← hline, Line.readLine_of_isWoven hwoven, hline, hread]
  rfl

end Vocabulary

/-! ## Texts -/

/-- A text with as many lines behind it in which the end is written. -/
def Text.withEnds (text : Text) (count : Nat) : Text :=
  text ++ (List.replicate count "\nend".toList).flatten

/-- One more end is one more line. -/
private theorem Text.withEnds_succ (text : Text) (count : Nat) :
    withEnds text (count + 1) = withEnds text count ++ '\n' :: "end".toList := by
  simp only [withEnds, List.replicate_succ', List.flatten_concat, List.append_assoc]
  rfl

namespace Workspace

variable {v : Vocabulary} (hv : v.readLine "end".toList = .done writtenEnd)

include hv

/-- A line in which the end is written adds the end and does nothing else. -/
private theorem takeLine_end {w : Workspace} (hw : w.vocabulary = v) (hpending : w.session.pending = []) :
    w.takeLine "end".toList = (w.place writtenEnd, none) := by
  obtain ⟨vocabulary, ⟨sightings, pending⟩, layout, log, line, source⟩ := w
  obtain rfl : vocabulary = v := hw
  obtain rfl : pending = [] := hpending
  have htrim : Text.trim "end".toList ≠ [] := by decide
  simp only [takeLine, if_neg htrim, addLine, readLine, hv]
  simp [Outcome.done, Session.record, Session.fetched, addComplaints, complain]

/-- While a C block is open, one more such line closes it. -/
private theorem takeLines_append_end {text : Text} {w : Workspace}
    (h : takeLines (sourceLines text) (new v) = (w, none)) (hopen : w.layout.nesting.frames ≠ []) :
    ∃ line, takeLines (sourceLines (text ++ '\n' :: "end".toList)) (new v) =
      ({ w.place writtenEnd with line := line }, none) := by
  have hfilled : Text.trim text ≠ [] := by
    intro hblank
    rw [sourceLines, hblank] at h
    cases h
    exact hopen rfl
  -- blanks behind the text leave blank lines in front of the end
  obtain ⟨n, hlines⟩ := @Text.exists_lines_joined _ [] _ (by simp) hfilled
    (show Text.trim "end".toList ≠ [] by decide)
  have hpending := (takeLines_line h rfl).2
  -- taking lines leaves the vocabulary alone, so the end is read as before
  have hvocabulary : w.vocabulary = v := (takeLines_takes h).vocabulary
  rw [← takeLines_map_trim] at h
  have hblank := takeLines_blank_nested hopen (n + ([] : Text).count '\n')
  have hlast : takeLines ((sourceLines "end".toList).map Text.trim)
      { w with line := w.line + (n + ([] : Text).count '\n' : Nat) } =
        ({ w.place writtenEnd with line := w.line + (n + ([] : Text).count '\n' : Nat) + 1 }, none) := by
    have hline : (sourceLines "end".toList).map Text.trim = ["end".toList] := by decide
    rw [hline, takeLines, takeLine_end hv]
    · rfl
    · exact hvocabulary
    · exact hpending
  rw [← takeLines_map_trim, ← List.nil_append "end".toList, hlines, List.append_assoc, takeLines_append h,
    takeLines_append hblank, hlast]
  exact ⟨_, rfl⟩

/-- As many lines of this kind as there are C blocks open close them one after the other: the layout is that
    `withEnds`. -/
theorem takeLines_withEnds {text : Text} {w : Workspace}
    (h : takeLines (sourceLines text) (new v) = (w, none)) :
    ∃ line, takeLines (sourceLines (text.withEnds w.layout.depth)) (new v) =
      ({ w with layout := w.layout.withEnds, line := line }, none) := by
  -- by induction on how many of the ends have been written
  suffices hsome : ∀ k ≤ w.layout.depth, ∃ line, takeLines (sourceLines (text.withEnds k)) (new v) =
      ({ w with layout := (fun l => l.add writtenEnd)^[k] w.layout, line := line }, none) from
    hsome _ (Nat.le_refl _)
  intro k hk
  induction k with
  | zero => exact ⟨w.line, by simpa [Text.withEnds] using h⟩
  | succ k ih =>
    obtain ⟨line, hbefore⟩ := ih (Nat.le_of_succ_le hk)
    -- fewer ends have been written than there are C blocks to close
    have hopen : ((fun l => l.add writtenEnd)^[k] w.layout).nesting.frames ≠ [] := by
      have hlength := Nesting.length_frames_iterate_closeWith writtenEnd w.layout.nesting k
      rw [Layout.iterate_add_writtenEnd, ← List.length_pos_iff, Layout.nest, hlength]
      exact Nat.sub_pos_of_lt hk
    obtain ⟨line', hafter⟩ := takeLines_append_end hv hbefore hopen
    refine ⟨line', ?_⟩
    rw [Text.withEnds_succ, hafter, Function.iterate_succ_apply']
    rfl

end Workspace

namespace Vocabulary

/-- Resolution keeps implied ends. -/
private theorem impliedEnds_resolve (w : Workspace) :
    w.resolve.layout.impliedEnds = w.layout.impliedEnds := by
  have hblocks := w.blocks_resolve
  rw [Workspace.scripts, Workspace.scripts] at hblocks
  rw [Layout.impliedEnds, hblocks, List.countP_map, Layout.impliedEnds]
  simp only [Function.comp_def, Block.isImplied_mapAttrs_resolved]

/-- `newScript` comes to the same as to write the ends of the C blocks that are still open, but for the
    language of these ends. It is so in every state that moves can lead to: the layouts are `Alike`, of blocks
    that are the `SameEnd`, the same or an implied end and the end in English, and there is one of the
    `impliedEnds` less for each end that is written. And it is so for texts: one with C blocks `leftOpen` and
    the same `withEnds` come to scripts that are `Alike`, and the same is logged and sighted. -/
theorem closing_equals_ends (folded : Bool) :
    (english folded).lineBlock "end".toList = .ok writtenEnd ∧
    (∀ moves : List Layout.Move,
      (Layout.run moves).newScript.Alike Block.SameEnd (Layout.run moves).withEnds.newScript ∧
      (Layout.run moves).newScript.impliedEnds =
        (Layout.run moves).withEnds.newScript.impliedEnds + (Layout.run moves).depth) ∧
    ∀ text : Text, ∃ w w' : Workspace,
      (english folded).parse text = .ok w ∧
      (english folded).parse (text.withEnds ((english folded).leftOpen text).length) = .ok w' ∧
      List.Forall₂ (Script.Alike Block.SameEnd) w.scripts w'.scripts ∧
      w.layout.impliedEnds = w'.layout.impliedEnds + ((english folded).leftOpen text).length ∧
      w'.log = w.log ∧ w'.session = w.session := by
  have hread := english_readLine_end folded
  refine ⟨lineBlock_of_readLine (congrArg Outcome.result hread), fun moves => ?_, fun text => ?_⟩
  · exact ⟨Layout.newScript_alike _, Layout.impliedEnds_newScript _⟩
  · obtain ⟨w, hparse⟩ := @exists_parse _ text fun line _ =>
      (english_drawable folded).exists_lineBlock line
    obtain ⟨w₀, hlayOut, rfl⟩ := parse_ok hparse
    obtain ⟨w₁, htaken, rfl⟩ := layOut_eq_ok.1 hlayOut
    obtain ⟨line, hends⟩ := Workspace.takeLines_withEnds hread htaken
    have hopen : ((english folded).leftOpen text).length = w₁.layout.depth := by
      rw [leftOpen, htaken]
      rfl
    -- the text with its ends is laid out as the other one, and then the same happens to both
    have hparse' := parse_eq (english folded) (text.withEnds w₁.layout.depth)
    rw [layOut_eq_ok.2 ⟨_, hends, rfl⟩, Except.map] at hparse'
    have halike := Layout.newScript_alike w₁.layout
    have hcount := Layout.impliedEnds_newScript w₁.layout
    rw [hopen]
    refine ⟨_, _, hparse, hparse', ?_, ?_, rfl, rfl⟩
    · rw [Workspace.scripts_resolve, Workspace.scripts_resolve, List.forall₂_map_left_iff,
        List.forall₂_map_right_iff]
      exact halike.scripts.imp fun s s' hs => hs.mapAttrs fun b _ b' => Block.SameEnd.mapAttrs_resolved _
    · rw [impliedEnds_resolve, impliedEnds_resolve]
      exact hcount

end Vocabulary

end BlockScript
