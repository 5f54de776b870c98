import BlockScript.Proofs.Reading.Success
import BlockScript.Proofs.Vocabulary.Bundled
import BlockScript.Proofs.Workspace.Conservation
import BlockScript.Proofs.Workspace.Logs
import BlockScript.Proofs.Workspace.Stack

/-!
# No text breaks anything

Some steps look at things without a question whether they are there: the spec of a block with an image, the
closing bracket of an opening one, a container to be taken off the stack, the pieces of headers, parameters
and inserts, the line that a complaint is about. With bundled packs all of this is always there. So every
text can be parsed, its complaints can be reported, and its scripts can be listed.

## Key results

- `Vocabulary.readsSafely_ofPacks`: what is looked up and read of lines
- `Layout.run_stackSafe`: what is taken off the stack of containers
- `Vocabulary.parse_writable`: the blocks of the scripts of a text can be written
- `Lexicon.parse_safe`: all of it, for every text
-/

namespace BlockScript

/-! ## Brackets -/

/-- A text that starts with an opening bracket has a closing one that goes with it. -/
private theorem Bracket.closerOf_take_one {t : Text} {b : Bracket} (h : leading? t = some b) :
    closerOf (t.take 1) = .ok [b.closer] := by
  cases t with
  | nil => cases h
  | cons c rest =>
    have hc : ofOpener? c = some b := h
    simp [closerOf, ofOpeningText?, hc]

/-! ## Lines -/

namespace Vocabulary

/-- If all blocks can be drawn, every line gives a block. -/
theorem Drawable.exists_lineBlock {v : Vocabulary} (hv : v.Drawable) (line : Text) :
    ∃ b, v.lineBlock line = .ok b := by
  cases hread : (v.readLine line).result with
  | ok b => exact ⟨b, lineBlock_of_readLine hread⟩
  | error f =>
    obtain rfl := readLine_eq_error hv hread
    refine ⟨Workspace.unread line, ?_⟩
    simp only [lineBlock, Workspace.readLine, Workspace.new, hread]

/-- The block that a line gives can be written. -/
theorem lineBlock_writable {v : Vocabulary} {line : Text} {b : Block} (h : v.lineBlock line = .ok b) :
    b.Writable := by
  constructor
  · obtain hread | ⟨-, rfl⟩ := lineBlock_ok h
    · exact readLine_allFormed hread
    · rw [Block.allFormed_iff]
      refine ⟨Block.formed_of_shape ?_ ?_ ?_, ?_⟩ <;> simp [Workspace.unread, Piece.blocks, Shape.isInsert]
  · intro hcomment
    obtain ⟨comment, rfl⟩ := lineBlock_isComment h hcomment
    exact Option.some_ne_none comment

/-- What is asked for while lines are read: known blocks and their specs, the closing brackets of opening
    ones, and the pieces of what has been read. -/
structure ReadsSafely (v : Vocabulary) : Prop where
  lookup : ∀ key id lang, Dictionary.get? key v.index = some (id, lang) →
    isKnown id = true ∧ ∃ p, Dictionary.get? lang v.languages = some p ∧
      (hasImage id = true → Dictionary.get? id p.blocks ≠ none)
  found : ∀ spec args, ∃ found, v.find? spec args = .ok found
  bracket : ∀ t b, Bracket.leading? t = some b → Bracket.closerOf (t.take 1) = .ok [b.closer]
  fragment : ∀ depth isLine code, (Fragment.read v depth isLine code).result = .error .tooDeep ∨
    ∃ b, (Fragment.read v depth isLine code).result = .ok b ∧ b.AllFormed
  line : ∀ line, ∃ b, v.lineBlock line = .ok b ∧ b.Writable

/-- Packs with specs for all images make a vocabulary in which everything is there. -/
theorem readsSafely_ofPacks {folded : Bool} {ps : List Pack} (h : ∀ p ∈ ps, p.Illustrated) :
    (ofPacks folded ps).ReadsSafely := by
  have hdraw : (ofPacks folded ps).Drawable := drawable_ofPacks h
  constructor
  · -- an entry comes from the last pack in its language, which has a spec for every image
    intro key id lang hindex
    obtain ⟨hknown, ⟨p, hlast⟩, -⟩ := index_ofPacks hindex
    have hp : p ∈ ps := List.mem_reverse.1 (List.mem_of_find?_eq_some hlast)
    refine ⟨hknown, { p with blocks := knownSpecs p }, ?_, fun himage => ?_⟩
    · rw [get?_languages_ofPacks, hlast]
      rfl
    · rw [get?_knownSpecs, if_pos hknown]
      simpa using h p hp id himage
  · exact hdraw.exists_find?
  · exact fun t b => Bracket.closerOf_take_one
  · -- only the depth can fail, as all blocks can be drawn
    intro depth isLine code
    cases hread : (Fragment.read (ofPacks folded ps) depth isLine code).result with
    | ok b => exact .inr ⟨b, rfl, Fragment.read_allFormed hread⟩
    | error f => exact .inl (by rw [Fragment.read_eq_error hdraw hread])
  · intro line
    obtain ⟨b, hb⟩ := hdraw.exists_lineBlock line
    exact ⟨b, hb, lineBlock_writable hb⟩

end Vocabulary

/-! ## The stack of containers -/

/-- A layout from which no container can be missing. The containers stand in each other; a block that ends a
    branch takes none off the stack if the script stands alone on it, and otherwise only those of the
    innermost C block; and while implied ends complete the script, there is a C block for each. -/
structure Layout.StackSafe (l : Layout) : Prop where
  stacked : Nesting.Stacked l.nesting.stack
  flat : ∀ b : Block, b.attrs.flag = some .cElse ∨ b.attrs.flag = some .cEnd →
    l.nesting.stack.length = 1 → l.add b = if b.isComment then l.placeAlone b else l.place b
  divides : ∀ b : Block, b.attrs.flag = some .cElse → 1 < l.nesting.stack.length →
    l.add b = l.nest (Nesting.divideWith b) ∧
      (l.nesting.divideWith b).stack.length = l.nesting.stack.length
  closes : ∀ b : Block, b.attrs.flag = some .cEnd → 1 < l.nesting.stack.length →
    l.add b = l.nest (Nesting.closeWith b) ∧
      (l.nesting.closeWith b).stack.length + 2 = l.nesting.stack.length
  implied : ∀ k < l.nesting.frames.length,
    1 < ((Nesting.closeWith impliedEnd)^[k] l.nesting).stack.length

/-- Every layout of a run is safe to go on from. -/
theorem Layout.run_stackSafe (moves : List Move) : (run moves).StackSafe := by
  -- more than one container means that a C block is open
  have hnested : 1 < (run moves).nesting.stack.length → (run moves).nesting.frames ≠ [] := by
    intro h
    rw [ne_eq, ← Nesting.length_stack_eq_one_iff]
    omega
  constructor
  · exact Nesting.stacked (run_wellBuilt moves).nesting
  · exact fun b hb hflat => add_ender_flat hb ((Nesting.length_stack_eq_one_iff _).1 hflat)
  · exact fun b hb h => ⟨(add_ender_nested (hnested h)).1 hb,
      Nesting.length_stack_divideWith b (hnested h)⟩
  · exact fun b hb h => ⟨(add_ender_nested (hnested h)).2 hb,
      Nesting.length_stack_closeWith b (hnested h)⟩
  · exact fun k hk => Nesting.one_lt_length_stack_iterate _ hk

/-! ## Scripts -/

/-- A block that is `Settled` by laying out is `Writable` if it was. -/
theorem Block.Settled.writable {b b' : Block} (h : b.Settled b') (hb : b.Writable) : b'.Writable := by
  have hnote : b'.attrs.capEnd = true → b'.attrs.flag ≠ none := by
    intro hcapEnd
    rw [h.flag_eq]
    by_cases hender : b.attrs.flag = some .cElse ∨ b.attrs.flag = some .cEnd
    · rcases hender with hender | hender <;> simp [hender]
    · -- only the end of a branch gets a mark
      rw [not_or] at hender
      rw [(h.unlessEnder hender.1 hender.2).2] at hcapEnd
      exact ((allFormed_iff b).1 hb.formed).1.note hcapEnd
  constructor
  · -- laying out leaves the pieces alone, so it is about the block itself
    have hinside := ((allFormed_iff b).1 hb.formed).2
    rw [allFormed_iff, h.pieces]
    refine ⟨?_, hinside⟩
    by_cases hopens : b.attrs.flag = some .cStart
    · -- an opener gives its shape to the C block, and has the one of a stack block
      have hshape : b'.attrs.shape = some .stack := by rw [h.shape, if_pos hopens]
      apply formed_of_shape
      · simp [hshape]
      · rw [hshape]
        intro shape hstack
        cases hstack
        rfl
      · exact hnote
    · have hshape : b'.attrs.shape = b.attrs.shape := by rw [h.shape, if_neg hopens]
      exact ((allFormed_iff b).1 hb.formed).1.congr h.pieces hshape hnote
  · show (b'.attrs.id == some "//".toList) = true → b'.attrs.comment ≠ none
    rw [h.attrs]
    exact hb.comment

/-- An implied end can be written. -/
private theorem Block.writable_of_isImplied {b : Block} (h : b.isImplied = true) : b.Writable := by
  obtain ⟨c, e, rfl⟩ := (isImplied_iff b).1 h
  constructor
  · rw [allFormed_iff]
    refine ⟨formed_of_shape ?_ ?_ ?_, ?_⟩ <;>
      simp [asEnder, impliedEnd, Piece.blocks, Shape.isInsert]
  · simp [asEnder, impliedEnd, isComment]

namespace Vocabulary

/-- The blocks of the `scripts` of a text can be written. -/
theorem parse_writable {v : Vocabulary} {text : Text} {w : Workspace} (h : v.parse text = .ok w) :
    ∀ b ∈ w.scripts.flatMap Script.blocks, b.Writable := by
  obtain ⟨w₀, hlayOut, rfl⟩ := parse_ok h
  have hwritten : ∀ b ∈ (w₀.scripts.flatMap Script.blocks).filter (fun b => !b.isImplied),
      b.Writable := by
    refine Lists.forall_right_of_forall₂ (layOut_settled hlayOut) ?_
    rintro line b ⟨b₀, hline, hsettled⟩
    exact hsettled.writable (lineBlock_writable hline)
  rw [Workspace.blocks_resolve]
  intro b hb
  obtain ⟨b₀, hb₀, rfl⟩ := List.mem_map.1 hb
  have hb₀ : b₀.Writable := by
    -- a block of the scripts is implied, or it is what a line has given
    by_cases himplied : b₀.isImplied = true
    · exact Block.writable_of_isImplied himplied
    · exact hwritten b₀ (List.mem_filter.2 ⟨hb₀, by simpa using himplied⟩)
  apply hb₀.mapAttrs
  intro a
  rw [Session.resolved_eq]

/-- After `takeLines` for any number of lines of a text the layout is `StackSafe`: no container can be
    missing. -/
theorem takeLines_stackSafe {v : Vocabulary} (hv : v.ReadsSafely) (lines source : List Text) :
    ∃ w, Workspace.takeLines lines { Workspace.new v with source := source, line := 1 } = (w, none) ∧
      w.layout.StackSafe := by
  obtain ⟨w, hw⟩ : ∃ w, Workspace.takeLines lines
      { Workspace.new v with source := source, line := 1 } = (w, none) :=
    Workspace.takeLines_isOk fun line _ => (hv.line line).imp fun _ hb => hb.1
  obtain ⟨moves, hlayout, -⟩ := (Workspace.takeLines_takes hw).layout
  have hrun : w.layout = Layout.run moves := hlayout
  exact ⟨w, hw, hrun ▸ Layout.run_stackSafe moves⟩

end Vocabulary

/-! ## Texts -/

/-- What is asked for when a text has been read: each complaint is about a written line of the text, so
    complaints can be reported; all blocks can be written, so scripts can be listed. -/
structure Workspace.WritesSafely (w : Workspace) (text : Text) : Prop where
  logged : ∀ e ∈ w.log, IsWrittenLine (sourceLines text) e.1
  report : ∃ t, w.report = .ok t
  blocks : ∀ b ∈ w.scripts.flatMap Script.blocks, b.Writable
  listing : ∃ t, Listing.ofScripts w.scripts = .ok t

/-- A text that `parse` accepts `WritesSafely`, in each of the formats. -/
theorem Vocabulary.parse_writesSafely {v : Vocabulary} {text : Text} {w : Workspace}
    (h : v.parse text = .ok w) : w.WritesSafely text := by
  obtain ⟨hsource, hlog⟩ := parse_log h
  have hblocks := parse_writable h
  refine ⟨hlog, ?_, hblocks, Listing.ofScripts_isOk hblocks⟩
  apply Workspace.report_isOk
  rw [hsource]
  exact hlog

namespace Lexicon

/-- With bundled packs no text breaks anything, whether marks count or not. The vocabulary `ReadsSafely`, so
    what is looked up and read of a line is there, and so are the containers that are taken off the stack at
    any moment; to `complain` raises nothing critical; and `parse` gives scripts that can be reported on and
    listed. -/
theorem parse_safe {around : List Folder} {names : List Text}
    (h : ∀ name ∈ names, Bundle.find? around name = some germanPack.toJson) (folded : Bool) :
    ∃ l, withPacks around folded names [] = .ok l ∧ l.current.ReadsSafely ∧
      (∀ (cs : List Complaint) (w : Workspace),
        w.complain cs = cs.foldl (fun w c => (w.raise none false c).1) w ∧
          ∀ c, (w.raise none false c).2 = none) ∧
      ∀ text : Text,
        (∀ count, ∃ w, Workspace.takeLines ((Workspace.sourceLines text).take count)
            { Workspace.new l.current with source := Workspace.sourceLines text, line := 1 } =
              (w, none) ∧ w.layout.StackSafe) ∧
          ∃ w, l.current.parse text = .ok w ∧ w.WritesSafely text := by
  obtain ⟨l, hl, hcurrent⟩ := withPacks_german h folded
  have hsafe : l.current.ReadsSafely := by
    rw [hcurrent]
    exact Vocabulary.readsSafely_ofPacks fun p => illustrated_of_mem
  refine ⟨l, hl, hsafe, fun cs w => ⟨w.complain_eq_foldl_raise cs, fun _ => rfl⟩, fun text => ?_⟩
  refine ⟨fun count => Vocabulary.takeLines_stackSafe hsafe _ _, ?_⟩
  obtain ⟨w, hw⟩ : ∃ w, l.current.parse text = .ok w :=
    Vocabulary.exists_parse fun line _ => (hsafe.line line).imp fun _ hb => hb.1
  exact ⟨w, hw, Vocabulary.parse_writesSafely hw⟩

/-- With the German pack, a header with an open bracket, an end without anything to end, and a block with
    an image that is written in German. -/
theorem parse_safe_of_german :
    ∃ l w, withPacks [Bundle.home] true [germanPack.code] [] = .ok l ∧ l.current.ReadsSafely ∧
      l.current.parse "Definiere foo (bar\nEnde\n\nWenn @green-flag angeklickt".toList = .ok w ∧
      w.WritesSafely "Definiere foo (bar\nEnde\n\nWenn @green-flag angeklickt".toList := by
  have hnames : ∀ name ∈ [germanPack.code],
      Bundle.find? [Bundle.home] name = some germanPack.toJson :=
    List.forall_mem_singleton.2 (Bundle.find?_germanPack _)
  obtain ⟨l, hl, hsafe, -, htexts⟩ := parse_safe hnames true
  obtain ⟨-, w, hw, hwrites⟩ :=
    htexts "Definiere foo (bar\nEnde\n\nWenn @green-flag angeklickt".toList
  exact ⟨l, w, hl, hsafe, hw, hwrites⟩

end Lexicon

end BlockScript
