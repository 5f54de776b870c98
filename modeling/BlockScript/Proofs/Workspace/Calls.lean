import BlockScript.Proofs.Reading.Call
import BlockScript.Proofs.Workspace.Names
import BlockScript.Proofs.Workspace.Safety

/-!
# Calls of defined blocks in a text

A header in a text defines a block, and calls of the block are told by their key, wherever the header stands.
A header ends where a comment starts, also in one of its parameters; so what it defines has no more runs and
slots than stand in front of the comment.

## Key results

- `Vocabulary.mem_definitions`: what a header in a text defines
- `Vocabulary.call_category`: calls of what a header defines are custom blocks
-/

namespace BlockScript.Vocabulary

open Line

/-- A line of a text that is not blank is written. -/
private theorem mem_writtenLines {text line : Text} (hline : line ∈ Text.lines text)
    (hfilled : Text.trim line ≠ []) :
    Text.trim line ∈ Text.writtenLines text :=
  List.mem_filter.2 ⟨List.mem_map_of_mem hline, by simpa using hfilled⟩

section Header

variable {folded : Bool} {text : Text} {runs params : List Text} (h : IsHeader runs params)
  (hheader : headerLine runs params ∈ Text.lines text)

include h hheader

/-- A header in a text defines the `key` of its `runs`, as far as they are shown. -/
theorem mem_definitions {w : Workspace} (hw : (english folded).parse text = .ok w) :
    (english folded).key (callSpec (shownRuns runs params)) ∈ w.session.definitions := by
  have hfilled : Text.trim (headerLine runs params) ≠ [] := by
    obtain ⟨run, later, rfl⟩ := h.fits.exists_cons
    rw [headerLine_cons, trim_define]
    exact List.append_ne_nil_of_left_ne_nil (by decide) _
  have hmem := @definition_mem_sightings folded _ _ h
  rw [← readLine_trim] at hmem
  rw [Session.definitions, parse_sightings hw, List.mem_filterMap]
  exact ⟨_, List.mem_flatMap.2 ⟨_, mem_writtenLines hheader hfilled, hmem⟩, rfl⟩

/-- If a text has a header, each line of it that is woven from the `shownRuns` of the header and arguments,
    and that `IsCall`, gives a custom block, unless it is nested too deeply. -/
theorem call_category {args : List Text} (hcall : IsCall (english folded) (shownRuns runs params) args)
    (hdeep : ((english folded).readLine (Text.weave (shownRuns runs params) args)).result ≠
      .error .tooDeep) :
    ∃ w, (english folded).parse text = .ok w ∧
      List.Forall₂
        (fun line b => line = Text.trim (Text.weave (shownRuns runs params) args) →
          b.attrs.category = some .custom)
        (Text.writtenLines text) ((w.scripts.flatMap Script.blocks).filter fun b => !b.isImplied) := by
  obtain ⟨w, hw⟩ := exists_parse fun line _ => (english_drawable folded).exists_lineBlock line
  refine ⟨w, hw, (parse_ends hw).imp ?_⟩
  rintro line b ⟨b₀, hline, hends⟩ rfl
  obtain ⟨b₁, hread, hobsolete, -, hflag, hcalled⟩ :=
    readLine_call (forall_mem_shownRuns h.literal params) hcall hdeep
  rw [← readLine_trim] at hread
  obtain rfl : b₀ = b₁ := Except.ok.inj (hline.symm.trans (lineBlock_of_readLine hread))
  have hdefined := mem_definitions h hheader hw
  rw [(Block.ends_attrs hends).unlessEnder (by simp [hflag]) (by simp [hflag]), Session.resolvedCategory, hcalled,
    if_pos ⟨hobsolete, by simpa using hdefined⟩]

end Header

/-- A call is unknown if its spec has no other letters. -/
private theorem find?_eq_none_of_letters {spec : Text}
    (h : ((english true).key spec).all "bar my_v".toList.contains = true) (args : List Text) :
    (english true).find? spec args = .ok none := by
  rw [find?, index_eq_none_of_letters h]

/-- A call in front of the header. -/
theorem call_category_of_late_header :
    ∃ w b, (english true).parse "my (1) bar\ndefine my (v) bar".toList = .ok w ∧
      ("my (1) bar".toList, b) ∈ (Text.writtenLines "my (1) bar\ndefine my (v) bar".toList).zip
        ((w.scripts.flatMap Script.blocks).filter fun b => !b.isImplied) ∧
      b.attrs.category = some .custom := by
  have hheader : IsHeader ["my ".toList, " bar".toList] ["v".toList] := by decide +kernel
  have hshown : shownRuns ["my ".toList, " bar".toList] ["v".toList] =
      ["my ".toList, " bar".toList] := by
    decide +kernel
  have hcall : IsCall (english true) ["my ".toList, " bar".toList] ["(1)".toList] :=
    { fits := Text.fits_iff.2 rfl
      arguments := by decide +kernel
      filled := by decide +kernel
      unheaded := by decide +kernel
      unknown := find?_eq_none_of_letters (by decide +kernel) _ }
  have hdeep := readLine_call_ne_tooDeep hheader.literal hcall (by decide +kernel)
  have hmem : headerLine ["my ".toList, " bar".toList] ["v".toList] ∈
      Text.lines "my (1) bar\ndefine my (v) bar".toList := by
    decide +kernel
  have hlines : Text.writtenLines "my (1) bar\ndefine my (v) bar".toList =
      ["my (1) bar".toList, "define my (v) bar".toList] := by
    decide +kernel
  obtain ⟨w, hw, hblocks⟩ := call_category hheader hmem (hshown ▸ hcall) (hshown ▸ hdeep)
  rw [hlines] at hblocks ⊢
  -- the call is the first of the two lines
  obtain ⟨b, bs, hcustom, -, hfirst⟩ := List.forall₂_cons_left_iff.1 hblocks
  refine ⟨w, b, hw, ?_, hcustom ?_⟩
  · rw [hfirst]
    exact List.mem_cons_self
  · rw [hshown]
    decide +kernel

/-- Runs behind a comment are not shown, so a call with all runs of a header may be lost. -/
theorem call_category_lost :
    ∃ w b, (english true).parse "define bar (a//b) my\nbar (1) my".toList = .ok w ∧
      IsHeader ["bar ".toList, " my".toList] ["a//b".toList] ∧
      IsCall (english true) ["bar ".toList, " my".toList] ["(1)".toList] ∧
      headerLine ["bar ".toList, " my".toList] ["a//b".toList] ∈
        Text.lines "define bar (a//b) my\nbar (1) my".toList ∧
      (Text.weave ["bar ".toList, " my".toList] ["(1)".toList], b) ∈
        (Text.writtenLines "define bar (a//b) my\nbar (1) my".toList).zip
          ((w.scripts.flatMap Script.blocks).filter fun b => !b.isImplied) ∧
      ((english true).readLine (Text.weave ["bar ".toList, " my".toList] ["(1)".toList])).result ≠
        .error .tooDeep ∧
      b.attrs.category = some .obsolete := by
  have hheader : IsHeader ["bar ".toList, " my".toList] ["a//b".toList] := by decide +kernel
  have hcall : IsCall (english true) ["bar ".toList, " my".toList] ["(1)".toList] :=
    { fits := Text.fits_iff.2 rfl
      arguments := by decide +kernel
      filled := by decide +kernel
      unheaded := by decide +kernel
      unknown := find?_eq_none_of_letters (by decide +kernel) _ }
  have hdeep := readLine_call_ne_tooDeep hheader.literal hcall (by decide +kernel)
  obtain ⟨b₁, hread, hobsolete, hshape, hflag, hcalled⟩ := readLine_call hheader.literal hcall hdeep
  have hlines : Text.writtenLines "define bar (a//b) my\nbar (1) my".toList =
      ["define bar (a//b) my".toList, Text.weave ["bar ".toList, " my".toList] ["(1)".toList]] := by
    decide +kernel
  obtain ⟨w, hw⟩ : ∃ w, (english true).parse "define bar (a//b) my\nbar (1) my".toList = .ok w :=
    exists_parse fun line _ => (english_drawable true).exists_lineBlock line
  -- the header defines the block with its first run, and the call defines nothing
  have hdefinitions : w.session.definitions = [(english true).key "bar _".toList] := by
    have hdefined : ((english true).readLine "define bar (a//b) my".toList).sightings.filterMap
        Sighting.definition? = [(english true).key "bar _".toList] := by
      decide +kernel
    rw [Session.definitions, parse_sightings hw, hlines, List.flatMap_cons, List.flatMap_singleton,
      List.filterMap_append, hdefined, definitions_of_shape_ne hread (by simp [hshape]), List.append_nil]
  have hblocks := parse_ends hw
  rw [hlines] at hblocks ⊢
  obtain ⟨_, _, -, hrest, hfirst⟩ := List.forall₂_cons_left_iff.1 hblocks
  obtain ⟨b, _, ⟨b₀, hline, hends⟩, -, hsecond⟩ := List.forall₂_cons_left_iff.1 hrest
  refine ⟨w, b, hw, hheader, hcall, by decide +kernel, ?_, hdeep, ?_⟩
  · rw [hfirst, hsecond]
    simp
  · obtain rfl : b₀ = b₁ := Except.ok.inj (hline.symm.trans (lineBlock_of_readLine hread))
    have hkey : (english true).key (callSpec ["bar ".toList, " my".toList]) ≠
        (english true).key "bar _".toList := by
      decide +kernel
    rw [(Block.ends_attrs hends).unlessEnder (by simp [hflag]) (by simp [hflag]), Session.resolvedCategory, hcalled,
      hdefinitions]
    generalize (english true).key (callSpec _) = key at hkey ⊢
    generalize (english true).key "bar _".toList = key' at hkey ⊢
    simp [hobsolete, hkey]

end BlockScript.Vocabulary
