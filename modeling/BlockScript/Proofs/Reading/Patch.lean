import BlockScript.Proofs.Reading.Depth
import BlockScript.Proofs.Reading.Kind
import BlockScript.Proofs.Reading.Recognised
import BlockScript.Proofs.Reading.Recorder
import BlockScript.Proofs.Reading.Suffix

/-!
# Words behind a line are a patch

Two colons and words behind a line set the category, the flag and the shape of its block, and draw rings
around what is nested in it if they ask for them. Nothing else changes, but that words that mean nothing are
complained about and that no list is sighted.

## Key results

- `addComplaints_eq`: which complaints are added
- `Fragment.finish_isPatch`: a block that is finished with words is a patch of the block without them
- `Vocabulary.readFragment_suffix`: so is a line with words behind it
-/

namespace BlockScript

/-! ## Patches -/

/-- `addComplaints` adds complaints in their order, each of them once, if they are not known. -/
theorem addComplaints_eq (known new : List Complaint) :
    addComplaints known new = known ++ (new.filter fun c => c ∉ known).eraseDups := by
  induction new generalizing known with
  | nil => simp [addComplaints]
  | cons c new ih =>
    have hstep : addComplaints known (c :: new) =
        addComplaints (if c ∈ known then known else known ++ [c]) new := rfl
    rw [hstep]
    by_cases hc : c ∈ known
    · -- what is known is left out
      rw [if_pos hc, ih, List.filter_cons_of_neg (by simpa using hc)]
    · -- later on the complaint is known
      have hlater : new.filter (fun d => d ∉ known ++ [c]) =
          (new.filter fun d => d ∉ known).filter fun d => !d == c := by
        rw [List.filter_filter]
        refine List.filter_congr fun d _ => ?_
        rw [Bool.eq_iff_iff]
        simp [not_or, and_comm]
      rw [if_neg hc, ih, hlater, List.filter_cons_of_pos (by simpa using hc), List.eraseDups_cons,
        List.append_assoc, List.singleton_append]

/-- What words make of a block: of those that name a category the last one sets it, and so do the last flag
    and the last shape. Rings are drawn around what is nested in the block just if it has that flag then. -/
structure Block.IsPatch (words : List Text) (b b' : Block) : Prop where
  attrs : b'.attrs = { b.attrs with
    category := ((words.filterMap Override.category?).getLast?).or b.attrs.category
    flag := ((words.filterMap Override.flag?).getLast?).or b.attrs.flag
    shape := ((words.filterMap Override.shape?).getLast?).or b.attrs.shape }
  pieces : b'.pieces = if b'.attrs.flag = some .ring then b.pieces.map Piece.ring else b.pieces
  ringed : ∀ c ∈ b'.arguments, c.attrs.ringed = true ↔ b'.attrs.flag = some .ring

/-- What words make of an outcome. A failure stays as it is. Of a block there is a complaint more for each
    word that means nothing, unless there has been this one, and a use of a list less. -/
structure Outcome.IsPatch (words : List Text) (o o' : Outcome Block) : Prop where
  failed : ∀ f, o.result = .error f → o' = o
  patched : ∀ b, o.result = .ok b → ∃ b', o'.result = .ok b' ∧ b.IsPatch words b' ∧
    addComplaints [] o'.complaints = addComplaints [] o.complaints ++
      (((words.filter Override.isUnknown).map .unknownOverride).filter
        fun c => c ∉ addComplaints [] o.complaints).eraseDups ∧
    o.sightings = o'.sightings ++ (Fragment.listUse? b).toList.map .list

namespace Fragment

/-- There is a complaint for each word that `isUnknown`. -/
private theorem overrideComplaints_map_ofWord (words : List Text) :
    overrideComplaints (words.map .ofWord) = (words.filter Override.isUnknown).map .unknownOverride := by
  induction words with
  | nil => rfl
  | cons word words ih =>
    rw [overrideComplaints] at ih ⊢
    rw [List.map_cons, List.filterMap_cons, ih, Override.unknownWord?_ofWord, List.filter_cons]
    split <;> simp_all

/-- With words, `finish` gives a block that `IsPatch` of the one without them. -/
theorem finish_isPatch {attrs : Attrs} (hring : attrs.flag ≠ some .ring) (hnamed : attrs.namedAs = none)
    {words : List Text} (hwords : words ≠ []) {pieces : Outcome (List Piece)}
    (hringed : ∀ ps, pieces.result = .ok ps → ∀ c ∈ Piece.blocks ps, c.attrs.ringed = false) :
    Outcome.IsPatch words (finish attrs [] pieces) (finish attrs words pieces) := by
  constructor
  · intro f hf
    -- a fault comes from the pieces, so it is the same with words
    have hpieces := finish_eq_error hf
    simp only [finish, hpieces]
  · intro b hb
    obtain ⟨ps, hps, hattrs, -, hplain⟩ := finish_eq_ok hb
    obtain rfl : b = ⟨attrs, ps⟩ := by
      cases b
      simpa using ⟨hattrs, hplain rfl⟩
    obtain ⟨b', hb'⟩ : ∃ b', (finish attrs words pieces).result = .ok b' := by
      simp only [finish, hps]
      exact ⟨_, rfl⟩
    obtain ⟨ps', hps', hattrs', hpieces'⟩ := finish_rings hring hb'
    obtain rfl : ps = ps' := Except.ok.inj (hps.symm.trans hps')
    -- words make no name of a block, so nothing is sighted that has not been sighted without them
    have hunnamed : ownSighting b'.attrs = [] := by
      rw [hattrs', Override.applyAll_eq, ownSighting]
      simp only [hnamed]
    refine ⟨b', hb', ⟨?_, hpieces', Block.ringed_of_rings hpieces' (hringed ps hps)⟩, ?_, ?_⟩
    · rw [hattrs', Override.applyAll_eq, Override.applyAll_ofWord_category, Override.applyAll_ofWord_flag,
        Override.applyAll_ofWord_shape]
    · -- the words are complained of behind everything else, and each of them once
      have hcomplaints : (finish attrs words pieces).complaints =
          (finish attrs [] pieces).complaints ++ (words.filter Override.isUnknown).map .unknownOverride := by
        have hnone : overrideComplaints [] = [] := rfl
        simp [finish, hps, overrideComplaints_map_ofWord, hnone]
      rw [hcomplaints, addComplaints_append, addComplaints_eq (addComplaints [] _)]
    · rw [finish_sightings hb, finish_sightings hb', hunnamed, if_pos rfl, if_neg hwords, List.append_nil,
        ownSighting]
      simp only [hnamed]

/-- Only a reporter may be a variable. -/
private theorem identify_namedAs {v : Vocabulary} {spec : Text} {args : List Text} {shape : Shape}
    {f : Found}
    (h : identify v spec args shape = .ok f) (hshape : shape ≠ .reporter) : f.attrs.namedAs = none := by
  unfold identify at h
  split at h
  · cases h
  · cases h
    simp [unknownAttrs, hshape]
  · rename_i attrs text hfound
    cases h
    split at hfound
    · cases hfound
    · exact (Vocabulary.find?_attrs hfound).2.2.1

/-- The place of a line is that of a `stack` block. -/
private theorem placeShape_line (v : Vocabulary) (line : Text) : placeShape v true line = .stack :=
  blockShape_none _ _

/-- What is nested in a block has no rings when its slots are filled. -/
private theorem fillSlots_ringed {v : Vocabulary} {depth : Nat} {parts args : List Text} {ps : List Piece}
    (h : (fillSlots (read v depth false) parts args).result = .ok ps) :
    ∀ c ∈ Piece.blocks ps, c.attrs.ringed = false :=
  Lists.forall_right_of_forall₂ (fillSlots_eq_ok h).blocks fun _ _ => read_ringed

/-- Words that are overrides and nothing else make a patch. -/
private theorem isPatch_of_split {v : Vocabulary} {line line' : Text} {words : List Text}
    (hclosed : (tokenize v.signRule line).unclosed = none)
    (hclosed' : (tokenize v.signRule line').unclosed = none)
    (hheader : v.header? line = none) (hheader' : v.header? line' = none) (hwords : words ≠ [])
    (hspec : Override.split (specOf (piecesIn v true line)) = (specOf (piecesIn v true line), []))
    (hspec' : Override.split (specOf (piecesIn v true line')) = (specOf (piecesIn v true line), words))
    (hargs : argumentsIn v true line' = argumentsIn v true line) :
    Outcome.IsPatch words (v.readFragment true line) (v.readFragment true line') := by
  have hform := (isBlock_of_line hheader).form_eq
  have hform' := (isBlock_of_line hheader').form_eq
  rw [hspec, placeShape_line] at hform
  rw [hspec', hargs, placeShape_line] at hform'
  -- both are the same block with the same arguments, and differ by their words alone
  rw [readFragment_of_closed hclosed, readFragment_of_closed hclosed', hform, hform']
  cases hidentify : identify v (specOf (piecesIn v true line)) (argumentsIn v true line) .stack with
  | error e => exact ⟨fun f _ => rfl, fun b hb => by cases hb⟩
  | ok f =>
    obtain ⟨attrs, text⟩ := f
    rw [hidentify] at hform
    exact finish_isPatch (flag_ne_ring_of_block hform) (identify_namedAs hidentify (by decide)) hwords
      fun ps => fillSlots_ringed

/-- A block without overrides is what its spec says. -/
private theorem exists_identify_of_split {v : Vocabulary} {line : Text} {spec : Text} {b : Block}
    (hheader : v.header? line = none)
    (hspec : Override.split (specOf (piecesIn v true line)) = (spec, []))
    (h : (v.readFragment true line).result = .ok b) :
    ∃ args text, identify v spec args .stack = .ok ⟨b.attrs, text⟩ := by
  have hform := (isBlock_of_line hheader).form_eq
  rw [hspec, placeShape_line] at hform
  rw [readFragment_result, hform] at h
  cases hidentify : identify v spec (argumentsIn v true line) .stack with
  | error e =>
    rw [hidentify] at h
    cases h
  | ok f =>
    obtain ⟨attrs, text⟩ := f
    rw [hidentify] at h
    -- without words nothing is overridden
    obtain ⟨ps, -, hattrs, -⟩ := finish_eq_ok h
    exact ⟨_, text, by rw [hidentify, hattrs]; rfl⟩

end Fragment

namespace Vocabulary

open Fragment

/-- Two colons and words behind a line, its `suffix`, are a patch by `IsPatch`, unless the line `EndsInSign`.
    Then they are part of the argument for which the text behind the sign is taken, and the block is what
    `identify` makes of the spec alone. -/
theorem readFragment_suffix (v : Vocabulary) {line : Text} {words : List Text} (hbreak : '\n' ∉ line)
    (hclosed : (tokenize v.signRule line).unclosed = none)
    (hspec : ¬ Override.HasWords (specOf (piecesIn v true line))) (hfilled : words ≠ [])
    (hwords : ∀ word ∈ words, Override.IsWord word) (hheader : v.header? line = none)
    (hheader' : v.header? (line ++ Override.suffix words) = none) :
    (¬ EndsInSign v line →
      Outcome.IsPatch words (v.readFragment true line) (v.readFragment true (line ++ Override.suffix words))) ∧
    (EndsInSign v line → ∀ b, (v.readFragment true (line ++ Override.suffix words)).result = .ok b →
      ∃ args text, identify v (specOf (piecesIn v true line)) args .stack = .ok ⟨b.attrs, text⟩) := by
  constructor
  · intro hsign
    obtain ⟨hsplit, hargs⟩ := split_suffix hbreak hclosed hfilled hwords hsign
    exact isPatch_of_split hclosed (unclosed_suffix hclosed hwords) hheader hheader' hfilled
      (Override.split_eq_self_of_not hspec) hsplit hargs
  · intro hsign b hb
    exact exists_identify_of_split hheader' (split_suffix_of_sign hbreak hclosed hfilled hwords hsign hspec) hb

/-- A line that ends in a sign, for it starts with the words of a block that has one. -/
private theorem line_with_sign : '\n' ∉ "when distance (5)<".toList ∧
    (tokenize (english true).signRule "when distance (5)<".toList).unclosed = none ∧
    specOf (piecesIn (english true) true "when distance (5)<".toList) = "when distance _ _".toList ∧
    (english true).header? "when distance (5)<".toList = none ∧
    EndsInSign (english true) "when distance (5)<".toList := by
  refine ⟨by decide, by decide +kernel, by decide +kernel, by decide +kernel, "<".toList, ?_, "<".toList, ?_, rfl⟩
  · decide +kernel
  · decide +kernel

/-- Words behind an argument draw a ring, and behind a sign they do nothing. -/
theorem readFragment_suffix_of_ring :
    Outcome.IsPatch ["ring".toList, "foo".toList] ((english true).readFragment true "say (10)".toList)
        ((english true).readFragment true "say (10) :: ring foo".toList) ∧
      ∀ b, ((english true).readFragment true "when distance (5)< :: ring foo".toList).result = .ok b →
        ∃ args text, identify (english true) "when distance _ _".toList args .stack = .ok ⟨b.attrs, text⟩ := by
  have hwords : ∀ word ∈ ["ring".toList, "foo".toList], Override.IsWord word := by decide
  constructor
  · have hspec : ¬ Override.HasWords (specOf (piecesIn (english true) true "say (10)".toList)) :=
      fun h => absurd h.isInfix (by decide +kernel)
    have hpatch := readFragment_suffix (english true) (by decide : '\n' ∉ "say (10)".toList)
      (by decide +kernel) hspec (by decide) hwords (by decide +kernel) (by decide +kernel)
    refine hpatch.1 ?_
    rintro ⟨t, ht, -⟩
    -- the last token is an argument, so no sign is at the end
    have hlast : (tokenize (english true).signRule "say (10)".toList).tokens.getLast? =
        some (.bracketed "(10)".toList) := by
      decide +kernel
    rw [hlast] at ht
    cases ht
  · obtain ⟨hbreak, hclosed, hspec, hheader, hsign⟩ := line_with_sign
    have hhas : ¬ Override.HasWords (specOf (piecesIn (english true) true "when distance (5)<".toList)) :=
      fun h => absurd (hspec ▸ h.isInfix) (by decide)
    have hpatch := readFragment_suffix (english true) hbreak hclosed hhas (by decide) hwords hheader
      (by decide +kernel)
    rw [hspec] at hpatch
    exact hpatch.2 hsign

/-- The words do not set the category of a block whose line ends in a sign. -/
theorem not_isPatch_of_sign :
    '\n' ∉ "when distance (5)<".toList ∧
      (tokenize (english true).signRule "when distance (5)<".toList).unclosed = none ∧
      ¬ Override.HasWords (specOf (piecesIn (english true) true "when distance (5)<".toList)) ∧
      Override.IsWord "motion".toList ∧ (english true).header? "when distance (5)<".toList = none ∧
      (english true).header? "when distance (5)< :: motion".toList = none ∧
      ¬ Outcome.IsPatch ["motion".toList] ((english true).readFragment true "when distance (5)<".toList)
        ((english true).readFragment true ("when distance (5)<".toList ++ Override.suffix ["motion".toList])) := by
  obtain ⟨hbreak, hclosed, hspec, hheader, hsign⟩ := line_with_sign
  have hhas : ¬ Override.HasWords (specOf (piecesIn (english true) true "when distance (5)<".toList)) :=
    fun h => absurd (hspec ▸ h.isInfix) (by decide)
  have hwords : ∀ word ∈ ["motion".toList], Override.IsWord word := by decide
  have hheader' : (english true).header?
      ("when distance (5)<".toList ++ Override.suffix ["motion".toList]) = none := by
    decide +kernel
  refine ⟨hbreak, hclosed, hhas, by decide, hheader, hheader', fun hpatch => ?_⟩
  -- without the words the line is read, so the patch would be in another category
  obtain ⟨b, hb⟩ := exists_read (english_drawable true) (read_ne_tooDeep (by decide) :
    ((english true).readFragment true "when distance (5)<".toList).result ≠ .error .tooDeep)
  obtain ⟨b', hb', hblock, -⟩ := hpatch.patched b hb
  have hmotion : b'.attrs.category = some .motion := by
    rw [hblock.attrs]
    rfl
  -- with the words the block is still the one of another category
  have hsplit := split_suffix_of_sign hbreak hclosed (by decide) hwords hsign hhas
  obtain ⟨args, text, hidentify⟩ := exists_identify_of_split hheader' hsplit hb'
  have hgroup : (Category.extension, extensionEntries) ∈ palette := by simp [palette]
  have he : Entry.hat "when distance _ _" ∈ extensionEntries := by simp [extensionEntries]
  have hpadded : Text.padSlots (Entry.hat "when distance _ _").spec = "when distance _ _".toList := by decide
  obtain ⟨group, hgroup', he', hknown⟩ := @english_identify true _ _ hgroup he (by decide) (by decide)
    (by decide) "when distance _ _".toList (by decide) (by rw [hpadded]) args .stack
  rw [hspec, hknown] at hidentify
  have hcategory : b'.attrs.category = some group.1 := by
    rw [← (Found.mk.inj (Except.ok.inj hidentify)).1]
    rfl
  -- which is not that of the block
  have hothers : ∀ group ∈ palette, group.1 = .motion → Entry.hat "when distance _ _" ∉ group.2 := by
    decide +kernel
  exact hothers group hgroup' (Option.some.inj (hcategory.symm.trans hmotion)) he'

end Vocabulary

end BlockScript
