import BlockScript.Proofs.Vocabulary.Bundled
import BlockScript.Proofs.Vocabulary.Translation

/-!
# The slots of blocks that are found

A block is drawn with a text that has a slot for each of its arguments. Mostly it is the text as it was
written, less what a language puts in its place: a block with an image is drawn as the language spells it, and
the block that closes C blocks is drawn without a text. Where the text is another one, the key tells how many
slots there have been: it has at least as many as what was written, and for the bundled packs no more than
the text has that is drawn.

## Key results

- `Vocabulary.find?_slots`: a text has slots for all that stands in the spec it was found by
- `Lexicon.keepsSlots_of_mem`: the bundled packs are such that this holds
-/

namespace BlockScript

/-- Whether a block may be drawn with another text than the one that was written: it has an image, or closes
    C blocks. -/
def isRedrawn (id : Text) : Bool := hasImage id || id == "end".toList

/-- A pack of which the texts of such blocks, and the keys of these texts, have as many slots as the names of
    the blocks. -/
def Pack.KeepsSlots (p : Pack) : Prop :=
  ∀ e ∈ Vocabulary.textsOf p, isRedrawn e.2 = true → e.1.count '_' = e.2.count '_' ∧
    ∀ folded, (Text.key folded (Text.padSlots e.1)).count '_' = e.2.count '_'

namespace Vocabulary

variable {folded : Bool} {ps : List Pack} (h : ∀ p ∈ ps, p.KeepsSlots)

include h

/-- What was written for such a block has no more slots than its name. -/
private theorem count_le_of_isRedrawn {spec id lang : Text}
    (hindex : Dictionary.get? ((ofPacks folded ps).key spec) (ofPacks folded ps).index = some (id, lang))
    (hid : isRedrawn id = true) : spec.count '_' ≤ id.count '_' := by
  obtain ⟨-, -, text, ⟨p, hp, htext⟩, hkey⟩ := index_ofPacks hindex
  rw [specKey_ofPacks, key, ofPacks_folded] at hkey
  calc spec.count '_' ≤ (Text.key folded spec).count '_' := Text.count_le_key folded (by decide) spec
    _ = (Text.key folded (Text.padSlots text)).count '_' := by rw [hkey]
    _ = id.count '_' := (h p hp _ htext hid).2 folded

/-- The text that `find?` gives has slots for all that stands in the spec it was found by. -/
theorem find?_slots {spec : Text} {args : List Text} {f : Found}
    (hfind : (ofPacks folded ps).find? spec args = .ok (some f)) :
    spec.count '_' ≤ (if f.attrs.flag = some .cEnd then [] else f.text).count '_' := by
  obtain ⟨id, lang, hindex, hattrs, hdrawn⟩ := find?_eq_ok hfind
  obtain ⟨a, ha⟩ := Option.isSome_iff_exists.1 (index_ofPacks hindex).1
  obtain ⟨group, hgroup, e, he, rfl, rfl⟩ := exists_entry_of_knownBlock? ha
  -- arguments refine a block, but leave its flag
  have hflag : f.attrs.flag = e.flag := by
    rw [hattrs, refine_eq, ha]
    rfl
  split
  · -- the one block that is drawn without text has no slots
    rename_i hend
    have hname := palette_closing group hgroup e he (hflag.symm.trans hend)
    have hcount := count_le_of_isRedrawn h hindex (by simp [isRedrawn, hname])
    have hnone : "end".toList.count '_' = 0 := by decide
    rw [hname, hnone] at hcount
    exact hcount.trans (Nat.zero_le _)
  · by_cases himage : hasImage e.spec = true
    · -- the text is one that a pack gives for the block, maybe another pack than the one it was found in
      have hspec := specIn?_of_hasImage hfind hindex himage
      obtain ⟨p, hp, htext⟩ := exists_knownSpecs_of_specIn? hspec
      have hredrawn : isRedrawn e.spec = true := by simp [isRedrawn, himage]
      have hmem : (f.text, e.spec) ∈ textsOf p :=
        List.mem_append_left _ (List.mem_map.2 ⟨_, htext, rfl⟩)
      rw [(h p hp _ hmem hredrawn).1]
      exact count_le_of_isRedrawn h hindex hredrawn
    · -- without an image it is drawn as it was written
      have hnone : ((knownBlock? e.spec).getD {}).image = none := by
        simpa [hasImage] using himage
      rw [hdrawn hnone, count_drawnText]

end Vocabulary

/-! ## Bundled packs -/

/-- The blocks with `isRedrawn`, one by one. -/
private theorem mem_of_isRedrawn {id : Text} (h : isRedrawn id = true) :
    id ∈ "end".toList :: imageBlocks := by
  rw [isRedrawn, Bool.or_eq_true, beq_iff_eq] at h
  rcases h with himage | hend
  · exact List.mem_cons_of_mem _ (mem_imageBlocks himage)
  · rw [hend]
    exact List.mem_cons_self

/-- Whether the texts of some blocks have as many slots as the names of these. -/
private def haveSlots (texts : List (Text × Text)) : Bool :=
  texts.all fun e => !("end".toList :: imageBlocks).contains e.2 ||
    (e.1.count '_' == e.2.count '_' && [false, true].all fun folded =>
      (Text.key folded (Text.padSlots e.1)).count '_' == e.2.count '_')

private theorem of_haveSlots {texts : List (Text × Text)} (h : haveSlots texts = true) {e : Text × Text}
    (he : e ∈ texts) (hid : isRedrawn e.2 = true) : e.1.count '_' = e.2.count '_' ∧
      ∀ folded, (Text.key folded (Text.padSlots e.1)).count '_' = e.2.count '_' := by
  have hchecked := List.all_eq_true.1 h e he
  have hmem : ("end".toList :: imageBlocks).contains e.2 = true :=
    List.contains_iff_mem.2 (mem_of_isRedrawn hid)
  simp only [hmem, Bool.not_true, Bool.false_or, Bool.and_eq_true, List.all_eq_true, beq_iff_eq] at hchecked
  exact ⟨hchecked.1, fun folded => hchecked.2 folded (by cases folded <;> simp)⟩

/-- The texts of a pack, for blocks that are known and for others. -/
private theorem mem_texts_of_mem_textsOf {p : Pack} {e : Text × Text} (he : e ∈ Vocabulary.textsOf p) :
    e ∈ p.blocks.map (fun e => (withoutImageName e.2, e.1)) ++ p.aliases := by
  rcases List.mem_append.1 he with he | he
  · obtain ⟨_, hspec, rfl⟩ := List.mem_map.1 he
    obtain ⟨e, hblock, rfl⟩ := List.mem_map.1 hspec
    exact List.mem_append_left _ (List.mem_map.2 ⟨e, (List.mem_filter.1 hblock).1, rfl⟩)
  · exact List.mem_append_right _ (List.mem_filter.1 he).1

/-- The English pack `KeepsSlots`: the texts and their keys have been compared with the names. -/
theorem englishPack_keepsSlots : englishPack.KeepsSlots := by
  have hchecked : haveSlots Vocabulary.englishSpecs = true := by decide +kernel
  exact fun e he => of_haveSlots hchecked (Vocabulary.mem_englishSpecs_of_mem_textsOf he)

/-- In the German pack each such text has been given as many slots as the name. -/
private theorem germanPack_keepsSlots : germanPack.KeepsSlots := by
  have hchecked : haveSlots (germanPack.blocks.map (fun e => (withoutImageName e.2, e.1)) ++
      germanPack.aliases) = true := by
    decide +kernel
  exact fun e he => of_haveSlots hchecked (mem_texts_of_mem_textsOf he)

/-- A lexicon with bundled packs is made of packs that `KeepsSlots`. -/
theorem Lexicon.keepsSlots_of_mem {p : Pack} {count : Nat}
    (h : p ∈ englishPack :: List.replicate count germanPack) : p.KeepsSlots := by
  rcases List.mem_cons.1 h with rfl | h
  · exact englishPack_keepsSlots
  · obtain rfl := List.eq_of_mem_replicate h
    exact germanPack_keepsSlots

end BlockScript
