import BlockScript.Proofs.Vocabulary.Loads

/-!
# Bundled packs can be drawn

Whatever bundled packs are loaded, no lookup fails. A pack that has a spec for every block with an image
draws all that it brings into the index, and the bundled packs are of this kind.

## Key results

- `Vocabulary.drawable_ofPacks`: what is made of packs with specs for all images can be drawn
- `Lexicon.withPacks_german`: what packs a lexicon with bundled packs is made of
- `Lexicon.illustrated_of_mem`: they have specs for all images
-/

namespace BlockScript

/-! ## Packs with specs for all images -/

/-- A pack with a spec for every block with an image. -/
def Pack.Illustrated (p : Pack) : Prop :=
  ∀ id, hasImage id = true → Dictionary.get? id p.blocks ≠ none

/-- What is made of packs that are `Illustrated` is `Drawable`. -/
theorem Vocabulary.drawable_ofPacks {folded : Bool} {ps : List Pack}
    (h : ∀ p ∈ ps, p.Illustrated) : (ofPacks folded ps).Drawable := by
  intro key id lang hindex himage
  obtain ⟨hknown, ⟨p, hlast⟩, -⟩ := index_ofPacks hindex
  have hp : p ∈ ps := List.mem_reverse.1 (List.mem_of_find?_eq_some hlast)
  rw [specIn?_ofPacks hknown, hlast]
  simpa using h p hp id himage

/-- The English pack is `Illustrated`, as every block has a spec in it. -/
theorem englishPack_illustrated : englishPack.Illustrated := by
  intro id himage
  obtain ⟨a, ha⟩ := Option.isSome_iff_exists.1 (isKnown_of_hasImage himage)
  obtain ⟨group, hgroup, e, he, rfl, -⟩ := exists_entry_of_knownBlock? ha
  apply Dictionary.get?_putAll_ne_none
  left
  simp only [List.mem_map, List.mem_flatMap]
  exact ⟨_, ⟨group, hgroup, e, he, rfl⟩, rfl⟩

/-- The English vocabulary is `Drawable`. -/
theorem Vocabulary.english_drawable (folded : Bool) : (english folded).Drawable := by
  rw [Lexicon.english_eq_ofPacks]
  exact drawable_ofPacks (by simpa using englishPack_illustrated)

/-- The names of the blocks with an image. -/
def imageBlocks : List Text :=
  ["turn @arrow-ccw _ degrees", "turn @arrow-cw _ degrees", "when @green-flag clicked"].map
    String.toList

/-- Only `imageBlocks` have an image. -/
theorem mem_imageBlocks {id : Text} (h : hasImage id = true) : id ∈ imageBlocks := by
  -- checked for the palette as a whole
  have hall : palette.all (fun group => group.2.all fun e =>
      (imageName? e.spec).isNone || imageBlocks.contains e.spec) = true := by
    decide +kernel
  have hknown := isKnown_of_hasImage h
  obtain ⟨a, ha⟩ := Option.isSome_iff_exists.1 hknown
  obtain ⟨group, hgroup, e, he, rfl, -⟩ := exists_entry_of_knownBlock? ha
  rw [hasImage_of_isKnown hknown] at h
  have hentry := List.all_eq_true.1 (List.all_eq_true.1 hall group hgroup) e he
  rw [Bool.or_eq_true, Option.isNone_iff_eq_none] at hentry
  rcases hentry with hnone | hmem
  · simp [hnone] at h
  · exact List.contains_iff_mem.1 hmem

/-- The German pack is `Illustrated`: it has a spec for each block with an image. -/
theorem germanPack_illustrated : germanPack.Illustrated := by
  intro id himage
  have hid := mem_imageBlocks himage
  simp only [imageBlocks, List.map_cons, List.map_nil, List.mem_cons, List.not_mem_nil,
    or_false] at hid
  apply Dictionary.get?_putAll_ne_none
  left
  rcases hid with rfl | rfl | rfl <;> simp

/-! ## Loading bundled packs -/

/-- The German pack is bundled under its code, whatever folders are around. -/
theorem Bundle.find?_germanPack (around : List Folder) :
    find? around germanPack.code = some germanPack.toJson := by
  rfl

namespace Lexicon

/-- The German pack can be loaded by every name that leads to it. -/
private theorem loadBundled_german {around : List Folder} {name : Text}
    (h : Bundle.find? around name = some germanPack.toJson) (l : Lexicon) :
    loadBundled around l name = .ok (germanPack, l.add germanPack) := by
  simp only [loadBundled, h, load, Pack.ofJson_toJson (p := germanPack) (by decide)]

/-- What `withPacks` makes of bundled packs is made of English and the German pack, as often as it is
    named. -/
theorem withPacks_german {around : List Folder} {names : List Text}
    (h : ∀ name ∈ names, Bundle.find? around name = some germanPack.toJson) (folded : Bool) :
    ∃ l, withPacks around folded names [] = .ok l ∧
      l.current = Vocabulary.ofPacks folded (englishPack :: List.replicate names.length germanPack) := by
  simp only [withPacks, List.foldlM_nil, bind_pure]
  -- the induction needs the packs that are there already, so it is over any of them
  suffices hload : ∀ (l : Lexicon) (ps : List Pack), l.current = Vocabulary.ofPacks folded ps →
      ∃ l', names.foldlM (fun l name => (loadBundled around l name).map (·.2)) l = .ok l' ∧
        l'.current = Vocabulary.ofPacks folded (ps ++ List.replicate names.length germanPack) from
    hload (english folded) [englishPack] (english_eq_ofPacks folded)
  induction names with
  | nil =>
    intro l ps hcurrent
    exact ⟨l, rfl, by simpa using hcurrent⟩
  | cons name names ih =>
    intro l ps hcurrent
    rw [List.forall_mem_cons] at h
    -- each name adds the same pack behind the others
    have hadd : (l.add germanPack).current = Vocabulary.ofPacks folded (ps ++ [germanPack]) := by
      rw [add, hcurrent, Vocabulary.ofPacks_concat]
    obtain ⟨l', hl', hcurrent'⟩ := ih h.2 (l.add germanPack) _ hadd
    refine ⟨l', ?_, ?_⟩
    · rw [List.foldlM_cons, loadBundled_german h.1]
      exact hl'
    · rw [hcurrent', List.append_assoc, List.length_cons, List.replicate_succ, List.singleton_append]

/-- The packs that it is made of are `Illustrated`. -/
theorem illustrated_of_mem {p : Pack} {count : Nat}
    (h : p ∈ englishPack :: List.replicate count germanPack) : p.Illustrated := by
  rcases List.mem_cons.1 h with rfl | h
  · exact englishPack_illustrated
  · obtain rfl := List.eq_of_mem_replicate h
    exact germanPack_illustrated

end Lexicon

end BlockScript
