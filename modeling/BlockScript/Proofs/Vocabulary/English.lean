import BlockScript.Proofs.Text.Key
import BlockScript.Proofs.Vocabulary.Found

/-!
# The English index

In English a block is named by its spec, so it is found by the key of its name. A few blocks with an image
are found by an alias too. One word starts a header.

## Key results

- `Vocabulary.english_index`: under which keys the blocks of the English index stand
- `Vocabulary.english_index_eq_none`, `Vocabulary.english_index_of_mem_palette`: texts that are the spec
  of no block, and of a block of the palette
- `Vocabulary.english_find?_eq_ok`: the specs by which a block is found
-/

namespace BlockScript.Vocabulary

/-- The English vocabulary is `folded` if it is asked to be. -/
theorem english_folded (folded : Bool) : (english folded).folded = folded := by
  cases folded <;> rfl

/-- `define` is the one word that starts a header. -/
theorem english_headerWords (folded : Bool) : (english folded).headerWords = ["define".toList] := by
  cases folded <;> decide +kernel

/-- The English vocabulary is the English pack alone. -/
private theorem english_eq_add (folded : Bool) : english folded = (empty folded).add englishPack := by
  cases folded <;> rfl

/-- The specs by which blocks are found in English, with the names of the blocks. -/
def englishSpecs : List (Text × Text) :=
  (palette.flatMap fun group => group.2.map fun e => (withoutImageName e.spec, e.spec)) ++
    englishPack.aliases

/-- The English pack gives each block of the `palette` its name for a `spec`. -/
private theorem englishPack_blocks : englishPack.blocks =
    Dictionary.ofList (palette.flatMap fun group => group.2.map fun e => (e.spec, e.spec)) := by
  rw [englishPack]

/-- So a block of `englishPack` is one of the palette, and has its name for a spec. -/
theorem mem_englishPack_blocks {id spec : Text} (h : (id, spec) ∈ englishPack.blocks) :
    spec = id ∧ ∃ group ∈ palette, ∃ e ∈ group.2, e.spec = id := by
  rw [englishPack_blocks] at h
  have hentries := (Dictionary.mem_or_mem_of_mem_putAll h).resolve_right (by simp)
  simp only [List.mem_flatMap, List.mem_map, Prod.mk.injEq] at hentries
  obtain ⟨group, hgroup, e, he, hid, hspec⟩ := hentries
  exact ⟨by rw [← hspec, hid], group, hgroup, e, he, hid⟩

/-- And a block of the `palette` is in the pack. -/
theorem get?_englishPack_blocks {group : Category × List Entry} {e : Entry} (hgroup : group ∈ palette)
    (he : e ∈ group.2) : Dictionary.get? e.spec englishPack.blocks = some e.spec := by
  have hwritten : Dictionary.get? e.spec englishPack.blocks ≠ none := by
    rw [englishPack_blocks]
    refine Dictionary.get?_putAll_ne_none (.inl ?_)
    simp only [List.mem_map, List.mem_flatMap]
    exact ⟨_, ⟨group, hgroup, e, he, rfl⟩, rfl⟩
  obtain ⟨spec, hspec⟩ := Option.ne_none_iff_exists'.1 hwritten
  rw [hspec, (mem_englishPack_blocks (Dictionary.mem_of_get? hspec)).1]

/-- A block of the English index stands there under the key of one of the `englishSpecs`. -/
theorem english_index {folded : Bool} {key id lang : Text}
    (h : Dictionary.get? key (english folded).index = some (id, lang)) :
    lang = englishPack.code ∧
      ∃ spec, (spec, id) ∈ englishSpecs ∧ key = Text.key folded (Text.padSlots spec) := by
  simp only [english_eq_add, add] at h
  -- aliases are written last, so one of them counts before a spec with the same key
  obtain halias | hspecs := Dictionary.mem_or_get?_of_get?_putAll h
  · simp only [aliasEntries, knownAliases, List.mem_map, List.mem_filter, Prod.mk.injEq] at halias
    obtain ⟨e, ⟨hmem, -⟩, hkey, hid, hlang⟩ := halias
    refine ⟨hlang.symm, e.1, List.mem_append_right _ ?_, hkey.symm⟩
    rw [← hid]
    exact hmem
  · have hspec := (Dictionary.mem_or_get?_of_get?_putAll hspecs).resolve_right (by simp [empty])
    simp only [specEntries, knownSpecs, List.mem_map, List.mem_filter, Prod.mk.injEq] at hspec
    obtain ⟨⟨_, ⟨e, ⟨hmem, -⟩, rfl⟩, hkey, hid, hlang⟩, -⟩ := hspec
    obtain ⟨hspec, group, hgroup, entry, hentry, hname⟩ := mem_englishPack_blocks hmem
    dsimp only at hkey hid hlang
    refine ⟨hlang.symm, withoutImageName id, List.mem_append_left _ ?_, ?_⟩
    · refine List.mem_flatMap.2 ⟨group, hgroup, List.mem_map.2 ⟨entry, hentry, ?_⟩⟩
      rw [hname, hid]
    · rw [← hkey, ← hid, hspec]
      rfl

/-- A text is the spec of no English block if each of the `englishSpecs` has a character that a key keeps and
    the text has not, or at least has another key. -/
theorem english_index_eq_none {folded : Bool} {letters key : Text}
    (h : ∀ e ∈ englishSpecs, (∃ c ∈ e.1, Text.isKept c = true ∧ c ∉ letters) ∨
      ∃ c ∈ Text.key folded (Text.padSlots e.1), c ∉ letters)
    (hkey : ∀ c ∈ key, c ∈ letters) : Dictionary.get? key (english folded).index = none := by
  cases hindex : Dictionary.get? key (english folded).index with
  | none => rfl
  | some entry =>
    obtain ⟨-, spec, hspec, rfl⟩ := english_index hindex
    rcases h _ hspec with ⟨c, hc, hkept, hletter⟩ | ⟨c, hc, hletter⟩
    · have hpadded := Text.mem_padSlots_of_mem hc
      exact absurd (hkey c (Text.mem_key_of_mem folded hkept hpadded)) hletter
    · exact absurd (hkey c hc) hletter

/-- No English block is written with these letters alone. -/
theorem index_eq_none_of_letters {key : Text} (h : key.all "bar my_v".toList.contains = true) :
    Dictionary.get? key (english true).index = none := by
  have hspecs : englishSpecs.all (fun e =>
      (e.1.any fun c => Text.isKept c && !"bar my_v".toList.contains c) ||
        (Text.key true (Text.padSlots e.1)).any fun c => !"bar my_v".toList.contains c) = true := by
    decide +kernel
  have hletters : ∀ c ∈ key, c ∈ "bar my_v".toList := by simpa using h
  refine english_index_eq_none (fun e he => ?_) hletters
  simpa using List.all_eq_true.1 hspecs e he

/-- A block of the `palette` is found by its name if there is no other block with its `key`. -/
theorem english_index_of_mem_palette {folded : Bool} {group : Category × List Entry} {e : Entry}
    (hgroup : group ∈ palette) (he : e ∈ group.2)
    (hkey : Text.key folded (Text.padSlots (withoutImageName e.spec)) ≠ [])
    (honly : ∀ e' ∈ englishSpecs, Text.key folded (Text.padSlots e'.1) =
      Text.key folded (Text.padSlots (withoutImageName e.spec)) → e'.2 = e.spec) :
    Dictionary.get? (Text.key folded (Text.padSlots (withoutImageName e.spec)))
      (english folded).index = some (e.spec, englishPack.code) := by
  -- the block is known, so its spec is an entry, unless its key is empty
  have hknown : isKnown e.spec = true := by
    obtain ⟨a, ha⟩ := knownBlock?_of_mem_palette hgroup he
    simp [isKnown, ha]
  have hblock := Dictionary.mem_of_get? (get?_englishPack_blocks hgroup he)
  have hentry : Text.key folded (Text.padSlots (withoutImageName e.spec)) ∈
      (specEntries (empty folded) englishPack).map (·.1) := by
    have hfilled : decide ((empty folded).specKey (withoutImageName e.spec) ≠ []) = true := by
      rw [decide_eq_true_eq]
      exact hkey
    simp only [specEntries, knownSpecs, List.mem_map, List.mem_filter]
    exact ⟨_, ⟨⟨_, ⟨_, ⟨hblock, hknown⟩, rfl⟩, rfl⟩, hfilled⟩, rfl⟩
  -- there is an entry under the key, and all that could be in it is the block itself
  have hindex : Dictionary.get? (Text.key folded (Text.padSlots (withoutImageName e.spec)))
      (english folded).index ≠ none := by
    simp only [english_eq_add, add]
    exact Dictionary.get?_putAll_ne_none (.inr (Dictionary.get?_putAll_ne_none (.inl hentry)))
  obtain ⟨⟨id, lang⟩, hfound⟩ := Option.ne_none_iff_exists'.1 hindex
  obtain ⟨rfl, spec, hspec, hsame⟩ := english_index hfound
  have hid : id = e.spec := honly _ hspec hsame.symm
  rw [hfound, hid]

/-- So is a block without an image by any spec with the `key` of its name, and it has its name then. -/
theorem english_find?_of_mem_palette {folded : Bool} {group : Category × List Entry} {e : Entry}
    (hgroup : group ∈ palette) (he : e ∈ group.2) {spec : Text} (himage : imageName? e.spec = none)
    (hspec : Text.key folded spec = Text.key folded (Text.padSlots (withoutImageName e.spec)))
    (hkey : Text.key folded spec ≠ [])
    (honly : ∀ e' ∈ englishSpecs, Text.key folded (Text.padSlots e'.1) = Text.key folded spec →
      e'.2 = e.spec) (args : List Text) :
    ∃ f, (english folded).find? spec args = .ok (some f) ∧ f.attrs.id = some e.spec ∧
      (∃ group' ∈ palette, ∃ e' ∈ group'.2, e'.spec = e.spec ∧ f.attrs.flag = e'.flag) ∧
      f.text = drawnText spec := by
  obtain ⟨a, ha⟩ := knownBlock?_of_mem_palette hgroup he
  obtain ⟨group', hgroup', e', he', hname, rfl⟩ := exists_entry_of_knownBlock? ha
  rw [hspec] at hkey honly
  have hindex : Dictionary.get? ((english folded).key spec) (english folded).index =
      some (e.spec, englishPack.code) := by
    rw [key, english_folded, hspec]
    exact english_index_of_mem_palette hgroup he hkey honly
  -- arguments refine what has been found, but neither its name nor its flag
  have hfind := find?_of_index hindex (by simp [ha, Entry.attrs, hname, himage]) args
  refine ⟨_, hfind, ?_, ⟨group', hgroup', e', he', hname, ?_⟩, rfl⟩
  · rw [refine_eq, ha]
    simp [Entry.attrs, hname]
  · rw [refine_eq, ha]
    rfl

/-- A block without an alias is found by specs with the `key` of its name, and it is drawn as it was written
    unless it has an image. -/
theorem english_find?_eq_ok {folded : Bool} {spec id : Text} {args : List Text} {f : Found}
    (h : (english folded).find? spec args = .ok (some f)) (hid : f.attrs.id = some id)
    (halias : ∀ spec, (spec, id) ∉ englishPack.aliases) :
    Text.key folded spec = Text.key folded (Text.padSlots (withoutImageName id)) ∧
      (imageName? id = none → f.text = drawnText spec) := by
  obtain ⟨id', lang, hindex, hattrs, hdrawn⟩ := find?_eq_ok h
  rw [hattrs, refine_eq] at hid
  -- what is found has a name, so it is a block of the palette
  cases hknown : knownBlock? id' with
  | none =>
    rw [hknown] at hid
    cases hid
  | some a =>
    rw [hknown] at hid hdrawn
    simp only [Option.getD_some] at hid hdrawn
    obtain ⟨group, -, e, -, rfl, rfl⟩ := exists_entry_of_knownBlock? hknown
    obtain rfl : e.spec = id := Option.some.inj hid
    refine ⟨?_, hdrawn⟩
    rw [key, english_folded] at hindex
    obtain ⟨-, spec', hspec', hkey⟩ := english_index hindex
    -- the key is that of a spec of the pack, or of an alias, which the block has not
    rcases List.mem_append.1 hspec' with hpalette | hspec'
    · simp only [List.mem_flatMap, List.mem_map, Prod.mk.injEq] at hpalette
      obtain ⟨_, -, e', -, hspec, hname⟩ := hpalette
      rw [hkey, ← hspec, hname]
    · exact absurd hspec' (halias spec')

end BlockScript.Vocabulary
