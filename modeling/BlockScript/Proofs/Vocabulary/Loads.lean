import Mathlib.Data.List.Induction
import BlockScript.Proofs.Vocabulary.Found
import BlockScript.Vocabulary.Lexicon

/-!
# What can be looked up after packs have been loaded

The index of a vocabulary keeps the entries of every pack that has been added, but of each language only
the last pack is kept. So an entry can outlive the spec that it stands for, and an alias makes an entry
without any spec. This matters for blocks with an image alone, since these are drawn as their language
spells them.

## Key results

- `Vocabulary.index_ofPacks`, `Vocabulary.specIn?_ofPacks`: what is in the tables of a vocabulary, by the
  packs that it has been made of
- `Vocabulary.drawable_iff`: no lookup fails just if every block with an image can be drawn
- `Lexicon.run_current`: the packs that a lexicon is made of after any loads and resets
- `Lexicon.lookup_fails_iff`: when a lookup fails then
-/

namespace BlockScript

/-! ## Packs as JSON -/

/-- `checkTextObject` reads an object of texts as `textObject` has written it. -/
private theorem checkTextObject_textObject (path : List Text) (entries : Dictionary Text) :
    checkTextObject path (textObject entries) = .ok entries := by
  rw [textObject, checkTextObject]
  induction entries with
  | nil => rfl
  | cons e rest ih =>
    simp only [List.map_cons, checkEntries, checkText, ih]
    rfl

/-- `checkTextArray` accepts an array of texts. -/
private theorem checkTextArray_texts (path : List Text) (ts : List Text) :
    checkTextArray path (.texts ts) = .ok ts := by
  rw [Json.texts, checkTextArray]
  generalize 0 = number
  induction ts generalizing number with
  | nil => rfl
  | cons t rest ih =>
    simp only [List.map_cons, checkItems, checkText, ih]
    rfl

/-- There are no `unexpectedFields` if all are among the `packFields`. -/
private theorem unexpectedFields_eq_nil {fields : List (Text × Json)}
    (h : ∀ name ∈ Dictionary.keys fields, name ∈ packFields) : unexpectedFields fields = [] := by
  have hnone : (Dictionary.keys fields).filter (fun name => !packFields.contains name) = [] := by
    rw [List.filter_eq_nil_iff]
    intro name hname
    simpa using h name hname
  rw [unexpectedFields, hnone, List.mergeSort_nil]

/-- `ofJson` reads a pack with the code of a language as `toJson` has written it. -/
theorem Pack.ofJson_toJson {p : Pack} (h : isAcceptedCode p.code = true) :
    Pack.ofJson p.toJson = .ok p := by
  have hunexpected : ∀ code blocks aliases headerWords signPhrases mathFunctions otherScripts,
      unexpectedFields [("code".toList, code), ("blocks".toList, blocks),
        ("aliases".toList, aliases), ("define".toList, headerWords),
        ("ignorelt".toList, signPhrases), ("math".toList, mathFunctions),
        ("osis".toList, otherScripts)] = [] := by
    intros
    exact unexpectedFields_eq_nil (by simp [packFields])
  simp only [toJson, Json.record, List.map_cons, List.map_nil, ofJson, bind, Except.bind]
  rw [hunexpected]
  simp [requireField, checkField, Dictionary.get?_cons, checkCode, checkText, h, bind,
    Except.bind, checkTextObject_textObject, checkTextArray_texts]

namespace Vocabulary

/-! ## Vocabularies of packs -/

/-- The vocabulary of some packs, added one after the other. -/
def ofPacks (folded : Bool) (ps : List Pack) : Vocabulary := ps.foldl add (empty folded)

/-- The last pack of a language. -/
def lastPack? (lang : Text) (ps : List Pack) : Option Pack :=
  ps.reverse.find? fun p => p.code == lang

@[simp] theorem ofPacks_concat (folded : Bool) (ps : List Pack) (p : Pack) :
    ofPacks folded (ps ++ [p]) = (ofPacks folded ps).add p := by
  simp [ofPacks]

/-- One more pack is the `lastPack?` of its language. -/
theorem lastPack?_concat (lang : Text) (ps : List Pack) (p : Pack) :
    lastPack? lang (ps ++ [p]) = if lang = p.code then some p else lastPack? lang ps := by
  by_cases h : lang = p.code
  · simp [lastPack?, h]
  · have hne : (p.code == lang) = false := beq_false_of_ne (Ne.symm h)
    simp [lastPack?, h, hne]

@[simp] theorem ofPacks_folded (folded : Bool) (ps : List Pack) :
    (ofPacks folded ps).folded = folded := by
  induction ps using List.reverseRecOn with
  | nil => rfl
  | append_singleton ps p ih => rw [ofPacks_concat, add, ih]

/-- The `key` of a spec depends on nothing but whether marks count. -/
theorem specKey_ofPacks (folded : Bool) (ps : List Pack) (spec : Text) :
    (ofPacks folded ps).specKey spec = Text.key folded (Text.padSlots spec) := by
  rw [specKey, key, ofPacks_folded]

/-- The `knownSpecs` of a pack are its specs of the blocks that are known. -/
theorem get?_knownSpecs (id : Text) (p : Pack) :
    Dictionary.get? id (knownSpecs p) =
      if isKnown id then (Dictionary.get? id p.blocks).map withoutImageName else none :=
  Dictionary.get?_filter_map id isKnown withoutImageName p.blocks

/-- Of each language `ofPacks` keeps the last pack. -/
theorem get?_languages_ofPacks (folded : Bool) (ps : List Pack) (lang : Text) :
    Dictionary.get? lang (ofPacks folded ps).languages =
      (lastPack? lang ps).map fun p => { p with blocks := knownSpecs p } := by
  induction ps using List.reverseRecOn with
  | nil => rfl
  | append_singleton ps p ih =>
    rw [ofPacks_concat, lastPack?_concat, add, Dictionary.get?_put, ih]
    split <;> rfl

/-- With `ofPacks`, the spec of a block in a language is that of the last pack of the language. -/
theorem specIn?_ofPacks {folded : Bool} {ps : List Pack} {lang id : Text}
    (h : isKnown id = true) : (ofPacks folded ps).specIn? lang id =
      (lastPack? lang ps).bind fun p => (Dictionary.get? id p.blocks).map withoutImageName := by
  rw [specIn?, get?_languages_ofPacks]
  cases lastPack? lang ps with
  | none => rfl
  | some p =>
    simp only [Option.map_some, Option.bind_some]
    rw [get?_knownSpecs, if_pos h]

/-- The texts by which the blocks of a pack are found, each with the name of its block: the specs without
    names of images, and the aliases. -/
def textsOf (p : Pack) : List (Text × Text) :=
  (knownSpecs p).map (fun e => (e.2, e.1)) ++ knownAliases p

/-- An entry that a pack makes is one of a known block, and stands under the key of one of the `textsOf` the
    pack. -/
private theorem entry_of_pack {v : Vocabulary} {p : Pack} {key id lang : Text}
    (h : (key, (id, lang)) ∈ v.specEntries p ∨ (key, (id, lang)) ∈ v.aliasEntries p) :
    isKnown id = true ∧ lang = p.code ∧ ∃ spec, (spec, id) ∈ textsOf p ∧ key = v.specKey spec := by
  rcases h with h | h
  · simp only [specEntries, knownSpecs, List.mem_filter, List.mem_map, Prod.mk.injEq] at h
    obtain ⟨⟨_, ⟨e, ⟨hmem, hknown⟩, rfl⟩, hkey, rfl, hlang⟩, -⟩ := h
    refine ⟨hknown, hlang.symm, _, List.mem_append_left _ ?_, hkey.symm⟩
    exact List.mem_map_of_mem (List.mem_map_of_mem (List.mem_filter.2 ⟨hmem, hknown⟩))
  · simp only [aliasEntries, List.mem_map, Prod.mk.injEq] at h
    obtain ⟨e, hmem, hkey, rfl, hlang⟩ := h
    have hknown : isKnown e.2 = true := (List.mem_filter.1 hmem).2
    exact ⟨hknown, hlang.symm, _, List.mem_append_right _ hmem, hkey.symm⟩

/-- Under a key the last alias of a pack counts, or else the last spec, or else what was there before. -/
private theorem get?_index_add (v : Vocabulary) (p : Pack) (key : Text) :
    Dictionary.get? key (v.add p).index =
      (Dictionary.get? key (v.aliasEntries p).reverse).or
        ((Dictionary.get? key (v.specEntries p).reverse).or (Dictionary.get? key v.index)) := by
  rw [add, Dictionary.get?_putAll, Dictionary.get?_putAll]

/-- The spec of the one block of a pack makes the one entry of its `specEntries`. -/
private theorem specEntries_singleton {v : Vocabulary} {p : Pack} {id spec : Text}
    (hblocks : p.blocks = [(id, spec)]) (hknown : isKnown id = true)
    (hkey : v.specKey (withoutImageName spec) ≠ []) :
    v.specEntries p = [(v.specKey (withoutImageName spec), (id, p.code))] := by
  simp [specEntries, knownSpecs, hblocks, hknown, hkey]

/-- An entry of a vocabulary that a pack has been added to is one of the pack, or was there before. -/
private theorem mem_entries_of_index_add {v : Vocabulary} {p : Pack} {key : Text} {entry : Text × Text}
    (h : Dictionary.get? key (v.add p).index = some entry) :
    ((key, entry) ∈ v.specEntries p ∨ (key, entry) ∈ v.aliasEntries p) ∨
      Dictionary.get? key v.index = some entry := by
  rw [get?_index_add, Option.or_eq_some_iff, Option.or_eq_some_iff] at h
  rcases h with halias | ⟨-, hspec | ⟨-, hold⟩⟩
  · exact .inl (.inr (List.mem_reverse.1 (Dictionary.mem_of_get? halias)))
  · exact .inl (.inl (List.mem_reverse.1 (Dictionary.mem_of_get? hspec)))
  · exact .inr hold

/-- The entries of the `index` are those of known blocks in languages that have been added, and each of them
    is due to a text of a pack. -/
theorem index_ofPacks {folded : Bool} {ps : List Pack} {key id lang : Text}
    (h : Dictionary.get? key (ofPacks folded ps).index = some (id, lang)) :
    isKnown id = true ∧ (∃ p, lastPack? lang ps = some p) ∧
      ∃ spec, (∃ p ∈ ps, (spec, id) ∈ textsOf p) ∧ key = (ofPacks folded ps).specKey spec := by
  induction ps using List.reverseRecOn with
  | nil => cases h
  | append_singleton ps p ih =>
    simp only [specKey_ofPacks, lastPack?_concat] at ih ⊢
    rw [ofPacks_concat] at h
    rcases mem_entries_of_index_add h with hnew | hold
    · obtain ⟨hknown, rfl, spec, hspec, hkey⟩ := entry_of_pack hnew
      rw [specKey_ofPacks] at hkey
      exact ⟨hknown, ⟨p, if_pos rfl⟩, spec, ⟨p, by simp, hspec⟩, hkey⟩
    · obtain ⟨hknown, ⟨last, hlast⟩, spec, ⟨p', hp', hspec⟩, hkey⟩ := ih hold
      refine ⟨hknown, ?_, spec, ⟨p', List.mem_append_left _ hp', hspec⟩, hkey⟩
      -- a pack added later is of another language, or is the last one of this
      by_cases hlang : lang = p.code
      · exact ⟨p, if_pos hlang⟩
      · exact ⟨last, by rw [if_neg hlang, hlast]⟩

/-! ## Drawing blocks with an image -/

/-- A vocabulary in which every block with an image can be drawn in the language in which it is found. -/
def Drawable (v : Vocabulary) : Prop :=
  ∀ key id lang, Dictionary.get? key v.index = some (id, lang) → hasImage id = true →
    v.specIn? lang id ≠ none

/-- In a `Drawable` vocabulary no lookup fails. -/
theorem Drawable.exists_find? {v : Vocabulary} (h : v.Drawable) (spec : Text) (args : List Text) :
    ∃ found, v.find? spec args = .ok found := by
  cases hfind : v.find? spec args with
  | ok found => exact ⟨found, rfl⟩
  | error e =>
    obtain ⟨lang, hindex, himage, hspec⟩ := find?_eq_error_iff.1 hfind
    exact absurd hspec (h _ _ _ hindex himage)

/-- No lookup in a vocabulary of packs fails just if it is `Drawable`. -/
theorem drawable_iff (folded : Bool) (ps : List Pack) :
    (ofPacks folded ps).Drawable ↔
      ∀ spec args, ∃ found, (ofPacks folded ps).find? spec args = .ok found := by
  constructor
  · exact Drawable.exists_find?
  · intro h key id lang hindex himage hnone
    -- the key is that of a spec with padding
    obtain ⟨-, -, spec, -, rfl⟩ := index_ofPacks hindex
    obtain ⟨found, hfind⟩ := h (Text.padSlots spec) []
    have herror : (ofPacks folded ps).find? (Text.padSlots spec) [] = .error ⟨id⟩ :=
      find?_eq_error_iff.2 ⟨lang, hindex, himage, hnone⟩
    rw [hfind] at herror
    cases herror

end Vocabulary

/-! ## Loads and resets -/

namespace Lexicon

/-- What can be done to a lexicon. -/
inductive Step where
  | load (value : Json)
  | reset

/-- Make a step. A pack that is refused changes nothing. -/
def step (l : Lexicon) : Step → Lexicon
  | .load value =>
    match l.load value with
    | .ok (_, l') => l'
    | .error _ => l
  | .reset => l.reset

/-- Make steps one after the other, from English alone. -/
def run (folded : Bool) (steps : List Step) : Lexicon := steps.foldl step (english folded)

/-- The packs after a step: those before it and one more if it is valid, or English alone. -/
def Step.packs (ps : List Pack) : Step → List Pack
  | .load value =>
    match Pack.ofJson value with
    | .ok p => ps ++ [p]
    | .error _ => ps
  | .reset => [englishPack]

/-- The packs that a lexicon is made of after some steps. -/
def packs (steps : List Step) : List Pack := steps.foldl Step.packs [englishPack]

/-- The English vocabulary is `ofPacks` for the one pack. -/
theorem english_eq_ofPacks (folded : Bool) :
    Vocabulary.english folded = Vocabulary.ofPacks folded [englishPack] := by
  cases folded <;> rfl

/-- A `step` does to the vocabulary what `Step.packs` does to the packs. -/
theorem step_ofPacks {folded : Bool} {l : Lexicon} {ps : List Pack}
    (hinitial : l.initial = Vocabulary.english folded)
    (hcurrent : l.current = Vocabulary.ofPacks folded ps) (s : Step) :
    (l.step s).initial = Vocabulary.english folded ∧
      (l.step s).current = Vocabulary.ofPacks folded (s.packs ps) := by
  cases s with
  | reset => exact ⟨hinitial, by rw [step, reset, hinitial, english_eq_ofPacks, Step.packs]⟩
  | load value =>
    cases hpack : Pack.ofJson value with
    | error e => simp [step, load, hpack, Step.packs, hinitial, hcurrent]
    | ok p => simp [step, load, hpack, Step.packs, add, hinitial, hcurrent]

/-- After a `run` of any steps the vocabulary is that of the `packs`. -/
theorem run_current (folded : Bool) (steps : List Step) :
    (run folded steps).current = Vocabulary.ofPacks folded (packs steps) := by
  suffices h : (run folded steps).initial = Vocabulary.english folded ∧
      (run folded steps).current = Vocabulary.ofPacks folded (packs steps) from h.2
  induction steps using List.reverseRecOn with
  | nil => exact ⟨rfl, english_eq_ofPacks folded⟩
  | append_singleton steps s ih =>
    have hstep := step_ofPacks ih.1 ih.2 s
    simpa [run, packs] using hstep

/-- After any `run` of loads and resets, every entry of the `index` is that of a known block in a language
    that has been loaded. `find?` fails just for the spec of a block with an image that is not among the
    blocks of the `lastPack?` of the language; so no lookup fails just if the last pack of each language has
    all the blocks with an image that the index has in this language. -/
theorem lookup_fails_iff (folded : Bool) (steps : List Step) :
    (∀ key id lang, Dictionary.get? key (run folded steps).current.index = some (id, lang) →
        isKnown id = true ∧ ∃ p, Dictionary.get? lang (run folded steps).current.languages = some p) ∧
      (∀ spec args e, (run folded steps).current.find? spec args = .error e ↔
        ∃ lang, Dictionary.get? ((run folded steps).current.key spec)
            (run folded steps).current.index = some (e.id, lang) ∧ hasImage e.id = true ∧
          ∀ p, Vocabulary.lastPack? lang (packs steps) = some p →
            Dictionary.get? e.id p.blocks = none) ∧
      ((∀ spec args, ∃ found, (run folded steps).current.find? spec args = .ok found) ↔
        ∀ key id lang, Dictionary.get? key (run folded steps).current.index = some (id, lang) →
          hasImage id = true → ∃ p, Vocabulary.lastPack? lang (packs steps) = some p ∧
            Dictionary.get? id p.blocks ≠ none) := by
  -- the state is that of the packs loaded since the last reset, and each part is about these
  rw [run_current]
  refine ⟨?_, ?_, ?_⟩
  · intro key id lang hindex
    obtain ⟨hknown, ⟨p, hlast⟩, -⟩ := Vocabulary.index_ofPacks hindex
    refine ⟨hknown, { p with blocks := Vocabulary.knownSpecs p }, ?_⟩
    rw [Vocabulary.get?_languages_ofPacks, hlast]
    rfl
  · intro spec args e
    rw [Vocabulary.find?_eq_error_iff]
    refine exists_congr fun lang => and_congr_right fun _ => and_congr_right fun himage => ?_
    rw [Vocabulary.specIn?_ofPacks (isKnown_of_hasImage himage)]
    simp
  · rw [← Vocabulary.drawable_iff]
    refine forall_congr' fun key => forall_congr' fun id => forall_congr' fun lang =>
      imp_congr_right fun _ => imp_congr_right fun himage => ?_
    rw [Vocabulary.specIn?_ofPacks (isKnown_of_hasImage himage)]
    cases Vocabulary.lastPack? lang (packs steps) with
    | none => simp
    | some p => simp

/-- A pack of which the one block has an image. -/
def startingPack : Pack where
  code := "xx".toList
  blocks := [("when @green-flag clicked".toList, "start @green-flag".toList)]

/-- A pack of the same language without any block. -/
def wordlessPack : Pack where
  code := "xx".toList
  blocks := []

/-- A spec of a block with an image outlives the pack that it came with, and looking for it fails. -/
theorem lookup_fails_after_reload :
    (run true [.load startingPack.toJson, .load wordlessPack.toJson]).current.find?
        "start @".toList [] = .error ⟨"when @green-flag clicked".toList⟩ := by
  -- a second load of a language keeps the entries of the first one
  have hpacks : packs [.load startingPack.toJson, .load wordlessPack.toJson] =
      [englishPack] ++ [startingPack] ++ [wordlessPack] := by
    have hstarting := Pack.ofJson_toJson (p := startingPack) (by decide)
    have hwordless := Pack.ofJson_toJson (p := wordlessPack) (by decide)
    simp only [packs, List.foldl_cons, List.foldl_nil, Step.packs, hstarting, hwordless]
  have hknown : isKnown "when @green-flag clicked".toList = true := by
    have hgroup : (Category.events, eventsEntries) ∈ palette := by simp [palette]
    have hentry : Entry.hat "when @green-flag clicked" ∈ eventsEntries := by simp [eventsEntries]
    obtain ⟨a, ha⟩ := knownBlock?_of_mem_palette hgroup hentry
    exact Option.isSome_iff_exists.2 ⟨a, ha⟩
  have himage : hasImage "when @green-flag clicked".toList = true := by
    rw [hasImage_of_isKnown hknown]
    decide
  rw [run_current, hpacks, Vocabulary.find?_eq_error_iff]
  refine ⟨"xx".toList, ?_, himage, ?_⟩
  · -- the last pack makes no entries, and the one before it just this
    have hentries : ∀ v : Vocabulary, v.aliasEntries wordlessPack = [] ∧
        v.specEntries wordlessPack = [] ∧ v.aliasEntries startingPack = [] := by
      intro v
      exact ⟨rfl, rfl, rfl⟩
    have hkey : (Vocabulary.ofPacks true [englishPack]).specKey
        (withoutImageName "start @green-flag".toList) = Text.key true "start @".toList := by
      rw [Vocabulary.specKey, Vocabulary.key, Vocabulary.ofPacks_folded]
      rfl
    have hfilled : Text.key true "start @".toList ≠ [] := by decide +kernel
    have hentry := Vocabulary.specEntries_singleton (p := startingPack) rfl hknown
      (by rw [hkey]; exact hfilled)
    rw [hkey] at hentry
    rw [Vocabulary.ofPacks_concat, Vocabulary.get?_index_add, Vocabulary.ofPacks_concat,
      Vocabulary.get?_index_add, (hentries _).1, (hentries _).2.1, (hentries _).2.2, hentry]
    rfl
  · rw [Vocabulary.specIn?_ofPacks hknown]
    rfl

end Lexicon

end BlockScript
