import BlockScript.Vocabulary.Basic

/-!
# Blocks that are found

The attributes of a block that is found in a vocabulary come from the palette. Its arguments may change
its category and its shape, and its language is added to it.

## Key results

- `Vocabulary.find?_eq_ok`: where a block that is found comes from
- `Vocabulary.find?_attrs`: what is known of its attributes
-/

namespace BlockScript

/-! ## The palette -/

/-- A known block is listed in the `palette` under its name. -/
theorem exists_entry_of_knownBlock? {id : Text} {a : Attrs} (h : knownBlock? id = some a) :
    ∃ group ∈ palette, ∃ e ∈ group.2, e.spec = id ∧ a = e.attrs group.1 := by
  have hmem := Dictionary.mem_of_get?_ofList h
  simp only [List.mem_flatMap, List.mem_map, Prod.mk.injEq] at hmem
  obtain ⟨group, hgroup, e, he, hspec, hattrs⟩ := hmem
  exact ⟨group, hgroup, e, he, hspec, hattrs.symm⟩

/-- A block of the `palette` is known. -/
theorem knownBlock?_of_mem_palette {group : Category × List Entry} {e : Entry}
    (hgroup : group ∈ palette) (he : e ∈ group.2) : ∃ a, knownBlock? e.spec = some a := by
  rw [← Option.ne_none_iff_exists', knownBlock?, knownBlocks]
  refine Dictionary.get?_putAll_ne_none (.inl ?_)
  simp only [List.mem_map, List.mem_flatMap]
  exact ⟨_, ⟨group, hgroup, e, he, rfl⟩, rfl⟩

/-- No block of the `palette` has the name that comments have. -/
private theorem palette_spec_ne_slashes : ∀ group ∈ palette, ∀ e ∈ group.2, e.spec ≠ "//".toList := by
  decide +kernel

/-- A block of the `palette` that has a shape wherever it stands starts a script or ends one. -/
private theorem palette_shape : ∀ group ∈ palette, ∀ e ∈ group.2, ∀ shape, e.shape = some shape →
    shape = .hat ∨ shape = .cap := by
  have hall : palette.all (fun group => group.2.all fun e =>
      e.shape.all fun shape => shape == .hat || shape == .cap) = true := by
    decide +kernel
  intro group hgroup e he shape hshape
  have hentry := List.all_eq_true.1 (List.all_eq_true.1 hall group hgroup) e he
  simpa [hshape] using hentry

/-- Only one block of the `palette` closes C blocks. -/
theorem palette_closing :
    ∀ group ∈ palette, ∀ e ∈ group.2, e.flag = some .cEnd → e.spec = "end".toList := by
  have hall : palette.all (fun group => group.2.all fun e =>
      e.flag != some .cEnd || e.spec == "end".toList) = true := by
    decide +kernel
  intro group hgroup e he hflag
  simpa [hflag] using List.all_eq_true.1 (List.all_eq_true.1 hall group hgroup) e he

/-- The categories of the `palette` are those that have a meaning. -/
private theorem palette_category : ∀ group ∈ palette, group.1 ∈ Category.standard := by
  simp [palette, Category.standard]

/-- A flag of a block of the `palette` tells its part in C blocks. -/
private theorem palette_flag : ∀ group ∈ palette, ∀ e ∈ group.2, ∀ flag, e.flag = some flag →
    flag = .cStart ∨ flag = .cElse ∨ flag = .cEnd := by
  have hall : palette.all (fun group => group.2.all fun e =>
      e.flag.all fun flag => flag == .cStart || flag == .cElse || flag == .cEnd) = true := by
    decide +kernel
  intro group hgroup e he flag hflag
  have hentry := List.all_eq_true.1 (List.all_eq_true.1 hall group hgroup) e he
  simpa [hflag, or_assoc] using hentry

/-- The attributes of a `knownBlock?` say its name, and nothing of comments and of what has to be resolved. -/
theorem knownBlock?_attrs {id : Text} {a : Attrs} (h : knownBlock? id = some a) :
    a.id = some id ∧ id ≠ "//".toList ∧ a.namedAs = none ∧ a.calledAs = none := by
  obtain ⟨group, hgroup, e, he, rfl, rfl⟩ := exists_entry_of_knownBlock? h
  exact ⟨rfl, palette_spec_ne_slashes group hgroup e he, rfl, rfl⟩

/-- Whether a block has an image. -/
def hasImage (id : Text) : Bool := ((knownBlock? id).getD {}).image.isSome

/-- A known block has an image if there is an `imageName?` in its name. -/
theorem hasImage_of_isKnown {id : Text} (h : isKnown id = true) :
    hasImage id = (imageName? id).isSome := by
  obtain ⟨a, ha⟩ := Option.isSome_iff_exists.1 h
  obtain ⟨group, -, e, -, rfl, rfl⟩ := exists_entry_of_knownBlock? ha
  rw [hasImage, ha]
  rfl

/-- A block with an image `isKnown`. -/
theorem isKnown_of_hasImage {id : Text} (h : hasImage id = true) : isKnown id = true := by
  cases hid : knownBlock? id with
  | none => simp [hasImage, hid] at h
  | some a => simp [isKnown, hid]

namespace Vocabulary

/-! ## Finding a block -/

/-- Arguments change nothing but the category and the `shape` of a block. -/
theorem refine_eq (v : Vocabulary) (args : List Text) (a : Attrs) :
    v.refine args a =
      { a with category := (v.refine args a).category, shape := (v.refine args a).shape } := by
  unfold refine
  split
  · rfl
  · split
    · rfl
    · split
      · rfl
      · split <;> rfl

/-- But for three blocks `refine` changes nothing at all. -/
theorem refine_eq_self (v : Vocabulary) (args : List Text) {a : Attrs} (hof : a.id ≠ some "_ of _".toList)
    (hlength : a.id ≠ some "length of _".toList) (hstop : a.id ≠ some "stop _".toList) :
    v.refine args a = a := by
  unfold refine
  split
  · rfl
  · rw [if_neg hof, if_neg hlength, if_neg hstop]

/-- `refine` can make a block one that ends a script, and gives it no other shape. -/
theorem refine_shape (v : Vocabulary) (args : List Text) {a : Attrs} {shape : Shape}
    (h : (v.refine args a).shape = some shape) : a.shape = some shape ∨ shape = .cap := by
  unfold refine at h
  split at h
  · exact .inl h
  · split at h
    · exact .inl h
    · split at h
      · exact .inl h
      · split at h
        · -- the scripts that stop others end a script, or have no shape
          dsimp only at h
          split at h
          · cases h
          · exact .inr (Option.some.inj h).symm
        · exact .inl h

/-- `refine` can move a block to three categories. -/
theorem refine_category (v : Vocabulary) (args : List Text) (a : Attrs) :
    (v.refine args a).category = a.category ∨
      ∃ c ∈ [Category.operators, .sensing, .list], (v.refine args a).category = some c := by
  unfold refine
  split
  · -- nothing is refined without a slot for it
    exact .inl rfl
  · split
    · right
      dsimp only
      split
      · exact ⟨_, by simp, rfl⟩
      · exact ⟨_, by simp, rfl⟩
    · split
      · right
        dsimp only
        split
        · exact ⟨_, by simp, rfl⟩
        · exact ⟨_, by simp, rfl⟩
      · split
        · exact .inl rfl
        · exact .inl rfl

/-- A block that is found is one of the `index`. Its attributes are those of the palette in view of its
    arguments, and it is drawn as it was written unless it has an image. -/
theorem find?_eq_ok {v : Vocabulary} {spec : Text} {args : List Text} {f : Found}
    (h : v.find? spec args = .ok (some f)) :
    ∃ id lang, Dictionary.get? (v.key spec) v.index = some (id, lang) ∧
      f.attrs = v.refine args { (knownBlock? id).getD {} with lang := some lang } ∧
      (((knownBlock? id).getD {}).image = none → f.text = drawnText spec) := by
  unfold find? at h
  -- which blocks are known plays no part, and the palette is not to be evaluated
  obtain ⟨known?, hknown⟩ : ∃ known?, known? = knownBlock? := ⟨_, rfl⟩
  rw [← hknown] at h ⊢
  split at h
  · cases h
  · rename_i id lang hindex
    refine ⟨id, lang, hindex, ?_⟩
    dsimp only at h
    split at h
    · cases h
      exact ⟨rfl, fun _ => rfl⟩
    · -- whether the block has an image decides how it is drawn, not what it is
      rename_i himage
      split at h
      · cases h
        exact ⟨rfl, fun hnone => absurd himage (by simp [hnone])⟩
      · cases h

/-- Looking for a spec fails just if it is that of a block with an image, and the language in which it
    stands in the `index` has no spec for this block. -/
theorem find?_eq_error_iff {v : Vocabulary} {spec : Text} {args : List Text} {e : MissingSpec} :
    v.find? spec args = .error e ↔
      ∃ lang, Dictionary.get? (v.key spec) v.index = some (e.id, lang) ∧ hasImage e.id = true ∧
        v.specIn? lang e.id = none := by
  obtain ⟨id⟩ := e
  unfold find? hasImage
  -- which blocks are known plays no part, and the palette is not to be evaluated
  obtain ⟨known?, hknown⟩ : ∃ known?, known? = knownBlock? := ⟨_, rfl⟩
  rw [← hknown]
  cases hindex : Dictionary.get? (v.key spec) v.index with
  -- without an entry nothing is looked for in a language
  | none => simp
  | some entry =>
    obtain ⟨id', lang⟩ := entry
    cases himage : ((known? id').getD {}).image with
    | none =>
      simp only [himage, reduceCtorEq, false_iff]
      rintro ⟨lang', hentry, hhas, -⟩
      cases hentry
      simp [himage] at hhas
    | some image =>
      cases hspec : v.specIn? lang id' with
      -- with a spec in the language the block can be drawn
      | some text =>
        simp only [himage, hspec, reduceCtorEq, false_iff]
        rintro ⟨lang', hentry, -, hnone⟩
        cases hentry
        simp [hspec] at hnone
      | none =>
        simp only [himage, hspec, Except.error.injEq, MissingSpec.mk.injEq]
        constructor
        · rintro rfl
          exact ⟨lang, rfl, by simp [himage], hspec⟩
        · rintro ⟨lang', hentry, -, -⟩
          cases hentry
          rfl

/-- Nothing is found just if the `index` has nothing under the `key`. -/
theorem find?_eq_none_iff {v : Vocabulary} {spec : Text} {args : List Text} :
    v.find? spec args = .ok none ↔ Dictionary.get? (v.key spec) v.index = none := by
  unfold find?
  -- which blocks are known plays no part, and the palette is not to be evaluated
  obtain ⟨known?, hknown⟩ : ∃ known?, known? = knownBlock? := ⟨_, rfl⟩
  rw [← hknown]
  cases Dictionary.get? (v.key spec) v.index with
  | none => simp
  | some entry =>
    dsimp only
    split
    · simp
    · split <;> simp

/-- A block of the `index` that has no image is drawn as it was written. -/
theorem find?_of_index {v : Vocabulary} {spec id lang : Text}
    (h : Dictionary.get? (v.key spec) v.index = some (id, lang))
    (himage : ((knownBlock? id).getD {}).image = none) (args : List Text) :
    v.find? spec args = .ok (some
      ⟨v.refine args { (knownBlock? id).getD {} with lang := some lang }, drawnText spec⟩) := by
  unfold find?
  -- which blocks are known plays no part, and the palette is not to be evaluated
  obtain ⟨known?, hknown⟩ : ∃ known?, known? = knownBlock? := ⟨_, rfl⟩
  rw [← hknown] at himage ⊢
  simp [h, himage]

/-- A block with an image that `find?` finds is drawn as `specIn?` the language in which it is found. -/
theorem specIn?_of_hasImage {v : Vocabulary} {spec : Text} {args : List Text} {f : Found} {id lang : Text}
    (h : v.find? spec args = .ok (some f)) (hindex : Dictionary.get? (v.key spec) v.index = some (id, lang))
    (himage : hasImage id = true) : v.specIn? lang id = some f.text := by
  unfold find? at h
  unfold hasImage at himage
  -- which blocks are known plays no part, and the palette is not to be evaluated
  obtain ⟨known?, hknown⟩ : ∃ known?, known? = knownBlock? := ⟨_, rfl⟩
  rw [← hknown] at h himage
  simp only [hindex] at h
  split at h
  · rename_i hnone
    simp [hnone] at himage
  · split at h
    · rename_i text hspec
      cases h
      exact hspec
    · cases h

/-- The `drawnText` of a block has the slots of its spec. -/
theorem count_drawnText (spec : Text) : (drawnText spec).count '_' = spec.count '_' := by
  unfold drawnText
  split
  · rename_i hdots
    rcases hdots with rfl | rfl <;> decide
  · rfl

/-- A block that `find?` finds has a language, has not the name of comments, and needs no resolution. -/
theorem find?_attrs {v : Vocabulary} {spec : Text} {args : List Text} {f : Found}
    (h : v.find? spec args = .ok (some f)) :
    f.attrs.lang ≠ none ∧ f.attrs.id ≠ some "//".toList ∧ f.attrs.namedAs = none ∧
      f.attrs.calledAs = none := by
  obtain ⟨id, lang, -, hattrs, -⟩ := find?_eq_ok h
  rw [hattrs, refine_eq]
  -- a name that is not in the palette has no attributes but the language
  cases hid : knownBlock? id with
  | none => simp
  | some a =>
    obtain ⟨hname, hne, hnamed, hcalled⟩ := knownBlock?_attrs hid
    simp only [Option.getD_some, hname, hnamed, hcalled]
    simpa using hne

/-- A block that `find?` finds and that has a shape wherever it stands starts a script or ends one. -/
theorem find?_shape {v : Vocabulary} {spec : Text} {args : List Text} {f : Found} {shape : Shape}
    (h : v.find? spec args = .ok (some f)) (hshape : f.attrs.shape = some shape) :
    shape = .hat ∨ shape = .cap := by
  obtain ⟨id, lang, -, hattrs, -⟩ := find?_eq_ok h
  rw [hattrs] at hshape
  -- the shape comes from the palette, or an argument has made it a cap
  cases hid : knownBlock? id with
  | none =>
    rw [hid] at hshape
    obtain hknown | hcap := v.refine_shape args hshape
    · cases hknown
    · exact .inr hcap
  | some a =>
    obtain ⟨group, hgroup, e, he, -, rfl⟩ := exists_entry_of_knownBlock? hid
    rw [hid] at hshape
    obtain hknown | hcap := v.refine_shape args hshape
    · exact palette_shape group hgroup e he shape hknown
    · exact .inr hcap

/-- A block that `find?` finds has a flag only for its part in C blocks. -/
theorem find?_flag {v : Vocabulary} {spec : Text} {args : List Text} {f : Found} {flag : Flag}
    (h : v.find? spec args = .ok (some f)) (hflag : f.attrs.flag = some flag) :
    flag = .cStart ∨ flag = .cElse ∨ flag = .cEnd := by
  obtain ⟨id, lang, -, hattrs, -⟩ := find?_eq_ok h
  rw [hattrs, refine_eq] at hflag
  cases hid : knownBlock? id with
  | none =>
    rw [hid] at hflag
    cases hflag
  | some a =>
    obtain ⟨group, hgroup, e, he, -, rfl⟩ := exists_entry_of_knownBlock? hid
    rw [hid] at hflag
    exact palette_flag group hgroup e he flag hflag

/-- No ring is drawn around a block that `find?` finds. -/
theorem find?_ringed {v : Vocabulary} {spec : Text} {args : List Text} {f : Found}
    (h : v.find? spec args = .ok (some f)) : f.attrs.ringed = false := by
  obtain ⟨id, lang, -, hattrs, -⟩ := find?_eq_ok h
  rw [hattrs, refine_eq]
  cases hid : knownBlock? id with
  | none => rfl
  | some a =>
    obtain ⟨group, -, e, -, -, rfl⟩ := exists_entry_of_knownBlock? hid
    rfl

/-- A vocabulary of which the index names known blocks alone. -/
def NamesKnown (v : Vocabulary) : Prop :=
  ∀ key id lang, Dictionary.get? key v.index = some (id, lang) → isKnown id = true

/-- In such a vocabulary a block that is found is in a `category` that has a meaning. -/
theorem NamesKnown.find?_category {v : Vocabulary} (hv : v.NamesKnown) {spec : Text} {args : List Text}
    {f : Found} (h : v.find? spec args = .ok (some f)) :
    ∃ category ∈ Category.standard, f.attrs.category = some category := by
  obtain ⟨id, lang, hindex, hattrs, -⟩ := find?_eq_ok h
  obtain ⟨a, ha⟩ := Option.isSome_iff_exists.1 (hv _ _ _ hindex)
  obtain ⟨group, hgroup, e, -, -, rfl⟩ := exists_entry_of_knownBlock? ha
  rw [ha] at hattrs
  rw [hattrs]
  rcases v.refine_category args { e.attrs group.1 with lang := some lang } with
    hsame | ⟨c, hc, hcategory⟩
  · exact ⟨group.1, palette_category group hgroup, hsame⟩
  · refine ⟨c, ?_, hcategory⟩
    simp only [List.mem_cons, List.not_mem_nil, or_false] at hc
    rcases hc with rfl | rfl | rfl <;> simp [Category.standard]

end Vocabulary

end BlockScript
