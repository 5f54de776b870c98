import BlockScript.Proofs.Text.Letters
import BlockScript.Proofs.Text.Weave
import BlockScript.Proofs.Vocabulary.English
import BlockScript.Reading.Fragment

/-!
# The specs of the palette

The letters of its spec tell a block of the palette from all others, whatever spaces and punctuation there
are, and whatever is said of blocks with an image. So no entry of the English index is written over by one of
another block. What else has to be known of the specs is a condition on each of them, `IsOrdinary`. Both are
checked once for the whole palette.

## Key results

- `Vocabulary.eq_of_key_eq`: no other block has the key of a block without an image
- `Vocabulary.english_find?_spec`: a block without an image is found by its spec
- `Vocabulary.isOrdinary_of_mem_palette`: what the specs of the palette have in common
-/

namespace BlockScript

namespace Vocabulary

/-! ## Conditions on a spec -/

/-- The specs with a less-than sign. -/
def signSpecs : List Text := ["_ < _", "when distance < _"].map String.toList

/-- The specs without a letter that shows that they start no header. -/
def briefSpecs : List Text := ["end", "…", "..."].map String.toList

/-- The specs that are not in ASCII, with the names of their blocks. -/
def symbolSpecs : List (Text × Text) :=
  [("turn ↺ _ degrees", "turn @arrow-ccw _ degrees"), ("turn ↻ _ degrees", "turn @arrow-cw _ degrees"),
    ("when ⚑ clicked", "when @green-flag clicked"), ("…", "…")].map fun e => (e.1.toList, e.2.toList)

/-- The specs with an image. -/
def imageSpecs : List Text :=
  ["turn @arrow-ccw _ degrees", "turn @arrow-cw _ degrees", "when @green-flag clicked"].map String.toList

/-- What a spec must be so that the text of a block is read as it is written: it is more than slots, has no
    blanks at its ends, and starts no comment, no override, no argument and no header. -/
structure IsOrdinary (spec : Text) : Prop where
  filled : ∃ c ∈ spec, c ≠ '_'
  trimmed : Fragment.trimEnds (Text.runsOf spec) = Text.runsOf spec
  unslashed : ¬ "//".toList <:+: spec
  uncoloned : ¬ "::".toList <:+: spec
  bare : (∀ c ∈ spec, Bracket.ofOpener? c = none) ∨ spec ∈ signSpecs
  unheaded : (∃ c ∈ spec.take 6, Text.isKept c = true ∧ c ∉ "define".toList) ∨ spec ∈ briefSpecs

instance (spec : Text) : Decidable (IsOrdinary spec) :=
  decidable_of_iff
    (spec.any (· != '_') = true ∧ Fragment.trimEnds (Text.runsOf spec) = Text.runsOf spec ∧
      ¬ "//".toList <:+: spec ∧ ¬ "::".toList <:+: spec ∧
      (spec.all (fun c => (Bracket.ofOpener? c).isNone) = true ∨ spec ∈ signSpecs) ∧
      ((spec.take 6).any (fun c => Text.isKept c && !"define".toList.contains c) = true ∨ spec ∈ briefSpecs))
    (by
      simp only [List.any_eq_true, List.all_eq_true, bne_iff_ne, Option.isNone_iff_eq_none, Bool.and_eq_true,
        Bool.not_eq_true', List.contains_eq_mem, decide_eq_false_iff_not]
      exact ⟨fun ⟨h₁, h₂, h₃, h₄, h₅, h₆⟩ => ⟨h₁, h₂, h₃, h₄, h₅, h₆⟩,
        fun ⟨h₁, h₂, h₃, h₄, h₅, h₆⟩ => ⟨h₁, h₂, h₃, h₄, h₅, h₆⟩⟩)

/-! ## The letters of the specs -/

/-- The blocks with the specs by which they are found in English. Of a block that is found by an alias
    nothing but the name is given. -/
def spelledEntries : List (Text × Entry) :=
  (palette.flatMap fun group => group.2.map fun e => (withoutImageName e.spec, e)) ++
    englishPack.aliases.map fun e => (e.1, { spec := e.2 })

/-- The `englishSpecs` are the `spelledEntries` with the names of the blocks. -/
private theorem englishSpecs_eq : englishSpecs = spelledEntries.map fun e => (e.1, e.2.spec) := by
  simp [englishSpecs, spelledEntries, List.map_flatMap, Function.comp_def]

/-- The letters of a text as one number. Texts with the same letters have the same number, and numbers are
    quick to compare. -/
def lettersNumber (t : Text) : Nat := (Text.letterCodes t).foldl (fun n code => 0x80 * n + code) 0

/-- Whether no numbers of blocks without an image come twice, but for the same block. -/
def areTelling (rows : List (Nat × Entry)) : Bool :=
  rows.all fun row => row.2.spec.contains '@' || rows.all fun row' => row'.1 != row.1 || row'.2 == row.2

/-- What has been checked of the `palette`. It is one statement, for the texts in it are evaluated once then. -/
theorem palette_checked :
    areTelling (spelledEntries.map fun e => (lettersNumber e.1, e.2)) = true ∧
    (∀ e ∈ spelledEntries, Text.isAscii e.1 = true ∨ (e.1, e.2.spec) ∈ symbolSpecs) ∧
    (∀ group ∈ palette, ∀ e ∈ group.2,
      ('@' ∈ e.spec → e.spec ∈ imageSpecs) ∧ ('@' ∈ e.spec ∨ IsOrdinary e.spec)) := by
  decide +kernel

/-- The letters of its `spec` tell a block without an image from all others. -/
private theorem eq_of_letterCodes_eq {e e' : Text × Entry} (he : e ∈ spelledEntries)
    (he' : e' ∈ spelledEntries)
    (himage : '@' ∉ e.2.spec) (h : Text.letterCodes e'.1 = Text.letterCodes e.1) : e'.2 = e.2 := by
  have hnumber : lettersNumber e'.1 = lettersNumber e.1 := by
    rw [lettersNumber, lettersNumber, h]
  have hrow := List.all_eq_true.1 palette_checked.1 _ (List.mem_map_of_mem he)
  rw [Bool.or_eq_true, List.contains_iff_mem] at hrow
  have hrow' := List.all_eq_true.1 (hrow.resolve_left himage) _ (List.mem_map_of_mem he')
  simpa [hnumber] using hrow'

/-- Each block of the `palette` is among them. -/
theorem mem_spelledEntries {group : Category × List Entry} {e : Entry} (hgroup : group ∈ palette)
    (he : e ∈ group.2) : (withoutImageName e.spec, e) ∈ spelledEntries :=
  List.mem_append_left _ (List.mem_flatMap.2 ⟨group, hgroup, List.mem_map.2 ⟨e, he, rfl⟩⟩)

/-- A block without an image is listed in the `palette` in one way. -/
private theorem entry_eq_of_spec_eq {group group' : Category × List Entry} {e e' : Entry}
    (hgroup : group ∈ palette) (he : e ∈ group.2) (hgroup' : group' ∈ palette) (he' : e' ∈ group'.2)
    (himage : '@' ∉ e.spec) (h : e'.spec = e.spec) : e' = e :=
  eq_of_letterCodes_eq (mem_spelledEntries hgroup he) (mem_spelledEntries hgroup' he') himage
    (by rw [h])

/-- The specs of blocks without an image can be read as they are written. -/
theorem isOrdinary_of_mem_palette {group : Category × List Entry} {e : Entry} (hgroup : group ∈ palette)
    (he : e ∈ group.2) (himage : '@' ∉ e.spec) : IsOrdinary e.spec :=
  (palette_checked.2.2 group hgroup e he).2.resolve_left himage

/-- A spec without an at sign has no image. -/
theorem imageName?_eq_none {spec : Text} (h : '@' ∉ spec) : imageName? spec = none := by
  induction spec with
  | nil => rfl
  | cons c rest ih =>
    rw [List.mem_cons, not_or] at h
    rw [imageName?, if_neg fun hc => h.1 hc.1.symm, ih h.2]

/-- `withoutImageName` leaves a spec without an image as it is. -/
theorem withoutImageName_eq_self {spec : Text} (h : '@' ∉ spec) : withoutImageName spec = spec := by
  induction spec with
  | nil => rfl
  | cons c rest ih =>
    rw [List.mem_cons, not_or] at h
    rw [withoutImageName, if_neg fun hc => h.1 hc.1.symm, ih h.2]

/-! ## Keys -/

/-- A spec that is not in ASCII has a `key` that is not, and its own letter in it. -/
private theorem symbol_mem_key (folded : Bool) : ∀ e ∈ symbolSpecs,
    ∃ c ∈ Text.key folded (Text.padSlots e.1), 0x80 ≤ c.toNat ∧ (c = '…' → e.2 = "…".toList) := by
  have hletters : ∀ e ∈ symbolSpecs, ((Text.key folded (Text.padSlots e.1)).any fun c =>
      decide (0x80 ≤ c.toNat) && (c != '…' || e.2 == "…".toList)) = true := by
    cases folded <;> decide +kernel
  intro e he
  obtain ⟨c, hc, hsymbol⟩ := List.any_eq_true.1 (hletters e he)
  rw [Bool.and_eq_true, decide_eq_true_eq, Bool.or_eq_true, bne_iff_ne, beq_iff_eq] at hsymbol
  exact ⟨c, hc, hsymbol.1, fun hdots => hsymbol.2.resolve_left fun hne => hne hdots⟩

/-- Dots are their own `key`. -/
private theorem key_ellipsisSpec (folded : Bool) :
    Text.key folded (Text.padSlots "…".toList) = "…".toList := by
  cases folded <;> decide +kernel

/-- No other block of the English index has the `key` of a block without an image. -/
theorem eq_of_key_eq {folded : Bool} {group : Category × List Entry} {e : Entry}
    (hgroup : group ∈ palette) (he : e ∈ group.2) (himage : '@' ∉ e.spec) {e' : Text × Text}
    (he' : e' ∈ englishSpecs)
    (h : Text.key folded (Text.padSlots e'.1) = Text.key folded (Text.padSlots e.spec)) :
    e'.2 = e.spec := by
  have hself := mem_spelledEntries hgroup he
  rw [withoutImageName_eq_self himage] at hself
  rw [englishSpecs_eq] at he'
  obtain ⟨other, hother, rfl⟩ := List.mem_map.1 he'
  dsimp only at h ⊢
  -- specs are ASCII or one of the few with a symbol, and a key tells which
  rcases palette_checked.2.1 _ hself with hascii | hsymbol
  · have hascii := Text.ascii_padSlots (Text.isAscii_iff.1 hascii)
    rcases palette_checked.2.1 _ hother with hascii' | hsymbol'
    · -- keys that are the same have the same letters
      have hascii' := Text.ascii_padSlots (Text.isAscii_iff.1 hascii')
      have hletters := congrArg Text.letterCodes h
      rw [Text.letterCodes_key hascii', Text.letterCodes_key hascii, Text.letterCodes_padSlots,
        Text.letterCodes_padSlots] at hletters
      rw [eq_of_letterCodes_eq hself hother himage hletters]
    · obtain ⟨c, hc, hlarge, -⟩ := symbol_mem_key folded _ hsymbol'
      rw [h] at hc
      have hsmall := Text.ascii_key hascii folded c hc
      omega
  · -- the ellipsis is the only such block without an image
    have hellipsis : e.spec = "…".toList := by
      have hname : ∀ e ∈ symbolSpecs, '@' ∉ e.2 → e.1 = "…".toList := by decide +kernel
      exact hname _ hsymbol himage
    rw [hellipsis, key_ellipsisSpec] at h
    rcases palette_checked.2.1 _ hother with hascii' | hsymbol'
    · have hascii' := Text.ascii_padSlots (Text.isAscii_iff.1 hascii')
      have hsmall := Text.ascii_key hascii' folded '…' (by rw [h]; decide)
      exact absurd hsmall (by decide)
    · obtain ⟨c, hc, -, hname⟩ := symbol_mem_key folded _ hsymbol'
      rw [h] at hc
      rw [hellipsis]
      exact hname (List.mem_singleton.1 hc)

/-- The key of a spec that `IsOrdinary` is not empty. -/
private theorem key_ne_nil {folded : Bool} {spec : Text} (h : IsOrdinary spec) :
    Text.key folded (Text.padSlots spec) ≠ [] := by
  rcases h.unheaded with ⟨c, hc, hkept, -⟩ | hbrief
  · have hmem := Text.mem_padSlots_of_mem (List.mem_of_mem_take hc)
    exact List.ne_nil_of_mem (Text.mem_key_of_mem folded hkept hmem)
  · have hbriefs : ∀ spec ∈ briefSpecs, Text.key folded (Text.padSlots spec) ≠ [] := by
      cases folded <;> decide +kernel
    exact hbriefs spec hbrief

/-! ## Finding a block -/

/-- No argument gives another `shape` to a block, that which stops scripts aside. -/
private theorem refine_shape_of_ne (v : Vocabulary) (args : List Text) {a : Attrs}
    (h : a.id ≠ some "stop _".toList) : (v.refine args a).shape = a.shape := by
  unfold refine
  split
  · rfl
  · split
    · rfl
    · split
      · rfl
      · rfl

/-- What stops scripts ends a script, or has no `shape` of its own. -/
private theorem refine_shape_of_cap (v : Vocabulary) (args : List Text) {a : Attrs}
    (h : a.shape = some .cap) :
    (v.refine args a).shape = none ∨ (v.refine args a).shape = some .cap := by
  cases hshape : (v.refine args a).shape with
  | none => exact .inl rfl
  | some shape =>
    rcases v.refine_shape args hshape with hself | rfl
    · exact .inr (hself.symm.trans h)
    · exact .inr rfl

/-- A block of the `palette` without an image is found by every spec with the `key` of its own one, and is
    what it is there but for its arguments. -/
theorem english_find?_of_key_eq {folded : Bool} {group : Category × List Entry} {e : Entry}
    (hgroup : group ∈ palette) (he : e ∈ group.2) (himage : '@' ∉ e.spec) {spec : Text}
    (hspec : Text.key folded spec = Text.key folded (Text.padSlots e.spec)) (args : List Text) :
    ∃ group' ∈ palette, e ∈ group'.2 ∧ (english folded).find? spec args = .ok (some
      ⟨(english folded).refine args { e.attrs group'.1 with lang := some englishPack.code }, drawnText spec⟩) := by
  obtain ⟨a, ha⟩ := knownBlock?_of_mem_palette hgroup he
  obtain ⟨group', hgroup', e', he', hname, rfl⟩ := exists_entry_of_knownBlock? ha
  -- the same name can be listed in two groups, but then with the same entry
  obtain rfl := entry_eq_of_spec_eq hgroup he hgroup' he' himage hname
  have hindex : Dictionary.get? ((english folded).key spec) (english folded).index =
      some (e'.spec, englishPack.code) := by
    have hself := withoutImageName_eq_self himage
    have hkey : Text.key folded (Text.padSlots e'.spec) ≠ [] :=
      key_ne_nil (isOrdinary_of_mem_palette hgroup he himage)
    -- no other spec has the key, so the index leads to this block
    have honly : ∀ other ∈ englishSpecs, Text.key folded (Text.padSlots other.1) =
        Text.key folded (Text.padSlots e'.spec) → other.2 = e'.spec :=
      fun other hother => eq_of_key_eq hgroup he himage hother
    have hfound := @english_index_of_mem_palette folded _ _ hgroup he
    rw [hself] at hfound
    rw [key, english_folded, hspec]
    exact hfound hkey honly
  have hunpictured : ((knownBlock? e'.spec).getD {}).image = none := by
    rw [ha]
    exact imageName?_eq_none himage
  refine ⟨group', hgroup', he', ?_⟩
  rw [find?_of_index hindex hunpictured args, ha]
  rfl

/-- Found by its `spec` it has the `flag` of the `palette`, and the shape unless it stops scripts. -/
theorem english_find?_spec {folded : Bool} {group : Category × List Entry} {e : Entry}
    (hgroup : group ∈ palette) (he : e ∈ group.2) (himage : '@' ∉ e.spec) (args : List Text) :
    ∃ f, (english folded).find? (Text.padSlots e.spec) args = .ok (some f) ∧
      f.attrs.id = some e.spec ∧ f.attrs.flag = e.flag ∧ f.text = drawnText (Text.padSlots e.spec) ∧
      (e.spec ≠ "stop _".toList → f.attrs.shape = e.shape) ∧
      (e.spec = "stop _".toList → f.attrs.shape = none ∨ f.attrs.shape = some .cap) := by
  obtain ⟨group', -, -, hfind⟩ := @english_find?_of_key_eq folded _ _ hgroup he himage _ rfl args
  refine ⟨_, hfind, ?_, ?_, rfl, fun hne => ?_, fun hstop => ?_⟩
  · rw [refine_eq]
    rfl
  · rw [refine_eq]
    rfl
  · exact refine_shape_of_ne _ args fun hid => hne (Option.some.inj hid)
  · have hcontrol : (Category.control, controlEntries) ∈ palette := by simp [palette]
    have hstops : Entry.cap "stop _" ∈ controlEntries := by simp [controlEntries]
    -- only one block of this name is listed
    have hcap : e = Entry.cap "stop _" :=
      (entry_eq_of_spec_eq hgroup he hcontrol hstops himage hstop.symm).symm
    rw [hcap]
    exact refine_shape_of_cap _ args rfl

end Vocabulary

end BlockScript
