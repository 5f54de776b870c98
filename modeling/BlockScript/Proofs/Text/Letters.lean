import BlockScript.Proofs.Text.Key
import BlockScript.Proofs.Text.LowerCase

/-!
# The letters of an ASCII text

The key of an ASCII text has the letters and the signs of the text, in the same order. So texts with
other letters have other keys, however they are spaced. The letters are given by numbers, with which it
is quick to compare many texts.

## Key results

- `letterCodes_key`: the key of an ASCII text has its letters
- `ascii_key`: the key of an ASCII text is an ASCII text
-/

namespace BlockScript.Text

/-- Whether a text is in ASCII. -/
def isAscii (t : Text) : Bool := t.all fun c => c.toNat < 0x80

/-- `isAscii` looks at each character. -/
theorem isAscii_iff {t : Text} : isAscii t = true ↔ ∀ c ∈ t, c.toNat < 0x80 := by
  simp [isAscii]

/-- The number of a letter, which is that of the small one, or of a sign. Blanks have none, and the
    punctuation that keys leave out has none. -/
def letterCode? (c : Char) : Option Nat :=
  let n := c.toNat
  if n ≤ 0x20 ∨ n = 0x25 ∨ n = 0x2c ∨ n = 0x2e ∨ n = 0x3a ∨ n = 0x3f then none
  else if 0x41 ≤ n ∧ n ≤ 0x5a then some (n + 0x20)
  else some n

/-- The numbers of the letters of a text. -/
def letterCodes (t : Text) : List Nat := t.filterMap letterCode?

/-- Punctuation that keys leave out has no number. -/
private theorem letterCode?_of_isSilent {c : Char} (hc : c.toNat < 0x80) :
    isSilent c = true → letterCode? c = none :=
  forall_ascii (p := fun c => isSilent c = true → letterCode? c = none) (by decide +kernel) hc

/-- Blanks have no number. -/
private theorem letterCode?_of_isBlank {c : Char} (hc : c.toNat < 0x80) :
    isBlank c = true → letterCode? c = none :=
  forall_ascii (p := fun c => isBlank c = true → letterCode? c = none) (by decide +kernel) hc

/-- A letter has the number of the small one. -/
private theorem letterCode?_toLower {c : Char} (hc : c.toNat < 0x80) :
    c.toLower.toNat < 0x80 ∧ letterCode? c.toLower = letterCode? c :=
  forall_ascii (p := fun c => c.toLower.toNat < 0x80 ∧ letterCode? c.toLower = letterCode? c)
    (by decide +kernel) hc

/-- Spaces and tabs have no number. -/
private theorem letterCode?_of_isGap {c : Char} (h : isGap c = true) : letterCode? c = none := by
  simp only [isGap, Bool.or_eq_true, beq_iff_eq] at h
  rcases h with rfl | rfl <;> decide

/-! ## One pass after the other -/

/-- What is read off the characters of a text is not changed by `squeezeAfter` if nothing is read off spaces
    and tabs. -/
theorem filterMap_squeezeAfter {α : Type} {f : Char → Option α} (h : ∀ c, isGap c = true → f c = none)
    (afterGap : Bool) (t : Text) : (squeezeAfter afterGap t).filterMap f = t.filterMap f := by
  induction t generalizing afterGap with
  | nil => rfl
  | cons c rest ih =>
    rw [squeezeAfter]
    split
    · rename_i hgap
      rw [List.filterMap_cons_none (h c hgap)]
      split
      · exact ih true
      · rw [List.filterMap_cons_none (h ' ' rfl), ih true]
    · rw [List.filterMap_cons, List.filterMap_cons, ih false]

/-- Neither is it changed by `trim` if nothing is read off blanks. -/
theorem filterMap_trim {α : Type} {f : Char → Option α} {t : Text}
    (h : ∀ c ∈ t, isBlank c = true → f c = none) : (trim t).filterMap f = t.filterMap f := by
  obtain ⟨lead, trail, ht, hlead, htrail⟩ := exists_eq_trim t
  have hlead' : lead.filterMap f = [] :=
    List.filterMap_eq_nil_iff.2 fun c hc => h c (by rw [ht]; simp [hc]) (hlead c hc)
  have htrail' : trail.filterMap f = [] :=
    List.filterMap_eq_nil_iff.2 fun c hc => h c (by rw [ht]; simp [hc]) (htrail c hc)
  conv_rhs => rw [ht, List.filterMap_append, List.filterMap_append, hlead', htrail', List.nil_append,
    List.append_nil]

/-- So `squeezeAfter` keeps the letters. -/
private theorem letterCodes_squeezeAfter (afterGap : Bool) (t : Text) :
    letterCodes (squeezeAfter afterGap t) = letterCodes t :=
  filterMap_squeezeAfter (fun _ => letterCode?_of_isGap) afterGap t

/-- `squeezeAfter` brings in no character but a space. -/
theorem mem_squeezeAfter_imp {afterGap : Bool} {t : Text} {c : Char} (h : c ∈ squeezeAfter afterGap t) :
    c ∈ t ∨ c = ' ' := by
  induction t generalizing afterGap with
  | nil => cases h
  | cons d rest ih =>
    have hrest : ∀ {afterGap}, c ∈ squeezeAfter afterGap rest → c ∈ d :: rest ∨ c = ' ' :=
      fun hc => (ih hc).imp_left (List.mem_cons_of_mem d)
    rw [squeezeAfter] at h
    -- the first blank of a gap becomes a space, and the others are left out
    split at h
    · split at h
      · exact hrest h
      · rcases List.mem_cons.1 h with rfl | h
        · exact .inr rfl
        · exact hrest h
    · rcases List.mem_cons.1 h with rfl | h
      · exact .inl List.mem_cons_self
      · exact hrest h

/-- Spaces that are put in are no letters. -/
private theorem Spaced.letterCodes_eq {t u : Text} (h : Spaced t u) : letterCodes u = letterCodes t := by
  unfold letterCodes
  induction h with
  | nil => rfl
  | keep c _ ih => rw [List.filterMap_cons, List.filterMap_cons, ih]
  | space _ ih => rw [List.filterMap_cons_none (by decide), ih]

/-- So `padSlots` keeps the letters. -/
theorem letterCodes_padSlots (t : Text) : letterCodes (padSlots t) = letterCodes t :=
  (spaced_padAfter _).letterCodes_eq.trans (spaced_padBefore ' ' t).letterCodes_eq

/-- A text in ASCII with spaces put in is one in ASCII. -/
theorem Spaced.ascii {t u : Text} (h : Spaced t u) (ht : ∀ c ∈ t, c.toNat < 0x80) :
    ∀ c ∈ u, c.toNat < 0x80 := by
  induction h with
  | nil => exact ht
  | keep c _ ih =>
    obtain ⟨hc, ht⟩ := List.forall_mem_cons.1 ht
    exact List.forall_mem_cons.2 ⟨hc, ih ht⟩
  | space _ ih => exact List.forall_mem_cons.2 ⟨by decide, ih ht⟩

/-- So `padSlots` makes no character that is not ASCII. -/
theorem ascii_padSlots {t : Text} (h : ∀ c ∈ t, c.toNat < 0x80) : ∀ c ∈ padSlots t, c.toNat < 0x80 :=
  (spaced_padAfter _).ascii ((spaced_padBefore ' ' t).ascii h)

section Ascii

variable {t : Text} (h : ∀ c ∈ t, c.toNat < 0x80)

include h

/-- To leave out punctuation leaves out no letters. -/
private theorem letterCodes_filter : letterCodes (t.filter fun c => !isSilent c) = letterCodes t := by
  unfold letterCodes
  induction t with
  | nil => rfl
  | cons c rest ih =>
    obtain ⟨hc, hrest⟩ := List.forall_mem_cons.1 h
    cases hsilent : isSilent c with
    | true =>
      rw [List.filter_cons_of_neg (by simp [hsilent]), ih hrest,
        List.filterMap_cons_none (letterCode?_of_isSilent hc hsilent)]
    | false =>
      rw [List.filter_cons_of_pos (by simp [hsilent]), List.filterMap_cons, List.filterMap_cons, ih hrest]

/-- In ASCII `lower` goes character by character. -/
theorem lower_of_ascii : lower t = t.map Char.toLower := by
  -- the one letter that looks at its neighbours is not there
  have hsigma : 'Σ' ∉ t := fun hmem => absurd (h _ hmem) (by decide)
  rw [lower, lowerFrom_eq_flatMap [] t hsigma]
  induction t with
  | nil => rfl
  | cons c rest ih =>
    obtain ⟨hc, hrest⟩ := List.forall_mem_cons.1 h
    rw [List.flatMap_cons, ih hrest fun hmem => hsigma (List.mem_cons_of_mem _ hmem), lowerChar,
      if_pos hc]
    rfl

/-- `lower` keeps the letters. -/
private theorem letterCodes_lower : letterCodes (lower t) = letterCodes t := by
  rw [lower_of_ascii h, letterCodes, letterCodes, List.filterMap_map]
  exact List.filterMap_congr fun c hc => (letterCode?_toLower (h c hc)).2

/-- So does `trim`. -/
private theorem letterCodes_trim : letterCodes (trim t) = letterCodes t :=
  filterMap_trim fun c hc => letterCode?_of_isBlank (h c hc)

/-! ## Keys of ASCII texts -/

/-- What is trimmed on the way to the `key` of an ASCII text is one itself. -/
private theorem ascii_squeezed : ∀ c ∈ squeeze (lower (t.filter fun c => !isSilent c)), c.toNat < 0x80 := by
  have hfilter : ∀ c ∈ t.filter fun c => !isSilent c, c.toNat < 0x80 :=
    fun c hc => h c (List.mem_filter.1 hc).1
  intro c hc
  rcases mem_squeezeAfter_imp hc with hc | rfl
  · rw [lower_of_ascii hfilter] at hc
    obtain ⟨d, hd, rfl⟩ := List.mem_map.1 hc
    exact (letterCode?_toLower (hfilter d hd)).1
  · decide

/-- The `plainKey` of an ASCII text is an ASCII text. -/
private theorem ascii_plainKey : ∀ c ∈ plainKey t, c.toNat < 0x80 := by
  intro c hc
  obtain ⟨lead, trail, ht, -⟩ := exists_eq_trim (squeeze (lower (t.filter fun c => !isSilent c)))
  refine ascii_squeezed h c ?_
  rw [ht]
  exact List.mem_append_left _ (List.mem_append_right _ hc)

/-- Marks play no part in the `bareKey` of an ASCII text. -/
private theorem bareKey_of_ascii (folded : Bool) : bareKey folded t = plainKey t := by
  cases folded with
  | false => rfl
  | true => exact fold_eq_self_of_ascii _ (ascii_plainKey h)

/-- The `key` of an ASCII text is an ASCII text. -/
theorem ascii_key (folded : Bool) : ∀ c ∈ key folded t, c.toNat < 0x80 := by
  unfold key
  dsimp only
  split
  · exact isAscii_iff.1 (by decide)
  · rw [bareKey_of_ascii h]
    exact ascii_plainKey h

/-- The `key` of an ASCII text has its letters and signs, in the same order. -/
theorem letterCodes_key (folded : Bool) : letterCodes (key folded t) = letterCodes t := by
  have hfilter : ∀ c ∈ t.filter fun c => !isSilent c, c.toNat < 0x80 :=
    fun c hc => h c (List.mem_filter.1 hc).1
  have hplain : letterCodes (plainKey t) = letterCodes t := by
    rw [plainKey, letterCodes_trim (ascii_squeezed h), squeeze, letterCodes_squeezeAfter,
      letterCodes_lower hfilter, letterCodes_filter h]
  unfold key
  dsimp only
  split
  · -- the ellipsis is the key of a text without letters
    rename_i hdots
    rw [← hplain, ← bareKey_of_ascii h folded, hdots.1]
    decide
  · rw [bareKey_of_ascii h, hplain]

end Ascii

end BlockScript.Text
