import BlockScript.Proofs.Text.LowerCase

/-!
# Base characters are settled

The base characters of a small letter are small letters without marks, and those of a blank are blanks, so
folding what has been lowered gives a text that lower-casing, folding and the removal of punctuation leave
alone. For the characters that are listed this is a matter of the table: each base in it is looked up in the
table of letters, in that of marks and in the table itself.

The table is checked by code points, and where a whole range of characters can be checked at once it is.

## Key results

- `isSettled_of_mem_fold`: what folding writes for a small character stays as it is
- `isBlank_of_mem_fold`, `exists_fold_of_isBlank`: blanks are folded to blanks, one for one, and no other
  character is folded to a blank
- `eq_of_mem_fold`: spaces, tabs and small sigmas are folded from themselves alone
-/

namespace BlockScript.Text

/-! ## The table, written out -/

/-- Runs of base characters, each run as a text. -/
def spellRuns (runs : List (Nat × String)) : List (Nat × Text) := runs.map fun run => (run.1, run.2.toList)

/-- What is so of the runs with the first one as a text is so of the runs as `spellRuns` writes them. -/
private theorem exists_spellRuns_cons {n : Nat} {t : Text} {runs : List (Nat × String)}
    {p : List (Nat × Text) → Prop} (h : ∃ table, spellRuns runs = table ∧ p ((n, t) :: table)) :
    ∃ table, spellRuns ((n, String.ofList t) :: runs) = table ∧ p table := by
  obtain ⟨table, htable, hp⟩ := h
  refine ⟨(n, t) :: table, ?_, hp⟩
  rw [← htable, spellRuns, List.map_cons, String.toList_ofList]
  rfl

/-- A base that `listedBase?` finds is one of those of a run. -/
private theorem mem_of_listedBase? {n : Nat} {base : Char} (h : listedBase? n = some base) :
    ∃ run ∈ spellRuns baseRuns, (base, n) ∈ run.2.zipIdx run.1 := by
  obtain ⟨run, hrun, hbase⟩ := List.exists_of_findSome?_eq_some h
  refine ⟨(run.1, run.2.toList), List.mem_map_of_mem hrun, ?_⟩
  rw [Option.ite_none_right_eq_some] at hbase
  exact List.mem_zipIdx_iff_le_and_getElem?_sub.2 ⟨hbase.1.1, hbase.2⟩

/-! ## The check -/

/-- Whether no range of a list meets the range from `low` to `high`. -/
def areApart (ranges : List (Nat × Nat)) (low high : Nat) : Bool :=
  ranges.all fun r => Nat.blt high r.1 || Nat.blt r.2 low

/-- Whether a code point is one of the letters of a run. -/
def CaseRun.covers (run : CaseRun) (n : Nat) : Bool :=
  Nat.ble run.first n && Nat.ble n run.last && Nat.beq ((n - run.first) % run.step) 0

/-- Ranges in which all capital letters beyond ASCII are. -/
def capitalRanges : List (Nat × Nat) :=
  [(0xc0, 0x24e), (0x370, 0x556), (0x10a0, 0x10cd), (0x13a0, 0x13f5), (0x1c90, 0x1cbf), (0x1e00, 0x1ffc),
   (0x2126, 0x2183), (0x24b6, 0x24cf), (0x2c00, 0x2cf2), (0xa640, 0xa69a), (0xa722, 0xa7f5), (0xff21, 0xff3a),
   (0x10400, 0x10427), (0x104b0, 0x104d3), (0x10570, 0x10595), (0x10c80, 0x10cb2), (0x118a0, 0x118bf),
   (0x16e40, 0x16e5f), (0x1e900, 0x1e921)]

/-- All letters of `caseRuns` are in `capitalRanges`. -/
private theorem exists_capitalRange {run : CaseRun} (h : run ∈ caseRuns) :
    ∃ r ∈ capitalRanges, r.1 ≤ run.first ∧ run.last ≤ r.2 := by
  have hall : (caseRuns.all fun run =>
      capitalRanges.any fun r => Nat.ble r.1 run.first && Nat.ble run.last r.2) = true := by decide
  have hrun := List.all_eq_true.1 hall run h
  simpa only [List.any_eq_true, Bool.and_eq_true, Nat.ble_eq] using hrun

/-- What lower-casing, folding and keys treat by themselves, apart from the tables: the sharp s, the capital
    I with a dot above, the Hangul syllables and the punctuation. -/
def specialRanges : List (Nat × Nat) :=
  (0xdf, 0xdf) :: (0x130, 0x130) :: (0xac00, 0xd7a3) :: ".,%?:▶◀▸◂".toList.map fun c => (c.toNat, c.toNat)

/-- Whether the characters from `low` to `high`, all beyond ASCII, are neither special nor in any table, or
    are listed as their own bases. -/
def isSettledRange (table : List (Nat × Text)) (low high : Nat) : Bool :=
  Nat.ble 0x80 low && areApart specialRanges low high && areApart markRanges low high &&
    (areApart capitalRanges low high ||
      caseRuns.all fun run => run.misses low high false || (Nat.beq low high && !run.covers low)) &&
    (baseTexts.all fun entry => Nat.blt high entry.1 || Nat.blt entry.1 low) &&
    table.all fun run => Nat.blt high run.1 || Nat.ble (run.1 + run.2.length) low ||
      (Nat.beq low high && (run.2[low - run.1]?).all fun base => Nat.beq base.toNat low)

/-- Ranges that hold most of the base characters beyond ASCII. -/
def settledRanges : List (Nat × Nat) :=
  [(0xa1, 0xbf), (0x3b1, 0x3c9), (0x5d0, 0x5ea), (0x1100, 0x11ff), (0x3400, 0x9fff), (0x20000, 0x2f7ff)]

/-- Whether a code point is that of an ASCII character which is neither a capital nor left out of keys. -/
def isSmallAscii (n : Nat) : Bool :=
  Nat.blt n 0x80 && (Nat.blt n 0x41 || Nat.blt 0x5a n) &&
    [0x25, 0x2c, 0x2e, 0x3a, 0x3f].all fun m => !Nat.beq n m

/-- Whether a character passes for one that stays as it is. -/
def passes (table : List (Nat × Text)) (n : Nat) : Bool :=
  isSmallAscii n || settledRanges.any (fun r => Nat.ble r.1 n && Nat.ble n r.2) || isSettledRange table n n

/-- Whether a code point is that of a space, a tab or a small sigma. -/
def isSingular (n : Nat) : Bool := [0x20, 0x09, 0x3c2, 0x3c3].any (Nat.beq n)

/-- Whether a base is the character itself, or is no blank unless the character is one, is not singular, and
    stays as it is unless the character is a capital. Only the runs of letters in `near` are looked at. -/
def isSound (table : List (Nat × Text)) (near : List CaseRun) (n : Nat) (base : Char) : Bool :=
  Nat.beq base.toNat n ||
    (((Nat.blt 0x3000 base.toNat && Nat.blt 0x3000 n) || isBlank base == isBlank (Char.ofNat n)) &&
      !isSingular base.toNat &&
      (Nat.beq n 0x130 || near.any (·.covers n) || passes table base.toNat))

/-- Whether the bases in a run of the table are sound. -/
def isSoundRun (table : List (Nat × Text)) (run : Nat × Text) : Bool :=
  -- the runs of letters that are near are found once for all characters
  let near := caseRuns.filter fun r => Nat.ble run.1 r.last && Nat.ble r.first (run.1 + 64)
  (run.2.zipIdx run.1).all fun entry => isSound table near entry.2 entry.1

/-- Whether a character with several bases and all of these are beyond the blanks, and the bases stay as they
    are. -/
def isSoundText (table : List (Nat × Text)) (entry : Nat × List Nat) : Bool :=
  !isBlank (Char.ofNat entry.1) &&
    (entry.2.map Char.ofNat).all fun base =>
      !isBlank base && !isSingular base.toNat && passes table base.toNat

/-- Whether the ranges, the runs and the texts of the table are sound. -/
def isSoundTable (table : List (Nat × Text)) : Bool :=
  (settledRanges.all fun r => isSettledRange table r.1 r.2) && table.all (isSoundRun table) &&
    baseTexts.all (isSoundText table)

set_option maxRecDepth 4000 in
/-- The table that is written out by `spellRuns` is sound. -/
private theorem isSoundTable_spellRuns : isSoundTable (spellRuns baseRuns) = true := by
  -- the characters are taken from the literals in this way, since decoding a literal takes long
  have hspelled : ∃ table, spellRuns baseRuns = table ∧ isSoundTable table = true := by
    dsimp only [baseRuns]
    repeat refine exists_spellRuns_cons ?_
    refine ⟨[], rfl, ?_⟩
    decide +kernel
  obtain ⟨table, htable, hsound⟩ := hspelled
  rwa [htable]

/-! ## What has been checked -/

/-- `IsSettled c`: no step on the way to a key changes the character or leaves it out, blanks aside. -/
structure IsSettled (c : Char) : Prop where
  lower : lowerChar c = [c]
  fold : fold [c] = [c]
  silent : isSilent c = false

/-- What `isSettledRange` tells of a range. -/
structure IsSettledRange (low high : Nat) : Prop where
  beyond : 0x80 ≤ low
  special : areApart specialRanges low high = true
  marks : areApart markRanges low high = true
  capitals : areApart capitalRanges low high = true ∨
    ∀ run ∈ caseRuns, run.misses low high false = true ∨ low = high ∧ run.covers low = false
  texts : ∀ entry ∈ baseTexts, high < entry.1 ∨ entry.1 < low
  listed : ∀ run ∈ spellRuns baseRuns, high < run.1 ∨ run.1 + run.2.length ≤ low ∨
    low = high ∧ ∀ base, run.2[low - run.1]? = some base → base.toNat = low

/-- The check tells just that. -/
private theorem isSettledRange_of_checked {low high : Nat}
    (h : isSettledRange (spellRuns baseRuns) low high = true) : IsSettledRange low high := by
  simp only [isSettledRange, Bool.and_eq_true, Bool.or_eq_true, Nat.ble_eq, Nat.blt_eq, Nat.beq_eq,
    List.all_eq_true, Bool.not_eq_true', Option.all_eq_true, or_assoc] at h
  obtain ⟨⟨⟨⟨⟨hbeyond, hspecial⟩, hmarks⟩, hcapitals⟩, htexts⟩, hlisted⟩ := h
  exact ⟨hbeyond, hspecial, hmarks, hcapitals, htexts, hlisted⟩

/-- The table has been checked range by range, run by run and text by text. -/
private theorem table_checked :
    (∀ r ∈ settledRanges, IsSettledRange r.1 r.2) ∧
      (∀ run ∈ spellRuns baseRuns, isSoundRun (spellRuns baseRuns) run = true) ∧
      ∀ entry ∈ baseTexts, isSoundText (spellRuns baseRuns) entry = true := by
  have hsound := isSoundTable_spellRuns
  simp only [isSoundTable, Bool.and_eq_true, List.all_eq_true] at hsound
  obtain ⟨⟨hranges, hruns⟩, htexts⟩ := hsound
  exact ⟨fun r hr => isSettledRange_of_checked (hranges r hr), hruns, htexts⟩

/-- What is in a range is in no range that is apart from it. -/
private theorem inRanges_of_areApart {ranges : List (Nat × Nat)} {low high n : Nat}
    (h : areApart ranges low high = true) (hlow : low ≤ n) (hhigh : n ≤ high) :
    inRanges ranges n = false := by
  rw [inRanges, List.any_eq_false]
  intro r hr
  have hapart := List.all_eq_true.1 h r hr
  simp only [Bool.or_eq_true, Nat.blt_eq] at hapart
  simp only [Bool.and_eq_true, decide_eq_true_eq]
  omega

/-- A run `covers` the code points for which it has a partner. -/
private theorem CaseRun.covers_iff {run : CaseRun} {n : Nat} :
    run.covers n = true ↔ run.partner? n ≠ none := by
  rw [Option.ne_none_iff_exists']
  simp only [partner?_eq_some_iff, covers, Bool.and_eq_true, Nat.ble_eq, Nat.beq_eq, and_assoc,
    exists_and_left, exists_eq, and_true]

/-- `fold` writes the base characters of all characters but the sharp s. -/
private theorem fold_singleton {c : Char} (h : c ≠ 'ß') : fold [c] = baseOf c := by
  rw [fold, List.flatMap_singleton, spelledOut, if_neg h, List.flatMap_singleton]

/-- A mark has no base characters. -/
private theorem baseOf_of_isMark {c : Char} (hfirst : 0xc0 ≤ c.toNat) (h : isMark c = true) :
    baseOf c = [] := by
  have hascii : ¬ c.toNat < 0xc0 := by omega
  rw [baseOf, if_neg hascii, if_pos h]

/-- A Hangul syllable has its letters. -/
private theorem baseOf_of_hangul {c : Char} (hmark : isMark c = false)
    (h : 0xac00 ≤ c.toNat ∧ c.toNat ≤ 0xd7a3) :
    baseOf c = hangulLetters (c.toNat - 0xac00) := by
  have hascii : ¬ c.toNat < 0xc0 := by omega
  rw [baseOf, if_neg hascii, if_neg (Bool.eq_false_iff.1 hmark), if_pos h]

/-- The bases of a character that is neither a mark nor a Hangul syllable are those of the tables. -/
private theorem baseOf_of_not {c : Char} (hfirst : 0xc0 ≤ c.toNat) (hmark : isMark c = false)
    (hhangul : ¬ (0xac00 ≤ c.toNat ∧ c.toNat ≤ 0xd7a3)) :
    baseOf c = (listedBase? c.toNat).elim ((baseTexts.lookup c.toNat).elim [c] (·.map Char.ofNat)) ([·]) := by
  have hascii : ¬ c.toNat < 0xc0 := by omega
  rw [baseOf, if_neg hascii, if_neg (Bool.eq_false_iff.1 hmark), if_neg hhangul]
  cases listedBase? c.toNat with
  | some base => rfl
  | none => cases baseTexts.lookup c.toNat <;> rfl

section Range

variable {low high : Nat} (hrange : IsSettledRange low high) {c : Char} (hlow : low ≤ c.toNat)
  (hhigh : c.toNat ≤ high)

include hrange hlow hhigh

/-- In a settled range there are neither of the two special letters, no Hangul syllables and no
    punctuation. -/
private theorem not_special_of_range :
    c ≠ 'ß' ∧ c ≠ 'İ' ∧ ¬ (0xac00 ≤ c.toNat ∧ c.toNat ≤ 0xd7a3) ∧ isSilent c = false := by
  have hnone := List.any_eq_false.1 (inRanges_of_areApart hrange.special hlow hhigh)
  have hcode : ∀ d : Char, (d.toNat, d.toNat) ∈ specialRanges → c ≠ d := by
    rintro d hd rfl
    exact hnone _ hd (by simp)
  refine ⟨hcode 'ß' (by decide), hcode 'İ' (by decide), ?_, ?_⟩
  · simpa using hnone (0xac00, 0xd7a3) (by decide)
  · rw [isSilent, ← Bool.not_eq_true, List.contains_iff_mem]
    -- what keys leave out is on the list of special ranges
    intro hmem
    refine hcode c ?_ rfl
    unfold specialRanges
    refine List.mem_cons_of_mem _ (List.mem_cons_of_mem _ (List.mem_cons_of_mem _ ?_))
    exact List.mem_map_of_mem (f := fun c : Char => (c.toNat, c.toNat)) hmem

/-- No character of the range has a `partner?` of another case. -/
private theorem partner?_of_range {run : CaseRun} (hrun : run ∈ caseRuns) :
    run.partner? c.toNat = none := by
  refine Decidable.byContradiction fun hne => ?_
  rcases hrange.capitals with hapart | hmisses
  · -- all letters of the run are in one of the ranges of capitals
    obtain ⟨m, hm⟩ := Option.ne_none_iff_exists'.1 hne
    obtain ⟨⟨hfirst, hlast, -⟩, -⟩ := CaseRun.partner?_eq_some_iff.1 hm
    obtain ⟨r, hr, hr'⟩ := exists_capitalRange hrun
    have hnot := List.any_eq_false.1 (inRanges_of_areApart hapart hlow hhigh) r hr
    simp only [Bool.and_eq_true, decide_eq_true_eq] at hnot
    omega
  · rcases hmisses run hrun with hmiss | ⟨hsingle, hcovers⟩
    · exact hne (CaseRun.partner?_eq_none_of_misses hmiss hlow hhigh (by simp))
    · obtain rfl : low = c.toNat := by omega
      rw [CaseRun.covers_iff.2 hne] at hcovers
      cases hcovers

/-- Each character of the range is its own base: `baseOf` gives it alone. -/
private theorem baseOf_of_range : baseOf c = [c] := by
  obtain ⟨-, -, hhangul, -⟩ := not_special_of_range hrange hlow hhigh
  have hmark : isMark c = false := inRanges_of_areApart hrange.marks hlow hhigh
  -- no entry of the other table is in the range
  have htext : baseTexts.lookup c.toNat = none := by
    rw [List.lookup_eq_none_iff]
    intro entry hentry
    have hapart := hrange.texts entry hentry
    simp only [bne_iff_ne, ne_eq]
    omega
  -- below the tables a character is its own base
  by_cases hfirst : c.toNat < 0xc0
  · exact if_pos hfirst
  rw [baseOf_of_not (by omega) hmark hhangul, htext]
  cases hbase : listedBase? c.toNat with
  | none => rfl
  | some base =>
    -- a character that is listed is listed by itself, as its own base
    obtain ⟨run, hrun, hmem⟩ := mem_of_listedBase? hbase
    obtain ⟨hle, hget⟩ := List.mem_zipIdx_iff_le_and_getElem?_sub.1 hmem
    dsimp only at hle hget
    have hlength := (List.getElem?_eq_some_iff.1 hget).1
    rcases hrange.listed run hrun with hapart | hapart | ⟨hsingle, hself⟩
    · omega
    · omega
    · obtain rfl : low = c.toNat := by omega
      rw [Option.elim_some, Char.toNat_inj.1 (hself base hget)]

/-- So each `IsSettled`. -/
private theorem isSettled_of_range : IsSettled c := by
  obtain ⟨hsharp, hdotted, -, hsilent⟩ := not_special_of_range hrange hlow hhigh
  have hascii := hrange.beyond
  refine ⟨lowerChar_eq_self (by omega) hdotted fun run hrun => ?_, ?_, hsilent⟩
  · exact partner?_of_range hrange hlow hhigh hrun
  · rw [fold_singleton hsharp, baseOf_of_range hrange hlow hhigh]

end Range

/-- A character of ASCII that is neither a capital nor left out `IsSettled`. -/
private theorem isSettled_of_isSmallAscii {c : Char} (h : isSmallAscii c.toNat = true) : IsSettled c := by
  have hascii : c.toNat < 0x80 := by
    simp only [isSmallAscii, Bool.and_eq_true, Nat.blt_eq] at h
    omega
  obtain ⟨hlower, hsilent⟩ := forall_ascii
    (p := fun c => isSmallAscii c.toNat = true → lowerChar c = [c] ∧ isSilent c = false)
    (by decide +kernel) hascii h
  refine ⟨hlower, fold_eq_self_of_ascii [c] fun d hd => ?_, hsilent⟩
  rwa [List.mem_singleton.1 hd]

/-- A character that `passes` is one that `IsSettled`. -/
private theorem isSettled_of_passes {c : Char} (h : passes (spellRuns baseRuns) c.toNat = true) :
    IsSettled c := by
  simp only [passes, Bool.or_eq_true, List.any_eq_true, Bool.and_eq_true, Nat.ble_eq] at h
  rcases h with (hascii | ⟨r, hr, hlow, hhigh⟩) | hsingle
  · exact isSettled_of_isSmallAscii hascii
  · exact isSettled_of_range (table_checked.1 r hr) hlow hhigh
  · exact isSettled_of_range (isSettledRange_of_checked hsingle) (Nat.le_refl _) (Nat.le_refl _)

/-! ## What folding writes -/

/-- The blanks at which folding looks. -/
def blankRanges : List (Nat × Nat) :=
  [(0x1680, 0x1680), (0x2000, 0x200a), (0x2028, 0x2029), (0x202f, 0x202f), (0x205f, 0x205f), (0x3000, 0x3000)]

/-- All blanks at which `fold` looks are in `blankRanges`. -/
private theorem exists_blankRange {c : Char} (hfirst : 0xc0 ≤ c.toNat) (h : isBlank c = true) :
    ∃ r ∈ blankRanges, r.1 ≤ c.toNat ∧ c.toNat ≤ r.2 := by
  have hascii : ¬ c.toNat < 0x80 := by omega
  rw [isBlank, if_neg hascii] at h
  simp only [Bool.or_eq_true, Bool.and_eq_true, beq_iff_eq, decide_eq_true_eq] at h
  simp only [blankRanges, List.mem_cons, List.not_mem_nil, or_false, exists_eq_or_imp, exists_eq_left]
  omega

/-- Behind the ideographic space there are no blanks. -/
private theorem isBlank_of_lt {c : Char} (h : 0x3000 < c.toNat) : isBlank c = false := by
  rw [← Bool.not_eq_true]
  intro hblank
  obtain ⟨r, hr, hrange⟩ := exists_blankRange (by omega) hblank
  simp only [blankRanges, List.mem_cons, List.not_mem_nil, or_false] at hr
  rcases hr with rfl | rfl | rfl | rfl | rfl | rfl <;> omega

/-- The entry of a base that `listedBase?` finds is sound. -/
private theorem exists_isSound {c base : Char} (h : listedBase? c.toNat = some base) :
    ∃ near : List CaseRun, (∀ run ∈ near, run ∈ caseRuns) ∧
      isSound (spellRuns baseRuns) near c.toNat base = true := by
  obtain ⟨run, hrun, hmem⟩ := mem_of_listedBase? h
  have hentries := table_checked.2.1 run hrun
  exact ⟨_, fun r hr => (List.mem_filter.1 hr).1, List.all_eq_true.1 hentries (base, c.toNat) hmem⟩

/-- A base that is listed for a small character is this character, or one that `IsSettled`, is not singular
    and is a blank just if the character is. -/
private theorem listedBase?_spec {c base : Char} (hfirst : 0x80 ≤ c.toNat) (hlower : lowerChar c = [c])
    (h : listedBase? c.toNat = some base) :
    base = c ∨ (IsSettled base ∧ isBlank base = isBlank c ∧ isSingular base.toNat = false) := by
  obtain ⟨near, hnear, hsound⟩ := exists_isSound h
  simp only [isSound, Bool.or_eq_true, Bool.and_eq_true, Nat.beq_eq, Nat.blt_eq, Bool.not_eq_true',
    beq_iff_eq, Char.ofNat_toNat] at hsound
  rcases hsound with hself | ⟨⟨hblank, hsingular⟩, hsettled⟩
  · exact .inl (Char.toNat_inj.1 hself)
  · refine .inr ⟨?_, ?_, hsingular⟩
    · -- a capital letter would not be small, and neither would the dotted I
      rcases hsettled with (hdotted | hcapital) | hpasses
      · have hdotted' : c = 'İ' := Char.toNat_inj.1 hdotted
        rw [hdotted'] at hlower
        exact absurd hlower (by decide)
      · obtain ⟨run, hrun, hcovers⟩ := List.any_eq_true.1 hcapital
        exact absurd hlower (lowerChar_ne_self hfirst (hnear run hrun) (CaseRun.covers_iff.1 hcovers))
      · exact isSettled_of_passes hpasses
    · -- blanks have been compared by number
      rcases hblank with ⟨hbase, hc⟩ | hblank
      · rw [isBlank_of_lt hbase, isBlank_of_lt hc]
      · exact hblank

/-- A blank is no mark. -/
private theorem isMark_of_isBlank {c : Char} (hfirst : 0xc0 ≤ c.toNat) (h : isBlank c = true) :
    isMark c = false := by
  have hall : (blankRanges.all fun r => areApart markRanges r.1 r.2) = true := by decide +kernel
  obtain ⟨r, hr, hlow, hhigh⟩ := exists_blankRange hfirst h
  exact inRanges_of_areApart (List.all_eq_true.1 hall r hr) hlow hhigh

/-- The bases of a character that has several are sound. -/
private theorem isSoundText_of_lookup {n : Nat} {bases : List Nat} (h : baseTexts.lookup n = some bases) :
    isSoundText (spellRuns baseRuns) (n, bases) = true := by
  obtain ⟨front, back, htexts, -⟩ := List.lookup_eq_some_iff.1 h
  exact table_checked.2.2 (n, bases) (by rw [htexts]; simp)

/-- The letters of a Hangul syllable are settled, and none of them is a blank or singular. -/
private theorem hangulLetters_spec {index : Nat} (hindex : index < 11172) {d : Char}
    (h : d ∈ hangulLetters index) :
    IsSettled d ∧ isBlank d = false ∧ isSingular d.toNat = false := by
  -- all letters are in the block of Jamo, which is one range of the table
  have hrange : 0x1100 ≤ d.toNat ∧ d.toNat ≤ 0x11ff := by
    have hcode : ∀ n, 0x1100 ≤ n → n ≤ 0x11ff →
        0x1100 ≤ (Char.ofNat n).toNat ∧ (Char.ofNat n).toNat ≤ 0x11ff := by
      intro n hlow hhigh
      rw [toNat_ofNat_of_lt (by omega)]
      exact ⟨hlow, hhigh⟩
    simp only [hangulLetters, List.mem_cons] at h
    rcases h with rfl | rfl | h
    · exact hcode _ (by omega) (by omega)
    · exact hcode _ (by omega) (by omega)
    · split at h
      · cases h
      · rw [List.mem_singleton.1 h]
        exact hcode _ (by omega) (by omega)
  have hsettled : IsSettledRange 0x1100 0x11ff := table_checked.1 (0x1100, 0x11ff) (by decide)
  refine ⟨isSettled_of_range hsettled hrange.1 hrange.2, ?_, ?_⟩
  · rw [← Bool.not_eq_true]
    intro hblank
    -- no blank is in that block
    obtain ⟨r, hr, hr'⟩ := exists_blankRange (by omega) hblank
    simp only [blankRanges, List.mem_cons, List.not_mem_nil, or_false] at hr
    rcases hr with rfl | rfl | rfl | rfl | rfl | rfl <;> omega
  · rw [← Bool.not_eq_true]
    intro hsingular
    -- and no other single letter
    simp only [isSingular, List.any_cons, List.any_nil, Bool.or_false, Bool.or_eq_true,
      Nat.beq_eq] at hsingular
    omega

/-- What `baseOf` leaves of a small character that keys do not leave out is settled. It is a blank just if the
    character is one, and singular only if it is the character itself. -/
theorem baseOf_spec {c d : Char} (hlower : lowerChar c = [c]) (hsilent : isSilent c = false)
    (hsharp : c ≠ 'ß') (h : d ∈ baseOf c) :
    IsSettled d ∧ isBlank d = isBlank c ∧ (isSingular d.toNat = true → d = c) := by
  -- where the character is its own base, there is nothing to show
  have hself : baseOf c = [c] → d = c →
      IsSettled d ∧ isBlank d = isBlank c ∧ (isSingular d.toNat = true → d = c) := by
    rintro hc rfl
    exact ⟨⟨hlower, by rw [fold_singleton hsharp, hc], hsilent⟩, rfl, fun _ => rfl⟩
  -- by cases of the branches of baseOf, in their order
  by_cases hfirst : c.toNat < 0xc0
  · have hc : baseOf c = [c] := if_pos hfirst
    rw [hc, List.mem_singleton] at h
    exact hself hc h
  cases hmark : isMark c with
  | true =>
    rw [baseOf_of_isMark (by omega) hmark] at h
    cases h
  | false =>
    by_cases hhangul : 0xac00 ≤ c.toNat ∧ c.toNat ≤ 0xd7a3
    · rw [baseOf_of_hangul hmark hhangul] at h
      -- a syllable has letters of Jamo for its bases
      obtain ⟨hd, hblank, hsingular⟩ := hangulLetters_spec (by omega) h
      exact ⟨hd, by rw [hblank, isBlank_of_lt (by omega)], by simp [hsingular]⟩
    · have hbase := baseOf_of_not (by omega) hmark hhangul
      cases hlisted : listedBase? c.toNat with
      | some base =>
        rw [hlisted, Option.elim_some] at hbase
        rw [hbase, List.mem_singleton] at h
        rcases listedBase?_spec (by omega) hlower hlisted with hbase' | ⟨hd, hblank, hsingular⟩
        · rw [hbase'] at hbase h
          exact hself hbase h
        · rw [h]
          exact ⟨hd, hblank, by simp [hsingular]⟩
      | none =>
        rw [hlisted, Option.elim_none] at hbase
        cases htext : baseTexts.lookup c.toNat with
        | none =>
          rw [htext, Option.elim_none] at hbase
          rw [hbase, List.mem_singleton] at h
          exact hself hbase h
        | some bases =>
          rw [htext, Option.elim_some] at hbase
          rw [hbase] at h
          have hsound := isSoundText_of_lookup htext
          simp only [isSoundText, Bool.and_eq_true, Bool.not_eq_true', List.all_eq_true,
            Char.ofNat_toNat] at hsound
          obtain ⟨hc, hbases⟩ := hsound
          obtain ⟨⟨hblank, hsingular⟩, hpasses⟩ := hbases d h
          exact ⟨isSettled_of_passes hpasses, by rw [hblank, hc], by simp [hsingular]⟩

/-! ## Single characters, folded -/

section Fold

variable {c d : Char} (hlower : lowerChar c = [c]) (hsilent : isSilent c = false) (h : d ∈ fold [c])

include hlower hsilent h

/-- So it is with what `fold` writes for such a character, the sharp s included. -/
theorem mem_fold_spec : IsSettled d ∧ isBlank d = isBlank c ∧ (isSingular d.toNat = true → d = c) := by
  by_cases hsharp : c = 'ß'
  · subst hsharp
    have hd : d = 's' := by
      have hfold : fold ['ß'] = ['s', 's'] := by decide
      simpa [hfold] using h
    rw [hd]
    exact ⟨isSettled_of_isSmallAscii (by decide), by decide, by decide⟩
  · rw [fold_singleton hsharp] at h
    exact baseOf_spec hlower hsilent hsharp h

/-- What `fold` writes for a small character stays as it is. -/
theorem isSettled_of_mem_fold : IsSettled d := (mem_fold_spec hlower hsilent h).1

/-- What `fold` writes for a small character is a blank just if the character is one. -/
theorem isBlank_of_mem_fold : isBlank d = isBlank c := (mem_fold_spec hlower hsilent h).2.1

/-- `fold` makes a space, a tab or a small sigma of nothing else. -/
theorem eq_of_mem_fold (hd : isSingular d.toNat = true) : d = c := (mem_fold_spec hlower hsilent h).2.2 hd

end Fold

/-- `fold` makes one character of a blank. -/
theorem exists_fold_of_isBlank {c : Char} (h : isBlank c = true) : ∃ d, fold [c] = [d] := by
  have hsharp : c ≠ 'ß' := by
    rintro rfl
    exact absurd h (by decide)
  rw [fold_singleton hsharp]
  by_cases hfirst : c.toNat < 0xc0
  · exact ⟨c, if_pos hfirst⟩
  -- a blank is no mark and no syllable, so it keeps a character
  have hmark := isMark_of_isBlank (by omega) h
  have hhangul : ¬ (0xac00 ≤ c.toNat ∧ c.toNat ≤ 0xd7a3) := by
    intro hhangul
    rw [isBlank_of_lt (by omega)] at h
    cases h
  rw [baseOf_of_not (by omega) hmark hhangul]
  cases hlisted : listedBase? c.toNat with
  | some base => exact ⟨base, rfl⟩
  | none =>
    cases htext : baseTexts.lookup c.toNat with
    | none => exact ⟨c, rfl⟩
    | some bases =>
      -- no blank has several bases
      have hsound := isSoundText_of_lookup htext
      simp only [isSoundText, Bool.and_eq_true, Bool.not_eq_true', Char.ofNat_toNat] at hsound
      rw [h] at hsound
      cases hsound.1

end BlockScript.Text
