import BlockScript.Text.Key

/-!
# Lower case is final

What lower-casing writes has no lower case but itself, so lower-casing twice is lower-casing once. This is a
matter of the table of letters: the partners of the letters of a run lie where no run has letters, or between
these where two runs take every second character. No partner is punctuation either, and punctuation has no
lower case, so the characters that a key leaves out may be dropped before or after, as far as single
characters go.

## Key results

- `lowerChar_of_mem_lower`: what is written by lower-casing has no other lower case
- `isSilent_of_mem_lowerChar`: a character is left out of a key just if its lower case is
-/

namespace BlockScript.Text

/-! ## The table -/

namespace CaseRun

/-- A code has a `partner?` in a run if it is one of the run, and the offset says which one. -/
theorem partner?_eq_some_iff {run : CaseRun} {n m : Nat} :
    run.partner? n = some m ↔
      (run.first ≤ n ∧ n ≤ run.last ∧ (n - run.first) % run.step = 0) ∧ m = (n + run.offset).toNat := by
  rw [partner?, Option.ite_none_right_eq_some, Option.some_inj, eq_comm (a := m)]

/-- The least partner of a letter of the run. -/
def least (run : CaseRun) : Nat := (run.first + run.offset).toNat

/-- The greatest partner of a letter of the run. -/
def greatest (run : CaseRun) : Nat := (run.last + run.offset).toNat

/-- Whether no two letters of the run are neighbours. -/
def isSparse (run : CaseRun) : Bool := run.step == 2 || run.first == run.last

/-- Whether the run has no letter between two characters, or none at an even distance from the first of
    them if these are all that count. -/
def misses (run : CaseRun) (low high : Nat) (sparse : Bool) : Bool :=
  Nat.blt high run.first || Nat.blt run.last low ||
    (sparse && run.step == 2 && (low + run.first) % 2 == 1)

/-- Whether the partners of a run are characters, none of which is punctuation that keys leave out or is in
    turn lowered, by itself or in some run. -/
def isFinal (run : CaseRun) : Bool :=
  Nat.blt 0 run.least && (Nat.blt run.greatest 0xd800 || Nat.blt 0xdfff run.least) &&
    Nat.blt run.greatest 0x110000 &&
    (Nat.ble 0x80 run.least || (run.least == 0x6b && run.greatest == 0x6b)) &&
    (Nat.blt run.greatest 0x130 || Nat.blt 0x130 run.least) &&
    (".,%?:▶◀▸◂".toList.all fun c => Nat.blt run.greatest c.toNat || Nat.blt c.toNat run.least) &&
    caseRuns.all fun run' => run'.misses run.least run.greatest run.isSparse

/-- A run that `misses` a range has no partners for its codes. -/
theorem partner?_eq_none_of_misses {run : CaseRun} {low high n : Nat} {sparse : Bool}
    (h : run.misses low high sparse = true) (hlow : low ≤ n) (hhigh : n ≤ high)
    (hsparse : sparse = true → (n - low) % 2 = 0) : run.partner? n = none := by
  cases hpartner : run.partner? n with
  | none => rfl
  | some m =>
    obtain ⟨⟨hfirst, hlast, hstep⟩, -⟩ := partner?_eq_some_iff.1 hpartner
    simp only [misses, Bool.or_eq_true, Bool.and_eq_true, Nat.blt_eq, beq_iff_eq] at h
    rcases h with (h | h) | ⟨⟨hs, hstep'⟩, hodd⟩
    · omega
    · omega
    · -- both distances are even, so the letter would be where it is not
      have heven := hsparse hs
      rw [hstep'] at hstep
      omega

/-- A partner lies between the least and the greatest one, in steps. -/
private theorem range_of_partner? {run : CaseRun} {n m : Nat} (h : run.partner? n = some m)
    (hleast : 0 < run.least) :
    run.least ≤ m ∧ m ≤ run.greatest ∧ (run.isSparse = true → (m - run.least) % 2 = 0) := by
  obtain ⟨⟨hfirst, hlast, hstep⟩, rfl⟩ := partner?_eq_some_iff.1 h
  unfold least at hleast ⊢
  unfold greatest
  refine ⟨by omega, by omega, fun hsparse => ?_⟩
  simp only [isSparse, Bool.or_eq_true, beq_iff_eq] at hsparse
  rcases hsparse with htwo | hone
  · rw [htwo] at hstep
    omega
  · omega

/-- What is known of the partners of a run: they are characters, and none of them is punctuation that keys
    leave out or is in turn lowered. -/
structure IsFinal (run : CaseRun) : Prop where
  positive : 0 < run.least
  unpaired : run.greatest < 0xd800 ∨ 0xdfff < run.least
  bounded : run.greatest < 0x110000
  beyond : 0x80 ≤ run.least ∨ run.least = 0x6b ∧ run.greatest = 0x6b
  undotted : run.greatest < 0x130 ∨ 0x130 < run.least
  silent : ∀ c ∈ ".,%?:▶◀▸◂".toList, run.greatest < c.toNat ∨ c.toNat < run.least
  missed : ∀ run' ∈ caseRuns, run'.misses run.least run.greatest run.isSparse = true

end CaseRun

/-- This is so of all runs. -/
private theorem isFinal_of_mem_caseRuns {run : CaseRun} (h : run ∈ caseRuns) : run.IsFinal := by
  have hall : caseRuns.all CaseRun.isFinal = true := by decide +kernel
  have hrun := List.all_eq_true.1 hall run h
  simp only [CaseRun.isFinal, Bool.and_eq_true, Bool.or_eq_true, Nat.blt_eq, Nat.ble_eq, beq_iff_eq,
    List.all_eq_true] at hrun
  obtain ⟨⟨⟨⟨⟨⟨hpositive, hunpaired⟩, hbounded⟩, hbeyond⟩, hundotted⟩, hsilent⟩, hmissed⟩ := hrun
  exact ⟨hpositive, hunpaired, hbounded, hbeyond, hundotted, hsilent, hmissed⟩

/-- A code that is no surrogate is that of a character. -/
theorem toNat_ofNat_of_lt {n : Nat} (h : n < 0xd800 ∨ 0xdfff < n ∧ n < 0x110000) :
    (Char.ofNat n).toNat = n := by
  have hvalid : n.isValidChar := h
  rw [Char.ofNat, dif_pos hvalid]
  rfl

/-! ## Single characters -/

/-- A character beyond ASCII is its own `lowerChar` if no run has it. -/
theorem lowerChar_eq_self {c : Char} (hascii : 0x80 ≤ c.toNat) (hdotted : c ≠ 'İ')
    (h : ∀ run ∈ caseRuns, run.partner? c.toNat = none) : lowerChar c = [c] := by
  have hnone : caseRuns.findSome? (·.partner? c.toNat) = none := List.findSome?_eq_none_iff.2 h
  rw [lowerChar, if_neg (by omega), if_neg hdotted, hnone]
  rfl

/-- The `lowerChar` of a character is that of ASCII, the two characters for the capital I with a dot above, a
    partner in a run, or the character itself. -/
theorem lowerChar_cases (c : Char) :
    (c.toNat < 0x80 ∧ lowerChar c = [c.toLower]) ∨ (c = 'İ' ∧ lowerChar c = ['i', Char.ofNat 0x307]) ∨
      (∃ run ∈ caseRuns, ∃ m, run.partner? c.toNat = some m ∧ lowerChar c = [Char.ofNat m]) ∨
      ((∀ run ∈ caseRuns, run.partner? c.toNat = none) ∧ lowerChar c = [c]) := by
  by_cases hascii : c.toNat < 0x80
  · exact .inl ⟨hascii, if_pos hascii⟩
  · by_cases hdotted : c = 'İ'
    · refine .inr (.inl ⟨hdotted, ?_⟩)
      rw [lowerChar, if_neg hascii, if_pos hdotted]
    · refine .inr (.inr ?_)
      -- beyond ASCII the first run with a partner decides
      cases hpartner : caseRuns.findSome? (·.partner? c.toNat) with
      | none =>
        have hnone := List.findSome?_eq_none_iff.1 hpartner
        exact .inr ⟨hnone, lowerChar_eq_self (by omega) hdotted hnone⟩
      | some m =>
        obtain ⟨run, hrun, hm⟩ := List.exists_of_findSome?_eq_some hpartner
        refine .inl ⟨run, hrun, m, hm, ?_⟩
        rw [lowerChar, if_neg hascii, if_neg hdotted, hpartner]
        rfl

/-- A partner of a letter is a character, is not before `k`, and has no partner in any run in turn. -/
private theorem partner?_of_partner? {run : CaseRun} (hrun : run ∈ caseRuns) {n m : Nat}
    (h : run.partner? n = some m) :
    (Char.ofNat m).toNat = m ∧ 0x6b ≤ m ∧ ∀ run' ∈ caseRuns, run'.partner? m = none := by
  have hfinal := isFinal_of_mem_caseRuns hrun
  obtain ⟨hleast, hgreatest, hsparse⟩ := CaseRun.range_of_partner? h hfinal.positive
  refine ⟨toNat_ofNat_of_lt ?_, ?_, fun run' hrun' => ?_⟩
  · have hunpaired := hfinal.unpaired
    have hbounded := hfinal.bounded
    omega
  · have hbeyond := hfinal.beyond
    omega
  · exact CaseRun.partner?_eq_none_of_misses (hfinal.missed run' hrun') hleast hgreatest hsparse

/-- A partner of a letter has no other lower case, and is no punctuation that keys leave out. -/
private theorem lowerChar_of_partner? {run : CaseRun} (hrun : run ∈ caseRuns) {n m : Nat}
    (h : run.partner? n = some m) :
    lowerChar (Char.ofNat m) = [Char.ofNat m] ∧ isSilent (Char.ofNat m) = false := by
  have hfinal := isFinal_of_mem_caseRuns hrun
  obtain ⟨hleast, hgreatest, -⟩ := CaseRun.range_of_partner? h hfinal.positive
  obtain ⟨hnat, -, hnone⟩ := partner?_of_partner? hrun h
  constructor
  · rcases hfinal.beyond with hbeyond | ⟨hk, hk'⟩
    · apply lowerChar_eq_self
      · omega
      · intro hchar
        have hcode : m = 'İ'.toNat := by rw [← hnat, hchar]
        have hcode' : 'İ'.toNat = 0x130 := rfl
        have hundotted := hfinal.undotted
        omega
      · intro run' hrun'
        rw [hnat]
        exact hnone run' hrun'
    · -- the one letter beyond ASCII that has a partner there is the sign for kelvins
      obtain rfl : m = 0x6b := by omega
      decide
  · rw [isSilent, ← Bool.not_eq_true, List.contains_iff_mem]
    intro hmem
    -- what is silent has no capital letter
    have hrange := hfinal.silent _ hmem
    omega

/-- A character beyond ASCII that some run has is not its own `lowerChar`. -/
theorem lowerChar_ne_self {c : Char} (hascii : 0x80 ≤ c.toNat) {run : CaseRun} (hrun : run ∈ caseRuns)
    (h : run.partner? c.toNat ≠ none) : lowerChar c ≠ [c] := by
  intro hself
  rcases lowerChar_cases c with ⟨hc, -⟩ | ⟨rfl, hc⟩ | ⟨run', hrun', m, hm, hc⟩ | ⟨hnone, -⟩
  · omega
  · rw [hc] at hself
    cases hself
  · -- a partner has none, and this one has one in the run
    obtain ⟨hnat, -, hnone⟩ := partner?_of_partner? hrun' hm
    have hchar : Char.ofNat m = c := by rwa [hc, List.singleton_inj] at hself
    rw [hchar] at hnat
    exact h (hnat ▸ hnone run hrun)
  · exact h (hnone run hrun)

/-- What is so of all ASCII characters is so of each. -/
theorem forall_ascii {p : Char → Prop} (h : ∀ n < 0x80, p (Char.ofNat n)) {c : Char}
    (hc : c.toNat < 0x80) : p c := by
  have hp := h c.toNat hc
  rwa [Char.ofNat_toNat] at hp

/-- In ASCII a small letter is in lower case, and as silent as the capital one. -/
private theorem lowerChar_toLower {c : Char} (hc : c.toNat < 0x80) :
    lowerChar c.toLower = [c.toLower] ∧ isSilent c.toLower = isSilent c ∧ (c.toLower = ' ' → c = ' ') :=
  forall_ascii
    (p := fun c => lowerChar c.toLower = [c.toLower] ∧ isSilent c.toLower = isSilent c ∧
      (c.toLower = ' ' → c = ' '))
    (by decide +kernel) hc

/-- What is written for a character in lower case has no other lower case. -/
private theorem lowerChar_of_mem_lowerChar {c d : Char} (h : d ∈ lowerChar c) : lowerChar d = [d] := by
  -- case by case of what the lower case can be
  rcases lowerChar_cases c with ⟨hascii, hc⟩ | ⟨-, hc⟩ | ⟨run, hrun, m, hm, hc⟩ | ⟨-, hc⟩
  · rw [hc, List.mem_singleton] at h
    rw [h]
    exact (lowerChar_toLower hascii).1
  · have hdot : lowerChar (Char.ofNat 0x307) = [Char.ofNat 0x307] := by decide
    simp only [hc, List.mem_cons, List.not_mem_nil, or_false] at h
    rcases h with rfl | rfl
    · rfl
    · exact hdot
  · rw [hc, List.mem_singleton] at h
    rw [h]
    exact (lowerChar_of_partner? hrun hm).1
  · have hd : d = c := by rwa [hc, List.mem_singleton] at h
    rw [hd, hc]

/-- Punctuation that `isSilent` has no lower case. -/
theorem lowerChar_of_isSilent {c : Char} (h : isSilent c = true) : lowerChar c = [c] := by
  have hall : (".,%?:▶◀▸◂".toList.all fun c => lowerChar c == [c]) = true := by decide +kernel
  exact beq_iff_eq.1 (List.all_eq_true.1 hall c (List.contains_iff_mem.1 h))

/-- A character `isSilent` in keys just if its lower case is. -/
theorem isSilent_of_mem_lowerChar {c d : Char} (h : d ∈ lowerChar c) : isSilent d = isSilent c := by
  cases hsilent : isSilent c with
  -- what is silent is its own lower case
  | true =>
    rw [lowerChar_of_isSilent hsilent, List.mem_singleton] at h
    rw [h, hsilent]
  | false =>
    rcases lowerChar_cases c with ⟨hascii, hc⟩ | ⟨-, hc⟩ | ⟨run, hrun, m, hm, hc⟩ | ⟨-, hc⟩
    · rw [hc, List.mem_singleton] at h
      rw [h, (lowerChar_toLower hascii).2.1, hsilent]
    · simp only [hc, List.mem_cons, List.not_mem_nil, or_false] at h
      rcases h with rfl | rfl <;> decide
    · rw [hc, List.mem_singleton] at h
      rw [h]
      exact (lowerChar_of_partner? hrun hm).2
    · rw [hc, List.mem_singleton] at h
      rw [h, hsilent]

/-- Nothing else becomes a space by `lowerChar`. -/
theorem eq_space_of_mem_lowerChar {c : Char} (h : ' ' ∈ lowerChar c) : c = ' ' := by
  rcases lowerChar_cases c with ⟨hascii, hc⟩ | ⟨-, hc⟩ | ⟨run, hrun, m, hm, hc⟩ | ⟨-, hc⟩
  · rw [hc, List.mem_singleton] at h
    exact (lowerChar_toLower hascii).2.2 h.symm
  · rw [hc] at h
    exact absurd h (by decide)
  · rw [hc, List.mem_singleton] at h
    obtain ⟨hnat, hm, -⟩ := partner?_of_partner? hrun hm
    rw [← h] at hnat
    -- no partner in the table comes before the letter k
    have hcode : ' '.toNat = 0x20 := rfl
    omega
  · rw [hc, List.mem_singleton] at h
    exact h.symm

/-! ## Texts -/

/-- Wherever a character stands, its lower case has no other lower case. -/
private theorem lowerChar_of_mem_lowerAt {before after : Text} {c d : Char}
    (h : d ∈ lowerAt before c after) :
    lowerChar d = [d] := by
  unfold lowerAt at h
  split at h
  · -- both forms of the small sigma are final
    rw [List.mem_singleton] at h
    rw [h]
    split <;> decide
  · exact lowerChar_of_mem_lowerChar h

/-- What is in lower case stays as it is. -/
private theorem lowerChar_of_mem_lowerFrom {before t : Text} {d : Char} (h : d ∈ lowerFrom before t) :
    lowerChar d = [d] := by
  induction t generalizing before with
  | nil => cases h
  | cons c rest ih =>
    rcases List.mem_append.1 h with h | h
    · exact lowerChar_of_mem_lowerAt h
    · exact ih h

/-- What `lower` writes is in lower case. -/
theorem lowerChar_of_mem_lower {t : Text} {d : Char} (h : d ∈ lower t) : lowerChar d = [d] :=
  lowerChar_of_mem_lowerFrom h

/-- Lower-casing brings in no punctuation. -/
private theorem isSilent_of_mem_lowerFrom {before t : Text} (h : ∀ c ∈ t, isSilent c = false) {d : Char}
    (hd : d ∈ lowerFrom before t) : isSilent d = false := by
  induction t generalizing before with
  | nil => cases hd
  | cons c rest ih =>
    obtain ⟨hc, hrest⟩ := List.forall_mem_cons.1 h
    rcases List.mem_append.1 hd with hd | hd
    · unfold lowerAt at hd
      split at hd
      · rw [List.mem_singleton] at hd
        rw [hd]
        -- either of the two small sigmas
        split <;> decide
      · rw [isSilent_of_mem_lowerChar hd, hc]
    · exact ih hrest hd

/-- `lower` makes nothing silent. -/
theorem isSilent_of_mem_lower {t : Text} (h : ∀ c ∈ t, isSilent c = false) {d : Char} (hd : d ∈ lower t) :
    isSilent d = false :=
  isSilent_of_mem_lowerFrom h hd

/-- `lower` leaves a text of characters that are in lower case as it is. -/
theorem lower_eq_self {t : Text} (h : ∀ c ∈ t, lowerChar c = [c]) : lower t = t := by
  have hsigma : 'Σ' ∉ t := fun hmem => absurd (h _ hmem) (by decide)
  rw [lower, lowerFrom_eq_flatMap [] t hsigma]
  clear hsigma
  induction t with
  | nil => rfl
  | cons c rest ih =>
    obtain ⟨hc, hrest⟩ := List.forall_mem_cons.1 h
    rw [List.flatMap_cons, hc, ih hrest]
    rfl

end BlockScript.Text
