import Mathlib.Data.List.Forall2
import BlockScript.Proofs.Text.Canonical

/-!
# The key of a text in lower case

Keys are in lower case, so one would think that a text has the key that it has in lower case. There is one
letter for which this is not so: a capital sigma becomes one of two small ones, which is settled by the
letters next to it, and when a key is made the punctuation between them is gone already. The small sigmas go
through all later passes, and no other character becomes one, so the key shows how they have been written.

## Key results

- `sigmas_key`: the small sigmas in a key
- `key_lower_iff`: a text has the key that it has in lower case just if the punctuation in it makes no
  difference to its lower case
- `filter_lower_of_notMem`: it makes none if there is no capital sigma
- `length_lower`: how long a text is in lower case
-/

namespace BlockScript.Text

/-! ## Lengths -/

/-- `lowerAt` writes one character for each, and two for the capital I with a dot above. -/
private theorem length_lowerAt (before : Text) (c : Char) (after : Text) :
    (lowerAt before c after).length = 1 + [c].count 'İ' := by
  unfold lowerAt
  split
  · rename_i hsigma
    rw [hsigma]
    rfl
  · by_cases hdotted : c = 'İ'
    · rw [hdotted]
      decide
    · have hnone : [c].count 'İ' = 0 := List.count_eq_zero.2 (by simpa using Ne.symm hdotted)
      rw [hnone, lowerChar, if_neg hdotted]
      split <;> rfl

/-- `lowerFrom` writes as many more as there are of them, whatever is in front. -/
private theorem length_lowerFrom (before t : Text) :
    (lowerFrom before t).length = t.length + t.count 'İ' := by
  induction t generalizing before with
  | nil => rfl
  | cons c rest ih =>
    have hcount : (c :: rest).count 'İ' = [c].count 'İ' + rest.count 'İ' := by
      rw [← List.singleton_append, List.count_append]
    rw [lowerFrom, List.length_append, length_lowerAt, ih, hcount, List.length_cons]
    omega

/-- With `lower` a text becomes longer by the number of its capital I with a dot above. -/
theorem length_lower (t : Text) : (lower t).length = t.length + t.count 'İ' := length_lowerFrom [] t

/-! ## Small sigmas -/

/-- Whether a character is a small sigma, as it is written inside a word or at its end. -/
def isSigma (c : Char) : Bool := c == 'σ' || c == 'ς'

/-- The small sigmas of a text. -/
def sigmas (t : Text) : Text := t.filter isSigma

/-- The two small sigmas are the characters with `isSigma`. -/
private theorem isSigma_iff {c : Char} : isSigma c = true ↔ c = 'σ' ∨ c = 'ς' := by
  simp [isSigma]

/-- `sigmas` picks out characters, which passes that drop others do not change. -/
private theorem sigmas_eq_filterMap (t : Text) : sigmas t = t.filterMap (Option.guard isSigma) := by
  rw [List.filterMap_eq_filter]
  rfl

/-- `sigmas` go character by character. -/
private theorem sigmas_cons (c : Char) (t : Text) : sigmas (c :: t) = sigmas [c] ++ sigmas t := by
  rw [sigmas, sigmas, sigmas, ← List.filter_append]
  rfl

/-- `squeeze` drops and puts in no sigmas. -/
private theorem sigmas_squeeze (t : Text) : sigmas (squeeze t) = sigmas t := by
  rw [sigmas_eq_filterMap, sigmas_eq_filterMap]
  refine filterMap_squeezeAfter (fun c hgap => ?_) false t
  simp only [isGap, Bool.or_eq_true, beq_iff_eq] at hgap
  rcases hgap with rfl | rfl <;> rfl

/-- Nor does `trim`. -/
private theorem sigmas_trim (t : Text) : sigmas (trim t) = sigmas t := by
  rw [sigmas_eq_filterMap, sigmas_eq_filterMap]
  refine filterMap_trim fun c _ hblank => ?_
  rw [Option.guard_eq_none_iff, ← Bool.not_eq_true, isSigma_iff]
  rintro (rfl | rfl)
  · exact absurd hblank (by decide)
  · exact absurd hblank (by decide)

/-- `fold` keeps the `sigmas`, and makes none of other characters. -/
private theorem sigmas_fold {t : Text} (h : ∀ c ∈ t, lowerChar c = [c] ∧ isSilent c = false) :
    sigmas (fold t) = sigmas t := by
  induction t with
  | nil => rfl
  | cons c rest ih =>
    obtain ⟨⟨hlower, hsilent⟩, hrest⟩ := List.forall_mem_cons.1 h
    have hone : sigmas (fold [c]) = sigmas [c] := by
      by_cases hc : isSigma c = true
      · rcases isSigma_iff.1 hc with rfl | rfl <;> decide
      · -- a sigma stands for itself alone, so it would have been there before
        have hnone : ∀ d ∈ fold [c], ¬ isSigma d = true := by
          intro d hd hsigma
          have hsingular : isSingular d.toNat = true := by
            rcases isSigma_iff.1 hsigma with rfl | rfl <;> decide
          rw [eq_of_mem_fold hlower hsilent hd hsingular] at hsigma
          exact hc hsigma
        rw [sigmas, List.filter_eq_nil_iff.2 hnone, sigmas, List.filter_cons_of_neg hc, List.filter_nil]
    have hcons : fold (c :: rest) = fold [c] ++ fold rest := fold_append [c] rest
    rw [hcons, sigmas, List.filter_append, ← sigmas, ← sigmas, hone, ih hrest, ← sigmas_cons]

/-- The `sigmas` of a `key` are those of the text in lower case, without the punctuation. -/
theorem sigmas_key (folded : Bool) (t : Text) :
    sigmas (key folded t) = sigmas (lower (t.filter fun c => !isSilent c)) := by
  have hplain : sigmas (plainKey t) = sigmas (lower (t.filter fun c => !isSilent c)) := by
    rw [plainKey, sigmas_trim, sigmas_squeeze]
  -- folding takes marks away, and no sigma of either kind
  have hbare : sigmas (bareKey folded t) = sigmas (plainKey t) := by
    rw [bareKey]
    split
    · exact sigmas_fold fun c hc => ⟨(of_mem_plainKey hc).1, (of_mem_plainKey hc).2.1⟩
    · rfl
  rw [← hplain, ← hbare, key]
  split
  · -- only a key that stands for an ellipsis is replaced
    rename_i hdots
    rw [hdots.1]
    decide
  · rfl

/-! ## Lower case and punctuation -/

/-- Whether two characters are the same, or both are small sigmas. -/
def IsNear (c d : Char) : Prop := c = d ∨ (isSigma c = true ∧ isSigma d = true)

/-- The lower case of what is not silent is not silent. -/
private theorem filter_lowerChar {c : Char} (h : isSilent c = false) :
    (lowerChar c).filter (fun c => !isSilent c) = lowerChar c :=
  List.filter_eq_self.2 fun d hd => by simp [isSilent_of_mem_lowerChar hd, h]

/-- Punctuation that is dropped before or after `lowerFrom` makes a difference to the small sigmas alone. -/
private theorem forall₂_lowerFrom_filter (before before' t : Text) :
    List.Forall₂ IsNear (lowerFrom before (t.filter fun c => !isSilent c))
      ((lowerFrom before' t).filter fun c => !isSilent c) := by
  induction t generalizing before before' with
  | nil => exact .nil
  | cons c rest ih =>
    rw [lowerFrom, List.filter_append]
    cases hsilent : isSilent c with
    -- silent characters have no lower case, and are dropped on both sides
    | true =>
      have hself : lowerAt before' c rest = [c] := by
        have hsigma : c ≠ 'Σ' := by
          rintro rfl
          exact absurd hsilent (by decide)
        rw [lowerAt, if_neg hsigma, lowerChar_of_isSilent hsilent]
      rw [List.filter_cons_of_neg (by simp [hsilent]), hself, List.filter_cons_of_neg (by simp [hsilent])]
      exact ih before (c :: before')
    | false =>
      rw [List.filter_cons_of_pos (by simp [hsilent]), lowerFrom]
      refine List.rel_append ?_ (ih (c :: before) (c :: before'))
      unfold lowerAt
      by_cases hsigma : c = 'Σ'
      · -- each side has its own small sigma here
        rw [if_pos hsigma, if_pos hsigma]
        generalize (meetsLetter before && !meetsLetter (rest.filter fun c => !isSilent c)) = final
        generalize (meetsLetter before' && !meetsLetter rest) = final'
        cases final <;> cases final' <;> exact .cons (by simp [IsNear, isSigma]) .nil
      · rw [if_neg hsigma, if_neg hsigma, filter_lowerChar hsilent]
        exact List.forall₂_same.2 fun d _ => .inl rfl

/-- Of two texts with the same `sigmas` only these may differ, so they do not differ at all. -/
private theorem eq_of_sigmas_eq {s t : Text} (h : List.Forall₂ IsNear s t) (hsigmas : sigmas s = sigmas t) :
    s = t := by
  induction h with
  | nil => rfl
  | @cons c d s t hnear _ ih =>
    rw [sigmas_cons c, sigmas_cons d] at hsigmas
    rcases hnear with rfl | ⟨hc, hd⟩
    · rw [ih (List.append_cancel_left hsigmas)]
    · -- both sides have a sigma here, and it is the first one of each
      have hone : ∀ e, isSigma e = true → sigmas [e] = [e] := fun e he => List.filter_cons_of_pos he
      rw [hone c hc, hone d hd] at hsigmas
      obtain ⟨hcd, hrest⟩ := List.cons_eq_cons.1 hsigmas
      rw [hcd, ih hrest]

/-- What `lowerAt` writes for a character is somewhere in `lowerFrom` of a text with it. -/
private theorem exists_lowerAt_subset (before : Text) {t : Text} {c : Char} (h : c ∈ t) :
    ∃ front back, lowerAt front c back ⊆ lowerFrom before t := by
  induction t generalizing before with
  | nil => cases h
  | cons d rest ih =>
    rcases List.mem_cons.1 h with rfl | h
    · exact ⟨before, rest, List.subset_append_left _ _⟩
    · obtain ⟨front, back, hwithin⟩ := ih (d :: before) h
      exact ⟨front, back, fun _ hd => List.mem_append_right _ (hwithin hd)⟩

/-- In a text that is an `ellipsis` but for spaces there are only dots and spaces. -/
private theorem eq_space_or_dot {t : Text} (h : withoutSpaces t = ellipsis) {c : Char} (hc : c ∈ t) :
    c = ' ' ∨ c = '.' := by
  by_cases hspace : c = ' '
  · exact .inl hspace
  · have hmem : c ∈ withoutSpaces t := List.mem_filter.2 ⟨hc, by simpa using hspace⟩
    rw [h] at hmem
    exact .inr (List.eq_of_mem_replicate (n := 3) hmem)

/-- Dots and spaces have no `lower` case, and no other characters become dots and spaces. -/
private theorem lower_of_dots {t : Text}
    (h : withoutSpaces t = ellipsis ∨ withoutSpaces (lower t) = ellipsis) :
    lower t = t := by
  refine lower_eq_self fun c hc => ?_
  rcases h with h | h
  · rcases eq_space_or_dot h hc with rfl | rfl <;> decide
  · obtain ⟨front, back, hwithin⟩ := exists_lowerAt_subset [] hc
    by_cases hsigma : c = 'Σ'
    · -- a small sigma is neither
      subst hsigma
      rcases eq_space_or_dot h (hwithin (List.mem_singleton.2 rfl)) with hd | hd
      · split at hd <;> exact absurd hd (by decide)
      · split at hd <;> exact absurd hd (by decide)
    · rw [lowerAt, if_neg hsigma] at hwithin
      obtain ⟨d, hd⟩ : ∃ d, d ∈ lowerChar c := by
        rcases lowerChar_cases c with ⟨-, hc⟩ | ⟨-, hc⟩ | ⟨-, -, m, -, hc⟩ | ⟨-, hc⟩ <;> rw [hc]
        all_goals exact ⟨_, List.mem_cons_self⟩
      rcases eq_space_or_dot h (hwithin hd) with rfl | rfl
      · rw [eq_space_of_mem_lowerChar hd]
        decide
      · have hsilent : isSilent c = true := (isSilent_of_mem_lowerChar hd).symm.trans (by decide)
        exact lowerChar_of_isSilent hsilent

/-- Without capital sigmas, punctuation makes no difference to `lower` case. -/
theorem filter_lower_of_notMem {t : Text} (h : 'Σ' ∉ t) :
    lower (t.filter fun c => !isSilent c) = (lower t).filter fun c => !isSilent c := by
  have hfilter : 'Σ' ∉ t.filter fun c => !isSilent c := fun hmem => h (List.mem_filter.1 hmem).1
  rw [lower, lower, lowerFrom_eq_flatMap [] _ hfilter, lowerFrom_eq_flatMap [] t h]
  -- the two sides now go character by character
  clear h hfilter
  induction t with
  | nil => rfl
  | cons c rest ih =>
    rw [List.flatMap_cons, List.filter_append, ← ih]
    cases hsilent : isSilent c with
    | true => simp [hsilent, lowerChar_of_isSilent hsilent]
    | false =>
      rw [List.filter_cons_of_pos (by simp [hsilent]), List.flatMap_cons, filter_lowerChar hsilent]

/-- A text has the `key` that it has in lower case just if it makes no difference to its `lower` case whether
    the punctuation is dropped before. -/
theorem key_lower_iff (folded : Bool) (t : Text) :
    key folded t = key folded (lower t) ↔
      lower (t.filter fun c => !isSilent c) = (lower t).filter fun c => !isSilent c := by
  have hlower : lower ((lower t).filter fun c => !isSilent c) = (lower t).filter fun c => !isSilent c :=
    lower_eq_self fun c hc => lowerChar_of_mem_lower (List.mem_filter.1 hc).1
  constructor
  · intro hkey
    -- the two texts can differ only in which small sigma they have where
    refine eq_of_sigmas_eq (forall₂_lowerFrom_filter [] [] t) ?_
    show sigmas (lower _) = sigmas ((lower t).filter _)
    rw [← hlower, ← sigmas_key folded, ← sigmas_key folded, hkey]
  · intro hsame
    have hbare : bareKey folded t = bareKey folded (lower t) := by
      rw [bareKey, bareKey, plainKey, plainKey, hlower, hsame]
    -- texts of dots alone have a key of their own
    by_cases hdots : withoutSpaces t = ellipsis ∨ withoutSpaces (lower t) = ellipsis
    · rw [lower_of_dots hdots]
    · rw [not_or] at hdots
      rw [key, key, if_neg fun h => hdots.1 h.2, if_neg fun h => hdots.2 h.2, hbare]

end BlockScript.Text
