import BlockScript.Text.Key

/-!
# Keys of the beginning of a text

Every step on the way to a key goes through a text from left to right, and what it makes of the
beginning of a text stays when more is appended. The one exception is the capital sigma, which looks at
the letter behind it. Main statement: `bareKey_isPrefix_append`, the key of the beginning of a text is the
beginning of its key.
-/

namespace BlockScript.Text

/-- Text without a capital sigma is lowered without regard to what follows. -/
theorem lowerFrom_append (before s t : Text) (h : 'Σ' ∉ s) :
    lowerFrom before (s ++ t) = s.flatMap lowerChar ++ lowerFrom (s.reverse ++ before) t := by
  induction s generalizing before with
  | nil => rfl
  | cons c rest ih =>
    rw [List.mem_cons, not_or] at h
    simp [lowerFrom, lowerAt, Ne.symm h.1, ih _ h.2]

theorem lower_isPrefix_append {s : Text} (h : 'Σ' ∉ s) (t : Text) : lower s <+: lower (s ++ t) := by
  have hs := lowerFrom_append [] s [] h
  rw [List.append_nil] at hs
  rw [lower, lower, hs, lowerFrom_append [] s t h]
  simp [lowerFrom]

theorem squeezeAfter_isPrefix_append (gap : Bool) (s t : Text) :
    squeezeAfter gap s <+: squeezeAfter gap (s ++ t) := by
  induction s generalizing gap with
  | nil => simp [squeezeAfter]
  | cons c rest ih =>
    simp only [List.cons_append, squeezeAfter]
    by_cases hg : isGap c <;> cases gap <;> simp [hg, ih]

theorem trimRight_isPrefix_self (t : Text) : trimRight t <+: t := by
  have hsuffix := List.dropWhile_suffix (p := isBlank) (l := t.reverse)
  have := List.reverse_prefix.2 hsuffix
  rwa [List.reverse_reverse] at this

/-- What `trimRight` trims at the end of the beginning of a text may stand in the middle of the whole. -/
theorem trimRight_isPrefix_append (s t : Text) : trimRight s <+: trimRight (s ++ t) := by
  unfold trimRight
  rw [List.reverse_append, List.dropWhile_append]
  split
  · exact List.prefix_rfl
  · rw [List.reverse_append, List.reverse_reverse]
    exact (trimRight_isPrefix_self s).trans (List.prefix_append _ _)

theorem trim_isPrefix_append (s t : Text) : trim s <+: trim (s ++ t) := by
  unfold trim trimLeft
  rw [List.dropWhile_append]
  split
  next h => simp [List.isEmpty_iff.1 h, trimRight]
  next => exact trimRight_isPrefix_append _ _

theorem fold_isPrefix_fold {s t : Text} (h : s <+: t) : fold s <+: fold t := by
  obtain ⟨rest, rfl⟩ := h
  rw [fold_append]
  exact List.prefix_append _ _

theorem plainKey_isPrefix_append {s : Text} (h : 'Σ' ∉ s) (t : Text) : plainKey s <+: plainKey (s ++ t) := by
  have hfilter : 'Σ' ∉ s.filter fun c => !isSilent c := fun hm => h (List.mem_filter.1 hm).1
  obtain ⟨front, hlower⟩ := lower_isPrefix_append hfilter (t.filter fun c => !isSilent c)
  obtain ⟨rest, hsqueeze⟩ :=
    squeezeAfter_isPrefix_append false (lower (s.filter fun c => !isSilent c)) front
  rw [plainKey, plainKey, List.filter_append, ← hlower, squeeze, squeeze, ← hsqueeze]
  exact trim_isPrefix_append _ _

/-- The `bareKey` of the beginning of a text is the beginning of its key. -/
theorem bareKey_isPrefix_append (folded : Bool) {s : Text} (h : 'Σ' ∉ s) (t : Text) :
    bareKey folded s <+: bareKey folded (s ++ t) := by
  have hplain := plainKey_isPrefix_append h t
  cases folded
  · simpa [bareKey] using hplain
  · simpa [bareKey] using fold_isPrefix_fold hplain

/-- A text that has a `key` without regard to the ellipsis has that key. -/
theorem key_eq_bareKey {folded : Bool} {t : Text} (h : bareKey folded t ≠ []) :
    key folded t = bareKey folded t := by
  simp [key, h]

end BlockScript.Text
