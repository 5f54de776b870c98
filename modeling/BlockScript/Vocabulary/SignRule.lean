import BlockScript.Text.KeyPrefix
import BlockScript.Vocabulary.Basic

/-!
# The rule for signs in the text of a block

The rule of a vocabulary looks at the beginning of a long text alone. That is a shortcut only:
`signRule_eq_takesSigns` says that the rule is what it is meant to be.
-/

namespace BlockScript.Vocabulary

/-- A list that is not longer than the beginning of another starts that one if it starts the
beginning. -/
theorem isPrefixOf_eq_of_length_le {p k l : Text} (h : k <+: l) (hlength : p.length ≤ k.length) :
    p.isPrefixOf k = p.isPrefixOf l := by
  rw [Bool.eq_iff_iff, List.isPrefixOf_iff_prefix, List.isPrefixOf_iff_prefix]
  exact ⟨fun hp => hp.trans h, fun hp => List.prefix_of_prefix_length_le hp h hlength⟩

/-- What shows at the beginning of a text is so for `takesSigns` of the whole. -/
theorem takesSigns_append (v : Vocabulary) {head k : Text} (h : v.tellingKey? head = some k)
    (rest : Text) : v.takesSigns (head ++ rest) = v.startsWithPhrase k := by
  simp only [tellingKey?, Option.ite_none_right_eq_some, Bool.and_eq_true, Bool.not_eq_true',
    List.isEmpty_eq_false_iff, List.all_eq_true, decide_eq_true_eq, List.contains_eq_mem,
    decide_eq_false_iff_not, Option.some.injEq] at h
  obtain ⟨⟨⟨hsigma, hkey⟩, hlength⟩, rfl⟩ := h
  -- what follows cannot change as much of the key as there is
  have hprefix := Text.bareKey_isPrefix_append v.folded hsigma rest
  have hwhole : Text.bareKey v.folded (head ++ rest) ≠ [] := fun he =>
    hkey (List.prefix_nil.1 (he ▸ hprefix))
  simp only [takesSigns, startsWithPhrase, key, Text.key_eq_bareKey hwhole]
  rw [Bool.eq_iff_iff, List.any_eq_true, List.any_eq_true]
  constructor
  · rintro ⟨phrase, hmem, hp⟩
    exact ⟨phrase, hmem, (isPrefixOf_eq_of_length_le hprefix (hlength phrase hmem)).trans hp⟩
  · rintro ⟨phrase, hmem, hp⟩
    exact ⟨phrase, hmem, (isPrefixOf_eq_of_length_le hprefix (hlength phrase hmem)).symm.trans hp⟩

/-- The `signRule` asks whether what is in front of a sign `takesSigns`, as the start of a block with signs in
    its text. -/
theorem signRule_eq_takesSigns (v : Vocabulary) (t : Text) (n : Nat) :
    (v.signRule t).holds n = v.takesSigns (t.take n) := by
  simp only [signRule]
  split
  next answer hshown =>
    obtain ⟨k, hk, rfl⟩ := Option.map_eq_some_iff.1 hshown
    split
    next => rfl
    next hreach =>
      -- beyond the reach the text is a telling head and something behind it
      have hsplit : t.take n = t.take v.signReach ++ (t.take n).drop v.signReach := by
        conv => lhs; rw [← List.take_append_drop v.signReach (t.take n)]
        rw [List.take_take, Nat.min_eq_left (by omega)]
      rw [hsplit, v.takesSigns_append hk]
  next => rfl

end BlockScript.Vocabulary
