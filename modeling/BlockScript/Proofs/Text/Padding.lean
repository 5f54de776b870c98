import BlockScript.Proofs.Text.Key

/-!
# Padding as a closure

A text is padded if each of its slots has a space on both sides, the ends of the text aside. Padding puts a
single space wherever one is missing, and changes nothing else. What a slot lacks is seen from two characters
that stand side by side, so padding is described by the pairs of neighbours in a text: between two of them
there comes a space if one is a slot and the other one is no space, and nothing otherwise.

## Key results

- `padSlots_cons_cons`: what padding puts between two neighbours
- `isPadded_cons_cons`: a text is padded if no two neighbours lack a space
- `padSlots_closure`: padding gives the one padded text that is made by putting in missing spaces
-/

namespace BlockScript.Text

/-! ## Neighbours -/

/-- Whether there is a slot among two neighbours that lacks a space on the side of the other one. -/
def lacksSpace (c d : Char) : Bool := (c == '_' && d != ' ') || (d == '_' && c != ' ')

/-- What padding puts between two neighbours: a space if it `lacksSpace`. -/
def gapBetween (c d : Char) : Text := if lacksSpace c d then [' '] else []

/-- The space in front of a slot, and otherwise nothing, is all of `padBefore` that depends on the character
    before. -/
private theorem padBefore_cons (previous c : Char) (rest : Text) :
    padBefore previous (c :: rest) =
      (if c = '_' ∧ previous ≠ ' ' then [' '] else []) ++ padBefore ' ' (c :: rest) := by
  have hfirst : padBefore ' ' (c :: rest) = c :: padBefore c rest := by simp [padBefore]
  rw [hfirst, padBefore]
  split <;> rfl

/-- `padSlots` looks at two neighbours at a time. -/
theorem padSlots_cons_cons (c d : Char) (rest : Text) :
    padSlots (c :: d :: rest) = c :: (gapBetween c d ++ padSlots (d :: rest)) := by
  have hfirst : padBefore ' ' (c :: d :: rest) = c :: padBefore c (d :: rest) := by simp [padBefore]
  have hsecond : padBefore ' ' (d :: rest) = d :: padBefore d rest := by simp [padBefore]
  rw [padSlots, hfirst, padBefore_cons, padSlots]
  by_cases hbefore : d = '_' ∧ c ≠ ' '
  · -- the space in front of the second one is also a space behind the first one
    have hspace : ∀ u, padAfter (' ' :: u) = ' ' :: padAfter u := fun u => by simp [padAfter]
    have hgap : gapBetween c d = [' '] := by simp [gapBetween, lacksSpace, hbefore]
    rw [if_pos hbefore, hgap, List.singleton_append, padAfter, if_neg (by simp [startsFilled]), hspace]
    rfl
  · -- there is no space in front of the second one, so one behind the first is left to decide
    rw [if_neg hbefore, List.nil_append, padAfter, hsecond]
    by_cases hafter : c = '_' ∧ d ≠ ' '
    · have hgap : gapBetween c d = [' '] := by simp [gapBetween, lacksSpace, hafter]
      rw [if_pos (by simpa [startsFilled] using hafter), hgap]
      rfl
    · have hgap : gapBetween c d = [] := by
        rw [gapBetween, if_neg]
        simp only [lacksSpace, Bool.or_eq_true, Bool.and_eq_true, beq_iff_eq, bne_iff_ne]
        rintro (h | h)
        · exact hafter h
        · exact hbefore h
      rw [if_neg (by simpa [startsFilled] using hafter), hgap]
      rfl

/-- There is nothing to put in next to a single character. -/
private theorem padSlots_singleton (c : Char) : padSlots [c] = [c] := by
  simp [padSlots, padBefore, padAfter, startsFilled]

/-! ## Padded texts -/

/-- Whether every slot of a text is at the start or behind a space, and at the end or in front of a space. -/
def IsPadded (t : Text) : Prop :=
  ∀ front back, t = front ++ '_' :: back →
    (front = [] ∨ front.getLast? = some ' ') ∧ (back = [] ∨ back.head? = some ' ')

/-- The empty text `IsPadded`. -/
private theorem isPadded_nil : IsPadded [] := fun front back h => by simp at h

/-- A single character `IsPadded`, even a slot: it stands at both ends. -/
private theorem isPadded_singleton (c : Char) : IsPadded [c] := by
  intro front back h
  cases front with
  | nil =>
    obtain ⟨-, rfl⟩ := List.cons.inj h
    exact ⟨.inl rfl, .inl rfl⟩
  | cons d front => simp at h

/-- A text `IsPadded` if no two neighbours lack a space. -/
theorem isPadded_cons_cons {c d : Char} {rest : Text} :
    IsPadded (c :: d :: rest) ↔ lacksSpace c d = false ∧ IsPadded (d :: rest) := by
  constructor
  · intro h
    refine ⟨?_, fun front back hsplit => ?_⟩
    · -- both of the two could be a slot that lacks a space
      have hfirst : c = '_' → d = ' ' := fun hc => by
        have hback := (h [] (d :: rest) (by rw [hc]; rfl)).2
        simpa using hback
      have hsecond : d = '_' → c = ' ' := fun hd => by
        have hfront := (h [c] rest (by rw [hd]; rfl)).1
        simpa using hfront
      simp only [lacksSpace, Bool.or_eq_false_iff, Bool.and_eq_false_iff, beq_eq_false_iff_ne,
        bne_eq_false_iff_eq]
      exact ⟨Classical.or_iff_not_imp_left.2 fun hc => hfirst (not_not.1 hc),
        Classical.or_iff_not_imp_left.2 fun hd => hsecond (not_not.1 hd)⟩
    · obtain ⟨hfront, hback⟩ := h (c :: front) back (by rw [hsplit]; rfl)
      refine ⟨?_, hback⟩
      -- the slot is the first character, the second, or a later one
      cases front with
      | nil => exact .inl rfl
      | cons e front => exact .inr (by simpa using hfront)
  · rintro ⟨hlacks, hrest⟩ front back hsplit
    simp only [lacksSpace, Bool.or_eq_false_iff, Bool.and_eq_false_iff, beq_eq_false_iff_ne,
      bne_eq_false_iff_eq] at hlacks
    obtain ⟨hfirst, hsecond⟩ := hlacks
    cases front with
    | nil =>
      obtain ⟨rfl, rfl⟩ := List.cons.inj hsplit
      exact ⟨.inl rfl, .inr (by simpa using hfirst)⟩
    | cons e front =>
      obtain ⟨rfl, hlater⟩ := List.cons.inj hsplit
      obtain ⟨hfront, hback⟩ := hrest front back hlater
      refine ⟨.inr ?_, hback⟩
      cases front with
      | nil =>
        have hd : d = '_' := (List.cons.inj hlater).1
        have hc : c = ' ' := by simpa [hd] using hsecond
        rw [hc]
        rfl
      | cons e' front => simpa using hfront

/-! ## Putting in what is missing -/

/-- A text and the same text with single spaces put between neighbours that lack one. -/
inductive Padding : Text → Text → Prop where
  | nil : Padding [] []
  | singleton (c : Char) : Padding [c] [c]
  | keep (c : Char) {d : Char} {t u : Text} (h : Padding (d :: t) u) : Padding (c :: d :: t) (c :: u)
  | space {c d : Char} {t u : Text} (hlacks : lacksSpace c d = true) (h : Padding (d :: t) u) :
      Padding (c :: d :: t) (c :: ' ' :: u)

/-- A text with nothing put in is a `Padding` of itself. -/
theorem Padding.refl (t : Text) : Padding t t := by
  induction t with
  | nil => exact .nil
  | cons c t ih =>
    cases t with
    | nil => exact .singleton c
    | cons d t => exact .keep c ih

/-- `Padding` puts nothing in front of a text. -/
theorem Padding.exists_cons {c : Char} {t u : Text} (h : Padding (c :: t) u) : ∃ v, u = c :: v := by
  cases h with
  | singleton => exact ⟨_, rfl⟩
  | keep => exact ⟨_, rfl⟩
  | space => exact ⟨_, rfl⟩

/-- What `padSlots` gives is a `Padding` of the text. -/
theorem padding_padSlots (t : Text) : Padding t (padSlots t) := by
  induction t with
  | nil => exact .nil
  | cons c t ih =>
    -- what is put in depends on two neighbouring characters
    cases t with
    | nil =>
      rw [padSlots_singleton]
      exact .singleton c
    | cons d t =>
      rw [padSlots_cons_cons, gapBetween]
      split
      · rename_i hlacks
        exact .space hlacks ih
      · exact .keep c ih

/-- And it `IsPadded`. -/
theorem isPadded_padSlots (t : Text) : IsPadded (padSlots t) := by
  induction t with
  | nil => exact isPadded_nil
  | cons c t ih =>
    cases t with
    | nil =>
      rw [padSlots_singleton]
      exact isPadded_singleton c
    | cons d t =>
      -- the first character stays the first one, so there are the same neighbours as before
      obtain ⟨u, hu⟩ := (padding_padSlots (d :: t)).exists_cons
      rw [hu] at ih
      rw [padSlots_cons_cons, hu, gapBetween]
      split
      · -- a space lacks nothing, whatever its neighbours are
        exact isPadded_cons_cons.2
          ⟨by simp [lacksSpace], isPadded_cons_cons.2 ⟨by simp [lacksSpace], ih⟩⟩
      · rename_i hlacks
        exact isPadded_cons_cons.2 ⟨by simpa using hlacks, ih⟩

/-- A `Padding` that `IsPadded` is what `padSlots` gives. -/
theorem Padding.eq_padSlots {t u : Text} (h : Padding t u) (hu : IsPadded u) : u = padSlots t := by
  induction h with
  | nil => rfl
  | singleton c => exact (padSlots_singleton c).symm
  -- the neighbours lack nothing, so no space is put in
  | @keep c d t u h ih =>
    obtain ⟨v, rfl⟩ := h.exists_cons
    obtain ⟨hlacks, hu⟩ := isPadded_cons_cons.1 hu
    rw [padSlots_cons_cons, gapBetween, if_neg (by simp [hlacks]), List.nil_append, ← ih hu]
  -- they lack a space, so one is put in
  | @space c d t u hlacks h ih =>
    obtain ⟨v, rfl⟩ := h.exists_cons
    have hu := (isPadded_cons_cons.1 (isPadded_cons_cons.1 hu).2).2
    rw [padSlots_cons_cons, gapBetween, if_pos hlacks, List.singleton_append, ← ih hu]

/-- `padSlots` gives the one text that `IsPadded` and that is a `Padding` of the given one: made of it by
    putting single spaces where a slot lacks one. It keeps all other characters in their order, leaves a text
    that is padded as it is, and does so with its own results, also where slots stand side by side. -/
theorem padSlots_closure (t : Text) :
    IsPadded (padSlots t) ∧ Padding t (padSlots t) ∧
      (∀ u, Padding t u → IsPadded u → u = padSlots t) ∧
      withoutSpaces (padSlots t) = withoutSpaces t ∧ (padSlots t = t ↔ IsPadded t) ∧
      padSlots (padSlots t) = padSlots t := by
  refine ⟨isPadded_padSlots t, padding_padSlots t, fun u h hu => h.eq_padSlots hu,
    withoutSpaces_padSlots t, ⟨fun h => ?_, fun ht => ?_⟩, padSlots_padSlots t⟩
  · rw [← h]
    exact isPadded_padSlots t
  · exact ((Padding.refl t).eq_padSlots ht).symm

example : padSlots "a__b".toList = "a _ _ b".toList := by decide

end BlockScript.Text
