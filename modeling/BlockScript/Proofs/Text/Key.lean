import BlockScript.Proofs.Text.Lines
import BlockScript.Text.Key

/-!
# What a key and a padded spec keep

A key leaves out, rewrites and puts together characters. A small ASCII letter or a bracket goes through
all of that unchanged, so a key that has none of a kind comes from a text that has none. Padding puts in
spaces and nothing else, so it moves no two characters together.

## Key results

- `count_le_key`, `mem_key_of_mem`: which characters are in a key if they are in the text
- `padSlots_eq_self`: which texts padding leaves alone
- `exists_padSlots_append`: text behind a spec is not padded
- `padSlots_padSlots`: padding twice is padding once
- `isPrefix_of_isPrefix_padSlots`, `isInfix_of_isInfix_padSlots`: what stands together in a padded spec
  stands together in the spec
-/

namespace BlockScript.Text

/-! ## Characters that stay in a key -/

/-- Whether no pass on the way to a `key` has to do with a character. -/
def isKept (c : Char) : Bool :=
  c.toNat < 0x80 && c.toLower == c && !isSilent c && !isGap c && !isBlank c

/-- `lowerFrom` keeps a small ASCII letter, and may bring in more of them. -/
private theorem count_le_lowerFrom {c : Char} (hascii : c.toNat < 0x80) (hlower : c.toLower = c)
    (before t : Text) : t.count c ≤ (lowerFrom before t).count c := by
  -- only the capital sigma is looked at together with its neighbours
  have hsigma : c ≠ 'Σ' := by
    rintro rfl
    exact absurd hascii (by decide)
  induction t generalizing before with
  | nil => simp
  | cons d rest ih =>
    have hrest := ih (d :: before)
    rw [lowerFrom, List.count_append]
    by_cases hd : d = c
    · subst hd
      rw [lowerAt, if_neg hsigma, lowerChar, if_pos hascii, hlower, List.count_cons_self,
        List.count_singleton_self]
      omega
    · rw [List.count_cons_of_ne hd]
      omega

/-- `squeezeAfter` drops spaces and tabs and nothing else. -/
private theorem count_le_squeezeAfter {c : Char} (hgap : isGap c = false) (afterGap : Bool) (t : Text) :
    t.count c ≤ (squeezeAfter afterGap t).count c := by
  induction t generalizing afterGap with
  | nil => simp
  | cons d rest ih =>
    unfold squeezeAfter
    split
    · rename_i hd
      -- a gap is written as one space or not at all, and the character is no gap
      have hne : d ≠ c := by
        rintro rfl
        exact absurd hd (by simp [hgap])
      rw [List.count_cons_of_ne hne]
      split
      · exact ih true
      · exact (ih true).trans List.count_le_count_cons
    · rw [List.count_cons, List.count_cons]
      exact Nat.add_le_add_right (ih false) _

/-- `trimRight` drops blanks and nothing else. -/
theorem count_trimRight {c : Char} (hblank : isBlank c = false) (t : Text) :
    (trimRight t).count c = t.count c := by
  obtain ⟨trail, ht, htrail⟩ := exists_eq_trimRight t
  -- what is dropped is a trail of blanks
  have hnone : trail.count c = 0 :=
    List.count_eq_zero.2 fun hc => absurd (htrail c hc) (by simp [hblank])
  conv => rhs; rw [ht, List.count_append, hnone, Nat.add_zero]

/-- So does `trim`. -/
theorem count_trim {c : Char} (hblank : isBlank c = false) (t : Text) : (trim t).count c = t.count c := by
  have hleft : (trimLeft t).count c = t.count c := by
    have hnone : (t.takeWhile isBlank).count c = 0 :=
      List.count_eq_zero.2 fun hc => absurd (List.mem_takeWhile_imp hc) (by simp [hblank])
    conv => rhs; rw [← List.takeWhile_append_dropWhile (p := isBlank) (l := t), List.count_append, hnone,
      Nat.zero_add]
    rfl
  rw [trim, count_trimRight hblank, hleft]

/-- `fold` keeps all ASCII characters, and may bring in more of them. -/
private theorem count_le_fold {c : Char} (hascii : c.toNat < 0x80) (t : Text) :
    t.count c ≤ (fold t).count c := by
  induction t with
  | nil => simp
  | cons d rest ih =>
    rw [← List.singleton_append, fold_append, List.count_append, List.count_append]
    by_cases hd : d = c
    · -- a single ASCII character is folded to itself
      have hself : fold [d] = [d] := by
        refine fold_eq_self_of_ascii [d] fun e he => ?_
        rw [List.mem_singleton.1 he, hd]
        exact hascii
      rw [hself]
      omega
    · have hnone : [d].count c = 0 := by simp [hd]
      omega

/-- A character with which no pass has to do is in the `key` as often as it is in the text, or more often. -/
theorem count_le_key (folded : Bool) {c : Char} (hkept : isKept c = true) (t : Text) :
    t.count c ≤ (key folded t).count c := by
  simp only [isKept, Bool.and_eq_true, decide_eq_true_eq, beq_iff_eq, Bool.not_eq_true'] at hkept
  obtain ⟨⟨⟨⟨hascii, hlower⟩, hsilent⟩, hgap⟩, hblank⟩ := hkept
  -- no pass drops the character: it is not silent, no gap, no blank and its own lower case
  have hplain : t.count c ≤ (plainKey t).count c := by
    have hfilter : (t.filter fun c => !isSilent c).count c = t.count c :=
      List.count_filter (by simp [hsilent])
    rw [plainKey, count_trim hblank, ← hfilter]
    exact (count_le_lowerFrom hascii hlower [] _).trans (count_le_squeezeAfter hgap false _)
  -- folding comes last, and may be left out
  have hbare : t.count c ≤ (bareKey folded t).count c := by
    unfold bareKey
    split
    · exact hplain.trans (count_le_fold hascii _)
    · exact hplain
  rw [key]
  split
  · -- the ellipsis is the key of a text that has none of its own
    rename_i hnone
    rw [hnone.1] at hbare
    exact hbare.trans (Nat.zero_le _)
  · exact hbare

/-- So it is in the `key` of a text in which it is. -/
theorem mem_key_of_mem (folded : Bool) {c : Char} (hkept : isKept c = true) {t : Text}
    (h : c ∈ t) : c ∈ key folded t :=
  List.count_pos_iff.1 ((List.count_pos_iff.2 h).trans_le (count_le_key folded hkept t))

/-! ## Padding -/

/-- `Spaced t u`: `u` is `t` with spaces put in. -/
inductive Spaced : Text → Text → Prop where
  | nil : Spaced [] []
  | keep {t u : Text} (c : Char) (h : Spaced t u) : Spaced (c :: t) (c :: u)
  | space {t u : Text} (h : Spaced t u) : Spaced t (' ' :: u)

/-- `padBefore` puts in spaces and nothing else. -/
theorem spaced_padBefore (previous : Char) (t : Text) : Spaced t (padBefore previous t) := by
  induction t generalizing previous with
  | nil => exact .nil
  | cons c rest ih =>
    unfold padBefore
    split
    · exact .space (.keep c (ih c))
    · exact .keep c (ih c)

/-- So does `padAfter`. -/
theorem spaced_padAfter (t : Text) : Spaced t (padAfter t) := by
  induction t with
  | nil => exact .nil
  | cons c rest ih =>
    unfold padAfter
    split
    · exact .keep c (.space ih)
    · exact .keep c ih

/-- `padBefore` passes over text without underscores, and remembers its last character. -/
theorem padBefore_append {s : Text} (hs : '_' ∉ s) (previous : Char) (t : Text) :
    padBefore previous (s ++ t) = s ++ padBefore (s.getLast?.getD previous) t := by
  induction s generalizing previous with
  | nil => rfl
  | cons c rest ih =>
    rw [List.mem_cons, not_or] at hs
    rw [List.cons_append, padBefore, if_neg (fun hc => hs.1 hc.1.symm), ih hs.2, List.getLast?_cons]
    rfl

/-- `padAfter` passes over text without underscores. -/
theorem padAfter_append {s : Text} (hs : '_' ∉ s) (t : Text) : padAfter (s ++ t) = s ++ padAfter t := by
  induction s with
  | nil => rfl
  | cons c rest ih =>
    rw [List.mem_cons, not_or] at hs
    rw [List.cons_append, padAfter, if_neg (fun hc => hs.1 hc.1.symm), ih hs.2]
    rfl

/-- So `padBefore` leaves such a text alone. -/
private theorem padBefore_of_not_mem {t : Text} (ht : '_' ∉ t) (previous : Char) :
    padBefore previous t = t := by
  have hself := padBefore_append ht previous []
  rwa [List.append_nil, padBefore, List.append_nil] at hself

/-- And `padAfter` does. -/
private theorem padAfter_of_not_mem {t : Text} (ht : '_' ∉ t) : padAfter t = t := by
  have hself := padAfter_append ht []
  rwa [List.append_nil, padAfter, List.append_nil] at hself

/-- `padSlots` leaves a text without underscores alone. -/
theorem padSlots_eq_self {t : Text} (h : '_' ∉ t) : padSlots t = t := by
  rw [padSlots, padBefore_of_not_mem h, padAfter_of_not_mem h]

/-- Text without underscores behind a text makes no difference to what `padBefore` makes of this. -/
private theorem padBefore_append_of_not_mem (previous : Char) (s : Text) {t : Text} (ht : '_' ∉ t) :
    padBefore previous (s ++ t) = padBefore previous s ++ t := by
  induction s generalizing previous with
  | nil => exact padBefore_of_not_mem ht previous
  | cons c s ih =>
    rw [List.cons_append, padBefore, padBefore, ih]
    split <;> rfl

/-- To `padAfter` it makes one: an underscore that was the last character can be given a space by what follows
    it. -/
private theorem exists_padAfter_append (s : Text) {t : Text} (ht : '_' ∉ t) :
    ∃ n, padAfter (s ++ t) = padAfter s ++ (List.replicate n ' ' ++ t) := by
  induction s with
  | nil => exact ⟨0, padAfter_of_not_mem ht⟩
  | cons c s ih =>
    cases s with
    | nil =>
      -- the last character of the first text may be a slot, and gets a space if something follows
      have hlone : padAfter [c] = [c] := by simp [padAfter, startsFilled]
      rw [List.singleton_append, padAfter, padAfter_of_not_mem ht, hlone]
      split
      · exact ⟨1, rfl⟩
      · exact ⟨0, rfl⟩
    | cons d s =>
      obtain ⟨n, hn⟩ := ih
      -- any earlier one is followed by the same character as before
      have hfilled : startsFilled (d :: s ++ t) = startsFilled (d :: s) := rfl
      -- what follows the first character begins as it did before
      refine ⟨n, ?_⟩
      rw [List.cons_append, padAfter, padAfter, hn, hfilled]
      by_cases hslot : c = '_' ∧ startsFilled (d :: s) = true
      · rw [if_pos hslot, if_pos hslot, List.cons_append, List.cons_append]
      · rw [if_neg hslot, if_neg hslot, List.cons_append]

/-- `padSlots` does nothing to text without underscores behind a spec, but for a space between the two. -/
theorem exists_padSlots_append (s : Text) {t : Text} (ht : '_' ∉ t) :
    ∃ n, padSlots (s ++ t) = padSlots s ++ (List.replicate n ' ' ++ t) := by
  rw [padSlots, padBefore_append_of_not_mem _ s ht]
  exact exists_padAfter_append _ ht

/-- `padBefore` keeps the last character. -/
private theorem getLast?_padBefore (previous : Char) (t : Text) :
    (padBefore previous t).getLast? = t.getLast? := by
  induction t generalizing previous with
  | nil => rfl
  | cons c t ih =>
    unfold padBefore
    split
    · rw [List.getLast?_cons_cons, List.getLast?_cons, ih, List.getLast?_cons]
    · rw [List.getLast?_cons, ih, List.getLast?_cons]

/-- So does `padAfter`. -/
private theorem getLast?_padAfter (t : Text) : (padAfter t).getLast? = t.getLast? := by
  induction t with
  | nil => rfl
  | cons c t ih =>
    unfold padAfter
    split
    · -- a space is put behind an underscore only where something follows
      rename_i hslot
      have hfilled : t ≠ [] := by
        rintro rfl
        exact absurd hslot.2 (by decide)
      obtain ⟨last, hlast⟩ := Option.ne_none_iff_exists'.1 (mt List.getLast?_eq_none_iff.1 hfilled)
      rw [List.getLast?_cons_cons, List.getLast?_cons, ih, List.getLast?_cons, hlast]
      rfl
    · rw [List.getLast?_cons, ih, List.getLast?_cons]

/-- So `padSlots` puts nothing behind a text. -/
theorem getLast?_padSlots (t : Text) : (padSlots t).getLast? = t.getLast? := by
  rw [padSlots, getLast?_padAfter, getLast?_padBefore]

/-- Characters without a space at the start of a `Spaced` text are there before spaces are put in. -/
private theorem Spaced.isPrefix {t u : Text} (h : Spaced t u) {p : Text} (hp : ' ' ∉ p) (hu : p <+: u) :
    p <+: t := by
  induction h generalizing p with
  | nil => exact hu
  | keep c h ih =>
    cases p with
    | nil => exact List.nil_prefix
    | cons d p =>
      obtain ⟨rfl, hrest⟩ := List.cons_prefix_cons.1 hu
      exact List.cons_prefix_cons.2 ⟨rfl, ih (fun hm => hp (List.mem_cons_of_mem _ hm)) hrest⟩
  -- a text without spaces cannot reach behind one that has been put in
  | space h ih =>
    cases p with
    | nil => exact List.nil_prefix
    | cons d p =>
      obtain ⟨rfl, -⟩ := List.cons_prefix_cons.1 hu
      exact absurd List.mem_cons_self hp

/-- Where spaces are put in by `Spaced`, no characters come together that have not been together. -/
theorem Spaced.isInfix {t u : Text} (h : Spaced t u) {p : Text} (hp : ' ' ∉ p) (hu : p <:+: u) :
    p <:+: t := by
  induction h with
  | nil => exact hu
  | keep c h ih =>
    rcases List.infix_cons_iff.1 hu with hu | hu
    · exact ((Spaced.keep c h).isPrefix hp hu).isInfix
    · exact List.infix_cons (ih hu)
  | space h ih =>
    rcases List.infix_cons_iff.1 hu with hu | hu
    · exact ((Spaced.space h).isPrefix hp hu).isInfix
    · exact ih hu

/-- Where spaces are put in, no character is lost. -/
private theorem Spaced.mem {t u : Text} (h : Spaced t u) {c : Char} (hc : c ∈ t) : c ∈ u := by
  induction h with
  | nil => exact hc
  | keep d h ih =>
    rcases List.mem_cons.1 hc with rfl | hc
    · exact List.mem_cons_self
    · exact List.mem_cons_of_mem _ (ih hc)
  | space h ih => exact List.mem_cons_of_mem _ (ih hc)

/-- The spaces that are put in by `Spaced` are all that is counted anew. -/
theorem Spaced.count {t u : Text} (h : Spaced t u) {c : Char} (hc : c ≠ ' ') : u.count c = t.count c := by
  induction h with
  | nil => rfl
  | keep d _ ih => rw [List.count_cons, List.count_cons, ih]
  | space _ ih => rw [List.count_cons_of_ne hc.symm, ih]

/-- So `padSlots` keeps the number of any other character. -/
theorem count_padSlots {c : Char} (hc : c ≠ ' ') (t : Text) : (padSlots t).count c = t.count c :=
  ((spaced_padAfter _).count hc).trans ((spaced_padBefore ' ' t).count hc)

/-- `padSlots` loses no character. -/
theorem mem_padSlots_of_mem {t : Text} {c : Char} (h : c ∈ t) : c ∈ padSlots t :=
  (spaced_padAfter _).mem ((spaced_padBefore ' ' t).mem h)

/-- What `padSlots` leaves at the start of a text, without a space, was there before. -/
theorem isPrefix_of_isPrefix_padSlots {t p : Text} (hp : ' ' ∉ p) (h : p <+: padSlots t) :
    p <+: t :=
  (spaced_padBefore ' ' t).isPrefix hp ((spaced_padAfter _).isPrefix hp h)

/-- What is anywhere in a text after `padSlots`, without a blank, was in it before. -/
theorem isInfix_of_isInfix_padSlots {t p : Text} (hp : ' ' ∉ p) (h : p <:+: padSlots t) :
    p <:+: t :=
  (spaced_padBefore ' ' t).isInfix hp ((spaced_padAfter _).isInfix hp h)

/-! ## Padding twice -/

@[simp] theorem head?_padAfter (t : Text) : (padAfter t).head? = t.head? := by
  cases t with
  | nil => rfl
  | cons c rest =>
    unfold padAfter
    split <;> rfl

theorem startsFilled_eq (t : Text) : startsFilled t = t.head?.any (· ≠ ' ') := by
  cases t <;> rfl

/-- `padAfter` does not put spaces behind underscores twice. -/
private theorem padAfter_padAfter (t : Text) : padAfter (padAfter t) = padAfter t := by
  induction t with
  | nil => rfl
  | cons c rest ih =>
    -- behind an underscore there is a space by now, so the second time it is not filled
    by_cases hslot : c = '_' ∧ startsFilled rest = true
    · have hspace : padAfter (' ' :: padAfter rest) = ' ' :: padAfter rest := by
        rw [padAfter, if_neg (by simp), ih]
      rw [padAfter, if_pos hslot, padAfter, if_neg (by simp [startsFilled]), hspace]
    · rw [padAfter, if_neg hslot, padAfter, startsFilled_eq, head?_padAfter, ← startsFilled_eq,
        if_neg hslot, ih]

/-- The character in front makes a difference to `padBefore` only at an underscore. -/
private theorem padBefore_congr {t : Text} (h : t.head? ≠ some '_') (previous previous' : Char) :
    padBefore previous t = padBefore previous' t := by
  cases t with
  | nil => rfl
  | cons c rest =>
    have hc : c ≠ '_' := fun hc => h (by rw [hc]; rfl)
    rw [padBefore, padBefore, if_neg (fun hslot => hc hslot.1), if_neg (fun hslot => hc hslot.1)]

/-- `padBefore` has nothing to do after both. -/
private theorem padBefore_padAfter_padBefore (previous : Char) (t : Text) :
    padBefore previous (padAfter (padBefore previous t)) = padAfter (padBefore previous t) := by
  -- what follows a character is padded already
  have hcons : ∀ (previous c : Char) (rest : Text), (c = '_' → previous = ' ') →
      padBefore c (padAfter (padBefore c rest)) = padAfter (padBefore c rest) →
      padBefore previous (padAfter (c :: padBefore c rest)) = padAfter (c :: padBefore c rest) := by
    intro previous c rest hslot hrest
    have hfirst : ∀ u, padBefore previous (c :: u) = c :: padBefore c u := fun u => by
      rw [padBefore, if_neg]
      exact fun h => h.2 (hslot h.1)
    rw [padAfter]
    -- an underscore that `padBefore` has moved has its space, and any other character is left alone
    split
    · rename_i hfilled
      obtain ⟨rfl, hfilled⟩ := hfilled
      have hhead : (padAfter (padBefore '_' rest)).head? ≠ some '_' := by
        rw [head?_padAfter]
        intro hhead
        -- a second underscore has got a space in front
        cases rest with
        | nil => cases hhead
        | cons d rest =>
          unfold padBefore at hhead
          split at hhead
          · cases hhead
          · rename_i hd
            exact hd ⟨Option.some.inj hhead, by decide⟩
      have hspace : padBefore '_' (' ' :: padAfter (padBefore '_' rest)) =
          ' ' :: padAfter (padBefore '_' rest) := by
        rw [padBefore, if_neg (by simp), padBefore_congr hhead ' ' '_', hrest]
      rw [hfirst, hspace]
    · rw [hfirst, hrest]
  induction t generalizing previous with
  | nil => rfl
  | cons c rest ih =>
    rw [padBefore]
    split
    · -- a space that has been put in front of a slot stays, and is no slot
      have hspace : ∀ u, padAfter (' ' :: u) = ' ' :: padAfter u := fun u => by
        rw [padAfter, if_neg (by simp)]
      rw [hspace, padBefore, if_neg (by simp), hcons ' ' c rest (fun _ => rfl) (ih c)]
    · rename_i hslot
      refine hcons previous c rest (fun hc => ?_) (ih c)
      by_contra hprevious
      exact hslot ⟨hc, hprevious⟩

/-- `padSlots` leaves a padded spec as it is. -/
theorem padSlots_padSlots (t : Text) : padSlots (padSlots t) = padSlots t := by
  rw [padSlots, padSlots, padBefore_padAfter_padBefore, padAfter_padAfter]

end BlockScript.Text
