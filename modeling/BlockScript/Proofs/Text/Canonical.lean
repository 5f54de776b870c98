import BlockScript.Proofs.Text.Bases
import BlockScript.Proofs.Text.Letters
import BlockScript.Proofs.Text.Weave

/-!
# Keys of keys

A key has no tab and no punctuation, and without folding it has single spaces and none at its ends, so it
is its own key. Folding comes last, though: marks that stand by themselves, between two spaces or
between a blank and an end of the text, are gone only when the spaces have been counted, and leave the blanks
behind. The key of such a key is another one.

## Key results

- `key_key`: a second pass squeezes and trims, and does nothing else
- `trim_squeeze_eq_self_iff`: which texts that leaves alone
- `hasLooseMarks_iff`: folding brings in blanks just where marks stand by themselves
- `key_isCanonical_iff`: which keys are canonical, and that these are their own keys
-/

namespace BlockScript.Text

/-! ## Squeezed texts -/

/-- `squeezeAfter` writes a run of spaces and tabs as one space. -/
private theorem squeezeAfter_spec (afterGap : Bool) (t : Text) :
    '\t' ∉ squeezeAfter afterGap t ∧ ¬ [' ', ' '] <:+: squeezeAfter afterGap t ∧
      (afterGap = true → (squeezeAfter afterGap t).head? ≠ some ' ') := by
  -- behind a gap the rest starts with no space; the induction carries this along
  induction t generalizing afterGap with
  | nil => simp [squeezeAfter]
  | cons c rest ih =>
    unfold squeezeAfter
    cases hgap : isGap c with
    | true =>
      obtain ⟨htab, hdouble, hhead⟩ := ih true
      cases afterGap with
      | true => exact ih true
      | false =>
        refine ⟨by simpa using htab, ?_, by simp⟩
        -- a space that is written starts no second one
        intro hwithin
        rcases List.infix_cons_iff.1 hwithin with hbegins | hwithin
        · obtain ⟨-, hspace⟩ := List.cons_prefix_cons.1 hbegins
          obtain ⟨back, hback⟩ := hspace
          exact hhead rfl (by rw [← hback]; rfl)
        · exact hdouble hwithin
    | false =>
      obtain ⟨htab, hdouble, -⟩ := ih false
      -- a character that is kept is no gap, so it ends the one in front
      have hc : c ≠ ' ' ∧ c ≠ '\t' := by
        constructor
        · rintro rfl
          exact absurd hgap (by decide)
        · rintro rfl
          exact absurd hgap (by decide)
      refine ⟨by simp [htab, hc.2.symm], ?_, by simp [hc.1]⟩
      have happend := not_isInfix_append_cons (s := []) hc.1 (by simp) hdouble
      exact happend

/-- `squeezeAfter` leaves a text alone that has no tabs, and no two spaces together. -/
private theorem squeezeAfter_eq_self {afterGap : Bool} {t : Text} (htab : '\t' ∉ t)
    (hdouble : ¬ [' ', ' '] <:+: t)
    (hhead : afterGap = true → t.head? ≠ some ' ') : squeezeAfter afterGap t = t := by
  induction t generalizing afterGap with
  | nil => rfl
  | cons c rest ih =>
    rw [List.mem_cons, not_or] at htab
    have hrest : ¬ [' ', ' '] <:+: rest := fun h => hdouble (List.infix_cons h)
    unfold squeezeAfter
    split
    · rename_i hgap
      -- the gap is a single space, and no other follows it
      obtain rfl : c = ' ' := by
        simp only [isGap, Bool.or_eq_true, beq_iff_eq] at hgap
        exact hgap.resolve_right (Ne.symm htab.1)
      have hnext : rest.head? ≠ some ' ' := by
        intro hspace
        obtain ⟨back, rfl⟩ := List.head?_eq_some_iff.1 hspace
        exact hdouble ⟨[], back, rfl⟩
      cases afterGap with
      | true => exact absurd rfl (hhead rfl)
      | false => rw [if_neg (by simp), ih htab.2 hrest fun _ => hnext]
    · rw [ih htab.2 hrest (by simp)]

/-- These are the texts that `squeeze` leaves alone. -/
private theorem squeeze_eq_self_iff {t : Text} : squeeze t = t ↔ '\t' ∉ t ∧ ¬ [' ', ' '] <:+: t := by
  constructor
  · intro h
    obtain ⟨htab, hdouble, -⟩ := squeezeAfter_spec false t
    rw [← h]
    exact ⟨htab, hdouble⟩
  · rintro ⟨htab, hdouble⟩
    exact squeezeAfter_eq_self htab hdouble (by simp)

/-- A part of a squeezed text is squeezed, so `squeeze` leaves it alone. -/
private theorem squeeze_eq_self_of_isInfix {s t : Text} (h : s <:+: squeeze t) : squeeze s = s := by
  obtain ⟨htab, hdouble, -⟩ := squeezeAfter_spec false t
  exact squeeze_eq_self_iff.2 ⟨fun hmem => htab (h.subset hmem), fun hwithin => hdouble (hwithin.trans h)⟩

/-- `trim` leaves a text alone just if there is no blank at either end. -/
private theorem trim_eq_self_iff {t : Text} :
    trim t = t ↔ t.head?.any isBlank = false ∧ t.getLast?.any isBlank = false := by
  refine ⟨isBlank_of_trim_eq_self, fun ⟨hfirst, hlast⟩ => ?_⟩
  by_cases hfilled : t = []
  · rw [hfilled, trim_nil]
  · exact IsTight.trim_eq_self ⟨hfilled, hfirst, hlast⟩

/-- What `squeeze` and `trim` together leave alone, each of them leaves alone. -/
theorem trim_squeeze_eq_self_iff {t : Text} : trim (squeeze t) = t ↔ trim t = t ∧ squeeze t = t := by
  constructor
  · intro h
    constructor
    · rw [← h, trim_trim]
    · -- the text is a part of what it is when it is squeezed
      have hpart : t <:+: squeeze t := by
        conv_lhs => rw [← h]
        exact trim_isInfix _
      exact squeeze_eq_self_of_isInfix hpart
  · rintro ⟨htrim, hsqueeze⟩
    rw [hsqueeze, htrim]

/-- Squeezing and trimming twice is squeezing and trimming once. -/
private theorem trim_squeeze_trim_squeeze (t : Text) :
    trim (squeeze (trim (squeeze t))) = trim (squeeze t) :=
  trim_squeeze_eq_self_iff.2 ⟨trim_trim _, squeeze_eq_self_of_isInfix (trim_isInfix _)⟩

/-! ## Characters of a key -/

/-- No character of a `plainKey` has another lower case, is left out of keys or is a tab. -/
theorem of_mem_plainKey {t : Text} {c : Char} (h : c ∈ plainKey t) :
    lowerChar c = [c] ∧ isSilent c = false ∧ c ≠ '\t' := by
  have hsqueezed := (trim_isInfix _).subset h
  -- squeezing brings in no character but a space
  refine ⟨?_, ?_, ?_⟩
  · rcases mem_squeezeAfter_imp hsqueezed with hc | rfl
    · exact lowerChar_of_mem_lower hc
    · decide
  · rcases mem_squeezeAfter_imp hsqueezed with hc | rfl
    · exact isSilent_of_mem_lower (fun d hd => by simpa using (List.mem_filter.1 hd).2) hc
    · decide
  · rintro rfl
    exact (squeezeAfter_spec false _).1 hsqueezed

/-- `fold` works on each character by itself. -/
private theorem mem_fold_iff {t : Text} {d : Char} : d ∈ fold t ↔ ∃ c ∈ t, d ∈ fold [c] := by
  induction t with
  | nil => simp
  | cons c rest ih =>
    rw [← List.singleton_append, fold_append, List.mem_append, ih]
    simp

/-- So `fold` leaves a text alone if it leaves its characters alone. -/
private theorem fold_eq_self {t : Text} (h : ∀ c ∈ t, fold [c] = [c]) : fold t = t := by
  induction t with
  | nil => rfl
  | cons c rest ih =>
    obtain ⟨hc, hrest⟩ := List.forall_mem_cons.1 h
    rw [← List.singleton_append, fold_append, hc, ih hrest]

/-- No pass but `squeeze` and `trim` has anything to do with the characters of a `bareKey`. -/
private theorem of_mem_bareKey {folded : Bool} {t : Text} {d : Char} (h : d ∈ bareKey folded t) :
    lowerChar d = [d] ∧ isSilent d = false ∧ (folded = true → fold [d] = [d]) ∧ d ≠ '\t' := by
  cases folded with
  | false =>
    obtain ⟨hlower, hsilent, htab⟩ := of_mem_plainKey h
    exact ⟨hlower, hsilent, by simp, htab⟩
  | true =>
    obtain ⟨c, hc, hd⟩ := mem_fold_iff.1 h
    obtain ⟨hlower, hsilent, htab⟩ := of_mem_plainKey hc
    -- folding is the last pass, so what it gives must be settled for those before it
    have hsettled := isSettled_of_mem_fold hlower hsilent hd
    refine ⟨hsettled.lower, hsettled.silent, fun _ => hsettled.fold, ?_⟩
    rintro rfl
    exact htab (eq_of_mem_fold hlower hsilent hd (by decide)).symm

/-! ## The second pass -/

/-- The second pass is `squeeze` and `trim` and nothing else. -/
theorem bareKey_bareKey (folded : Bool) (t : Text) :
    bareKey folded (bareKey folded t) = trim (squeeze (bareKey folded t)) := by
  have hchars := fun d (hd : d ∈ bareKey folded t) => of_mem_bareKey hd
  have hplain : plainKey (bareKey folded t) = trim (squeeze (bareKey folded t)) := by
    rw [plainKey, List.filter_eq_self.2 fun d hd => by simp [(hchars d hd).2.1],
      lower_eq_self fun d hd => (hchars d hd).1]
  rw [bareKey, hplain]
  split
  · rename_i hfolded
    -- the characters have been folded once, or are spaces that squeezing has written
    refine fold_eq_self fun d hd => ?_
    rcases mem_squeezeAfter_imp ((trim_isInfix _).subset hd) with hd | rfl
    · exact (hchars d hd).2.2.1 hfolded
    · decide
  · rfl

/-- The `key` of a key is what `squeeze` and `trim` make of it. -/
theorem key_key (folded : Bool) (t : Text) : key folded (key folded t) = trim (squeeze (key folded t)) := by
  -- the ellipsis is its own key, and no other key becomes one
  by_cases hdots : bareKey folded t = [] ∧ withoutSpaces t = ellipsis
  · have hkey : key folded t = ellipsis := if_pos hdots
    rw [hkey, key_ellipsis]
    decide
  · have hkey : key folded t = bareKey folded t := if_neg hdots
    rw [hkey, key, bareKey_bareKey]
    refine if_neg ?_
    rintro ⟨-, hellipsis⟩
    -- there is no dot in what is left of a text without punctuation
    have hdot : '.' ∈ withoutSpaces (bareKey folded t) := by
      rw [hellipsis]
      decide
    have hsilent := (of_mem_bareKey (List.mem_filter.1 hdot).1).2.1
    exact absurd hsilent (by decide)

/-! ## Marks that stand by themselves -/

/-- `HasLooseMarks t`: characters of which `fold` leaves nothing stand between a blank and an end of the text,
    or between two spaces. -/
def HasLooseMarks (t : Text) : Prop :=
  ∃ front marks back, t = front ++ marks ++ back ∧ marks ≠ [] ∧ fold marks = [] ∧
    ((front = [] ∧ back.head?.any isBlank = true) ∨ (front.getLast?.any isBlank = true ∧ back = []) ∨
      (front.getLast? = some ' ' ∧ back.head? = some ' '))

/-- The first character of a folded text comes from behind the marks that it starts with. -/
private theorem exists_of_head?_fold {t : Text} {d : Char} (h : (fold t).head? = some d) :
    ∃ marks c back, t = marks ++ c :: back ∧ fold marks = [] ∧ d ∈ fold [c] := by
  induction t with
  | nil => cases h
  | cons c rest ih =>
    rw [← List.singleton_append, fold_append] at h
    -- characters that fold to nothing are the marks in front
    by_cases hc : fold [c] = []
    · rw [hc, List.nil_append] at h
      obtain ⟨marks, e, back, hrest, hmarks, hd⟩ := ih h
      refine ⟨c :: marks, e, back, by rw [hrest]; rfl, ?_, hd⟩
      rw [← List.singleton_append, fold_append, hc, hmarks]
      rfl
    · rw [List.head?_append_of_ne_nil _ hc] at h
      exact ⟨[], c, rest, rfl, rfl, List.mem_of_head? h⟩

/-- The last character after `fold` comes from in front of the marks that the text ends with. -/
private theorem exists_of_getLast?_fold {t : Text} {d : Char} (h : (fold t).getLast? = some d) :
    ∃ front c marks, t = front ++ c :: marks ∧ fold marks = [] ∧ d ∈ fold [c] := by
  induction t using List.reverseRecOn with
  | nil => cases h
  | append_singleton front c ih =>
    rw [fold_append] at h
    -- a mark at the end is one of those, and any other character is the one
    by_cases hc : fold [c] = []
    · rw [hc, List.append_nil] at h
      obtain ⟨front', e, marks, hfront, hmarks, hd⟩ := ih h
      refine ⟨front', e, marks ++ [c], by rw [hfront]; simp, ?_, hd⟩
      rw [fold_append, hc, hmarks]
      rfl
    · rw [List.getLast?_append_of_ne_nil _ hc] at h
      exact ⟨front, c, [], rfl, rfl, List.mem_of_getLast? h⟩

/-- `fold` makes a blank of a blank. -/
private theorem exists_fold_eq_blank {c : Char} (h : isBlank c = true) (hlower : lowerChar c = [c])
    (hsilent : isSilent c = false) : ∃ d, fold [c] = [d] ∧ isBlank d = true := by
  obtain ⟨d, hd⟩ := exists_fold_of_isBlank h
  exact ⟨d, hd, (isBlank_of_mem_fold hlower hsilent (by simp [hd])).trans h⟩

section Folding

variable {t : Text} (hchars : ∀ c ∈ t, lowerChar c = [c] ∧ isSilent c = false)

include hchars

/-- Two spaces come together in a folded text where the marks between them are gone. -/
private theorem exists_of_isInfix_fold (h : [' ', ' '] <:+: fold t) :
    ∃ front marks back, t = front ++ [' '] ++ marks ++ ' ' :: back ∧ fold marks = [] := by
  induction t with
  | nil => simp at h
  | cons c rest ih =>
    obtain ⟨⟨hlower, hsilent⟩, hrest⟩ := List.forall_mem_cons.1 hchars
    have hspace : ' ' ∈ fold [c] → c = ' ' := fun hmem =>
      (eq_of_mem_fold hlower hsilent hmem (by decide)).symm
    have hcons : fold (c :: rest) = fold [c] ++ fold rest := fold_append [c] rest
    rw [hcons, isInfix_append_iff] at h
    -- both spaces in the first character, both behind it, or one in each
    rcases h with h | h | ⟨hlast, hhead⟩
    · have hc := hspace (h.subset (by simp))
      rw [hc] at h
      exact absurd h (by decide)
    · obtain ⟨front, marks, back, rfl, hmarks⟩ := ih hrest h
      exact ⟨c :: front, marks, back, rfl, hmarks⟩
    · have hc := hspace (List.mem_of_getLast? hlast)
      obtain ⟨marks, e, back, rfl, hmarks, he⟩ := exists_of_head?_fold hhead
      obtain ⟨hlower', hsilent'⟩ := hrest e (by simp)
      rw [hc, ← eq_of_mem_fold hlower' hsilent' he (by decide)]
      exact ⟨[], marks, back, rfl, hmarks⟩

/-- Where there were `HasLooseMarks`, `fold` leaves a blank at an end or two spaces together. -/
theorem HasLooseMarks.fold (h : HasLooseMarks t) :
    (fold t).head?.any isBlank = true ∨ (fold t).getLast?.any isBlank = true ∨ [' ', ' '] <:+: fold t := by
  obtain ⟨front, marks, back, rfl, -, hmarks, hblank⟩ := h
  have hfold : Text.fold (front ++ marks ++ back) = Text.fold front ++ Text.fold back := by
    rw [fold_append, fold_append, hmarks, List.append_nil]
  rw [hfold]
  -- the marks stand at the start, at the end, or between two spaces
  rcases hblank with ⟨rfl, hback⟩ | ⟨hfront, rfl⟩ | ⟨hfront, hback⟩
  · obtain ⟨c, hc, hblank⟩ := (Option.any_eq_true _ _).1 hback
    obtain ⟨back, rfl⟩ := List.head?_eq_some_iff.1 hc
    obtain ⟨hlower, hsilent⟩ := hchars c (by simp)
    obtain ⟨d, hd, hd'⟩ := exists_fold_eq_blank hblank hlower hsilent
    left
    rw [← List.singleton_append, fold_append, hd]
    simpa using hd'
  · obtain ⟨c, hc, hblank⟩ := (Option.any_eq_true _ _).1 hfront
    obtain ⟨front, rfl⟩ := List.getLast?_eq_some_iff.1 hc
    obtain ⟨hlower, hsilent⟩ := hchars c (by simp)
    obtain ⟨d, hd, hd'⟩ := exists_fold_eq_blank hblank hlower hsilent
    right; left
    rw [fold_append, hd]
    simpa using hd'
  · obtain ⟨front, rfl⟩ := List.getLast?_eq_some_iff.1 hfront
    obtain ⟨back, rfl⟩ := List.head?_eq_some_iff.1 hback
    have hspace : Text.fold [' '] = [' '] := by decide
    have hcons : Text.fold (' ' :: back) = ' ' :: Text.fold back := by
      rw [← List.singleton_append, fold_append, hspace, List.singleton_append]
    right; right
    rw [fold_append, hspace, hcons]
    exact ⟨Text.fold front, Text.fold back, by simp⟩

/-- `fold` leaves blanks at an end or two spaces together just where it meets `HasLooseMarks`, if there are
    none before. -/
theorem hasLooseMarks_iff (htrim : trim t = t) (hdouble : ¬ [' ', ' '] <:+: t) :
    HasLooseMarks t ↔ ¬ (trim (fold t) = fold t ∧ ¬ [' ', ' '] <:+: fold t) := by
  obtain ⟨hfirst, hlast⟩ := trim_eq_self_iff.1 htrim
  rw [trim_eq_self_iff]
  constructor
  · -- a mark by itself leaves one of the three
    rintro hloose ⟨⟨hhead, hend⟩, hapart⟩
    rcases hloose.fold hchars with h | h | h
    · rw [hhead] at h
      cases h
    · rw [hend] at h
      cases h
    · exact hapart h
  · -- what is left comes from blanks that only marks had kept apart
    intro hfold
    by_contra hloose
    refine hfold ⟨⟨?_, ?_⟩, fun hwithin => hloose ?_⟩
    · by_contra hhead
      rw [Bool.not_eq_false, Option.any_eq_true] at hhead
      obtain ⟨d, hd, hblank⟩ := hhead
      obtain ⟨marks, c, back, rfl, hmarks, hmem⟩ := exists_of_head?_fold hd
      obtain ⟨hlower, hsilent⟩ := hchars c (by simp)
      have hc : isBlank c = true := (isBlank_of_mem_fold hlower hsilent hmem).symm.trans hblank
      refine hloose ⟨[], marks, c :: back, rfl, ?_, hmarks, .inl ⟨rfl, by simpa using hc⟩⟩
      -- without marks in front the blank would have been trimmed
      rintro rfl
      simp [hc] at hfirst
    · by_contra hend
      rw [Bool.not_eq_false, Option.any_eq_true] at hend
      obtain ⟨d, hd, hblank⟩ := hend
      obtain ⟨front, c, marks, rfl, hmarks, hmem⟩ := exists_of_getLast?_fold hd
      obtain ⟨hlower, hsilent⟩ := hchars c (by simp)
      have hc : isBlank c = true := (isBlank_of_mem_fold hlower hsilent hmem).symm.trans hblank
      refine hloose ⟨front ++ [c], marks, [], by simp, ?_, hmarks, .inr (.inl ⟨by simpa using hc, rfl⟩)⟩
      rintro rfl
      simp [hc] at hlast
    · -- two spaces were apart before, so there was something between them
      obtain ⟨front, marks, back, rfl, hmarks⟩ := exists_of_isInfix_fold hchars hwithin
      refine ⟨front ++ [' '], marks, ' ' :: back, rfl, ?_, hmarks, .inr (.inr ⟨by simp, rfl⟩)⟩
      rintro rfl
      exact hdouble ⟨front, back, by simp⟩

end Folding

/-! ## Canonical keys -/

/-- A text in the form that keys are to have: no tab, no two spaces together, no blank at either end, and none
    of the punctuation that keys leave out unless it is the `ellipsis`. -/
structure IsCanonical (t : Text) : Prop where
  tab : '\t' ∉ t
  spaces : ¬ [' ', ' '] <:+: t
  first : ∀ c, t.head? = some c → isBlank c = false
  last : ∀ c, t.getLast? = some c → isBlank c = false
  silent : t = ellipsis ∨ ∀ c ∈ t, isSilent c = false

/-- Of the texts without tabs and punctuation, those are `IsCanonical` that `squeeze` and `trim` leave
    alone. -/
theorem isCanonical_iff {t : Text} (hsilent : t = ellipsis ∨ ∀ c ∈ t, isSilent c = false) :
    IsCanonical t ↔ trim (squeeze t) = t := by
  rw [trim_squeeze_eq_self_iff, trim_eq_self_iff, squeeze_eq_self_iff, Option.any_eq_false,
    Option.any_eq_false]
  constructor
  · exact fun h => ⟨⟨h.first, h.last⟩, h.tab, h.spaces⟩
  · rintro ⟨⟨hfirst, hlast⟩, htab, hspaces⟩
    exact ⟨htab, hspaces, hfirst, hlast, hsilent⟩

/-- There is no punctuation in a `key`, unless it is the `ellipsis`. -/
theorem isSilent_of_mem_key (folded : Bool) (t : Text) :
    key folded t = ellipsis ∨ ∀ c ∈ key folded t, isSilent c = false := by
  unfold key
  dsimp only
  split
  · exact .inl rfl
  · exact .inr fun c hc => (of_mem_bareKey hc).2.1

/-- There is no tab in a `key`. -/
theorem tab_notMem_key (folded : Bool) (t : Text) : '\t' ∉ key folded t := by
  unfold key
  dsimp only
  split
  · decide
  · exact fun htab => (of_mem_bareKey htab).2.2.2 rfl

/-- `squeeze` and `trim` leave a `key` alone just if nothing was folded away between blanks. -/
private theorem trim_squeeze_key_iff (folded : Bool) (t : Text) :
    trim (squeeze (key folded t)) = key folded t ↔ (folded = true → ¬ HasLooseMarks (plainKey t)) := by
  have hchars : ∀ c ∈ plainKey t, lowerChar c = [c] ∧ isSilent c = false := fun c hc =>
    ⟨(of_mem_plainKey hc).1, (of_mem_plainKey hc).2.1⟩
  have hplain : trim (squeeze (plainKey t)) = plainKey t := trim_squeeze_trim_squeeze _
  obtain ⟨htrim, hsqueeze⟩ := trim_squeeze_eq_self_iff.1 hplain
  -- before it is folded the key has no blanks too many
  have hloose := hasLooseMarks_iff hchars htrim (squeeze_eq_self_iff.1 hsqueeze).2
  by_cases hdots : bareKey folded t = [] ∧ withoutSpaces t = ellipsis
  · -- nothing is left between the marks, so there are no blanks either
    have hkey : key folded t = ellipsis := if_pos hdots
    have hnone : folded = true → ¬ HasLooseMarks (plainKey t) := by
      intro hfolded hmarks
      have hfold : fold (plainKey t) = [] := by simpa [bareKey, hfolded] using hdots.1
      rw [hloose, hfold] at hmarks
      exact hmarks ⟨trim_nil, by simp⟩
    have hellipsis : trim (squeeze ellipsis) = ellipsis := by decide
    rw [hkey]
    exact iff_of_true hellipsis hnone
  · have hkey : key folded t = bareKey folded t := if_neg hdots
    -- a plain key is trimmed and squeezed already, so all depends on the folding
    cases folded with
    | false =>
      have hbare : bareKey false t = plainKey t := rfl
      rw [hkey, hbare]
      exact iff_of_true hplain (by simp)
    | true =>
      have hbare : bareKey true t = fold (plainKey t) := rfl
      have htab : '\t' ∉ fold (plainKey t) := by
        rw [← hbare, ← hkey]
        exact tab_notMem_key true t
      rw [hkey, hbare, trim_squeeze_eq_self_iff, squeeze_eq_self_iff, hloose, not_not]
      exact ⟨fun ⟨h, _, h'⟩ _ => ⟨h, h'⟩, fun h => ⟨(h rfl).1, htab, (h rfl).2⟩⟩

/-- Without folding, every `key` is `IsCanonical` and its own key. With folding, this is so just if no marks
    stand by themselves in the `plainKey`, which is all that can go wrong: there are no tabs and no
    punctuation in any key, and the key of a key is always canonical and its own key. -/
theorem key_isCanonical_iff (folded : Bool) (t : Text) :
    (IsCanonical (key folded t) ↔ (folded = true → ¬ HasLooseMarks (plainKey t))) ∧
      (key folded (key folded t) = key folded t ↔ (folded = true → ¬ HasLooseMarks (plainKey t))) ∧
      '\t' ∉ key folded t ∧ (key folded t = ellipsis ∨ ∀ c ∈ key folded t, isSilent c = false) ∧
      IsCanonical (key folded (key folded t)) ∧
      key folded (key folded (key folded t)) = key folded (key folded t) := by
  have hsilent := isSilent_of_mem_key folded t
  have htwice : key folded (key folded (key folded t)) = key folded (key folded t) := by
    rw [key_key folded (key folded t), key_key, trim_squeeze_trim_squeeze]
  refine ⟨?_, ?_, tab_notMem_key folded t, hsilent, ?_, htwice⟩
  · rw [isCanonical_iff hsilent, trim_squeeze_key_iff]
  · rw [key_key, trim_squeeze_key_iff]
  · rw [isCanonical_iff (isSilent_of_mem_key folded _), ← key_key]
    exact htwice

/-- An accent that stands by itself between two words leaves two spaces between them. -/
theorem key_of_loose_accent :
    key true ['a', ' ', Char.ofNat 0x301, ' ', 'b'] = ['a', ' ', ' ', 'b'] ∧
      ¬ IsCanonical ['a', ' ', ' ', 'b'] ∧ key true ['a', ' ', ' ', 'b'] = ['a', ' ', 'b'] := by
  refine ⟨by decide, fun h => ?_, by decide⟩
  exact h.spaces ⟨['a'], ['b'], rfl⟩

end BlockScript.Text
