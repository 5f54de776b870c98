import Mathlib.Data.List.DropRight
import BlockScript.Text.Basic

/-!
# The written lines of a text

Blanks at the ends of a line play no part, and neither do blank lines. What counts are the *written*
lines: those that are not blank, each without the blanks at its ends.

## Key results

- `Text.trim_trim`: trimming twice is trimming once
- `Text.map_trim_lines_append_left`, `Text.map_trim_lines_append_right`: blanks at the ends of a text are
  blank lines
- `Text.words_intercalate`: words with spaces between them are cut into these words again
- `Text.writtenLines_trim`: blanks at the ends of a text do not change its written lines
-/

namespace BlockScript.Text

/-! ## Trimming -/

/-- `trimRight` is `List.rdropWhile`, so the lemmas about it apply. -/
theorem trimRight_eq_rdropWhile (t : Text) : trimRight t = t.rdropWhile isBlank := rfl

/-- `trim` drops blanks in front of a text. -/
theorem trim_append_left (lead t : Text) (h : ∀ c ∈ lead, isBlank c = true) :
    trim (lead ++ t) = trim t := by
  have hlead : lead.dropWhile isBlank = [] := List.dropWhile_eq_nil_iff.2 h
  simp [trim, trimLeft, List.dropWhile_append, hlead]

/-- `trim` drops a blank at the end of a text. -/
private theorem trim_concat (t : Text) (c : Char) (h : isBlank c = true) :
    trim (t ++ [c]) = trim t := by
  simp only [trim, trimLeft, List.dropWhile_append, trimRight_eq_rdropWhile]
  split
  · -- a text of blanks alone is dropped from the left already
    rename_i hall
    rw [List.isEmpty_iff] at hall
    simp [hall, h]
  · exact List.rdropWhile_concat_pos _ _ _ h

/-- So `trim` drops all blanks there. -/
theorem trim_append_right (t trail : Text) (h : ∀ c ∈ trail, isBlank c = true) :
    trim (t ++ trail) = trim t := by
  induction trail generalizing t with
  | nil => rw [List.append_nil]
  | cons c trail ih =>
    obtain ⟨hc, htrail⟩ := List.forall_mem_cons.1 h
    rw [List.append_cons, ih (t ++ [c]) htrail, trim_concat t c hc]

/-- A text is the blanks it starts with, what `trim` leaves, and blanks at its end. -/
theorem exists_eq_takeWhile_trim (t : Text) :
    ∃ trail, t = t.takeWhile isBlank ++ trim t ++ trail ∧ ∀ c ∈ trail, isBlank c = true := by
  refine ⟨(trimLeft t).rtakeWhile isBlank, ?_, fun c hc => List.mem_rtakeWhile_imp hc⟩
  rw [trim, trimRight_eq_rdropWhile, List.append_assoc, List.rdropWhile_append_rtakeWhile,
    trimLeft, List.takeWhile_append_dropWhile]

/-- A text is what `trim` leaves, with blanks at its ends. -/
theorem exists_eq_trim (t : Text) :
    ∃ lead trail, t = lead ++ trim t ++ trail ∧ (∀ c ∈ lead, isBlank c = true) ∧
      ∀ c ∈ trail, isBlank c = true := by
  obtain ⟨trail, ht, htrail⟩ := exists_eq_takeWhile_trim t
  exact ⟨t.takeWhile isBlank, trail, ht, fun c hc => List.mem_takeWhile_imp hc, htrail⟩

/-- What `trim` leaves stands in the text as it is. -/
theorem trim_isInfix (t : Text) : trim t <:+: t := by
  obtain ⟨lead, trail, ht, -⟩ := exists_eq_trim t
  exact ⟨lead, trail, ht.symm⟩

/-- A text is what `trimRight` leaves, with blanks behind it. -/
theorem exists_eq_trimRight (t : Text) :
    ∃ trail, t = trimRight t ++ trail ∧ ∀ c ∈ trail, isBlank c = true := by
  refine ⟨t.rtakeWhile isBlank, ?_, fun c hc => List.mem_rtakeWhile_imp hc⟩
  rw [trimRight_eq_rdropWhile, List.rdropWhile_append_rtakeWhile]

/-- It does not matter for `trim` if the blanks at the end are gone already. -/
theorem trim_trimRight (t : Text) : trim (trimRight t) = trim t := by
  obtain ⟨trail, ht, htrail⟩ := exists_eq_trimRight t
  conv_rhs => rw [ht, trim_append_right _ _ htrail]

/-- A text of which `trim` leaves nothing is blank. -/
theorem isBlank_of_trim_eq_nil {t : Text} (h : trim t = []) : ∀ c ∈ t, isBlank c = true := by
  obtain ⟨lead, trail, ht, hlead, htrail⟩ := exists_eq_trim t
  rw [ht, h, List.append_nil]
  exact List.forall_mem_append.2 ⟨hlead, htrail⟩

/-- Nor if those in front are dropped by `trimLeft`. -/
theorem trim_trimLeft (t : Text) : trim (trimLeft t) = trim t := by
  conv_rhs => rw [← List.takeWhile_append_dropWhile (p := isBlank) (l := t)]
  rw [trim_append_left _ _ fun c hc => List.mem_takeWhile_imp hc]
  rfl

/-- So it does not matter at which end blanks are dropped first: `trimLeft` after `trimRight` is `trim`. -/
theorem trimLeft_trimRight (t : Text) : trimLeft (trimRight t) = trim t := by
  have hself : trimRight (trimLeft (trimRight t)) = trimLeft (trimRight t) := by
    rw [trimRight_eq_rdropWhile (trimLeft _), List.rdropWhile_eq_self_iff]
    intro hfilled
    -- the last character is that of the text without the blanks at its end
    obtain ⟨lead, hlead⟩ : trimLeft (trimRight t) <:+ trimRight t := List.dropWhile_suffix _
    have hfilled' : trimRight t ≠ [] := fun hnil => by simp [hnil, trimLeft] at hfilled
    have hlast := List.rdropWhile_last_not isBlank t hfilled'
    have hsame : (trimRight t).getLast hfilled' = (trimLeft (trimRight t)).getLast hfilled := by
      rw [← Option.some_inj, ← List.getLast?_eq_some_getLast, ← List.getLast?_eq_some_getLast]
      conv_lhs => rw [← hlead, List.getLast?_append_of_ne_nil _ hfilled]
    -- so it is no blank, and there is nothing to trim
    rw [← hsame]
    exact hlast
  rw [← trim_trimRight, trim, hself]

/-- There are no blanks at the ends left for a second `trim`. -/
theorem trim_trim (t : Text) : trim (trim t) = trim t := by
  obtain ⟨lead, trail, ht, hlead, htrail⟩ := exists_eq_trim t
  calc trim (trim t) = trim (lead ++ trim t ++ trail) := by
        rw [trim_append_right _ _ htrail, trim_append_left _ _ hlead]
    _ = trim t := by rw [← ht]

/-! ### Texts without blanks at their ends -/

/-- A letter is no blank. -/
theorem isBlank_of_isAlpha {c : Char} (h : c.isAlpha = true) : isBlank c = false := by
  have hrange : 65 ≤ c.toNat ∧ c.toNat ≤ 90 ∨ 97 ≤ c.toNat ∧ c.toNat ≤ 122 := by
    have hletter : (decide (65 ≤ c.val ∧ c.val ≤ 90) || decide (97 ≤ c.val) && decide (c.val ≤ 122)) = true := h
    simpa [UInt32.le_iff_toNat_le] using hletter
  have hsmall : c.toNat < 0x80 := by omega
  simp only [isBlank, if_pos hsmall, Bool.or_eq_false_iff, Bool.and_eq_false_iff, beq_eq_false_iff_ne,
    decide_eq_false_iff_not]
  omega

/-- `trimLeft` stops where a text without a blank in front starts. -/
theorem trimLeft_append {s t : Text} (ht : t.head?.any isBlank = false) (hfilled : t ≠ []) :
    trimLeft (s ++ t) = trimLeft s ++ t := by
  obtain ⟨c, t, rfl⟩ := List.exists_cons_of_ne_nil hfilled
  have hc : isBlank c = false := ht
  rw [trimLeft, List.dropWhile_append]
  split
  · rename_i hblank
    rw [List.isEmpty_iff] at hblank
    rw [trimLeft, hblank, List.dropWhile_cons_of_neg (by simp [hc]), List.nil_append]
  · rfl

/-- `trimRight` stops where a text without a blank at its end ends. -/
theorem trimRight_append {s t : Text} (hs : s.getLast?.any isBlank = false) (hfilled : s ≠ []) :
    trimRight (s ++ t) = s ++ trimRight t := by
  have hhead : s.reverse.head?.any isBlank = false := by rwa [List.head?_reverse]
  have hleft : trimLeft (t.reverse ++ s.reverse) = trimLeft t.reverse ++ s.reverse :=
    trimLeft_append hhead (by simpa using hfilled)
  rw [trimLeft, trimLeft] at hleft
  rw [trimRight, List.reverse_append, hleft, List.reverse_append, List.reverse_reverse, trimRight]

/-- What `trimRight` leaves does not end in a blank. -/
theorem isBlank_getLast?_trimRight (t : Text) : (trimRight t).getLast?.any isBlank = false := by
  rw [trimRight, List.getLast?_reverse]
  cases hhead : t.reverse.dropWhile isBlank with
  | nil => rfl
  | cons c rest => exact trimLeft_head_not_blank t.reverse c rest hhead

/-- Blanks behind a text that does not end in one are all that `trimRight` drops. -/
theorem trimRight_append_blank {s t : Text} (hs : s.getLast?.any isBlank = false)
    (ht : ∀ c ∈ t, isBlank c = true) : trimRight (s ++ t) = s := by
  have hnothing : trimRight t = [] := by
    rw [trimRight, List.dropWhile_eq_nil_iff.2 (by simpa using ht), List.reverse_nil]
  by_cases hfilled : s = []
  · rw [hfilled, List.nil_append, hnothing]
  · rw [trimRight_append hs hfilled, hnothing, List.append_nil]

/-- Whether a text starts and ends with characters that are not blank. -/
structure IsTight (t : Text) : Prop where
  filled : t ≠ []
  first : t.head?.any isBlank = false
  last : t.getLast?.any isBlank = false

/-- `trim` makes no text longer. -/
theorem length_trim_le (t : Text) : (trim t).length ≤ t.length := by
  obtain ⟨lead, trail, ht, -, -⟩ := exists_eq_trim t
  have hlength := congrArg List.length ht
  simp only [List.length_append] at hlength
  omega

/-- A text that `trim` leaves as it is has no blanks at its ends. -/
theorem isBlank_of_trim_eq_self {t : Text} (h : trim t = t) :
    t.head?.any isBlank = false ∧ t.getLast?.any isBlank = false := by
  constructor
  · cases hhead : t.head? with
    | none => rfl
    | some c =>
      obtain ⟨rest, rfl⟩ := List.head?_eq_some_iff.1 hhead
      -- a blank there would be dropped, and the text would become shorter
      by_contra hblank
      have hshort : trim (c :: rest) = trim rest := trim_append_left [c] rest (by simpa using hblank)
      have hle := length_trim_le rest
      rw [← hshort, h, List.length_cons] at hle
      omega
  · cases hlast : t.getLast? with
    | none => rfl
    | some c =>
      obtain ⟨front, rfl⟩ := List.getLast?_eq_some_iff.1 hlast
      by_contra hblank
      have hshort : trim (front ++ [c]) = trim front := trim_append_right front [c] (by simpa using hblank)
      have hle := length_trim_le front
      rw [← hshort, h, List.length_append, List.length_singleton] at hle
      omega

/-- `trimLeft` finds nothing to drop in a text that `IsTight`. -/
theorem IsTight.trimLeft_eq_self {t : Text} (h : IsTight t) : trimLeft t = t := by
  have hleft : trimLeft ([] ++ t) = trimLeft [] ++ t := trimLeft_append h.first h.filled
  exact hleft

/-- Nor does `trimRight`. -/
theorem IsTight.trimRight_eq_self {t : Text} (h : IsTight t) : trimRight t = t := by
  have hright : trimRight (t ++ []) = t ++ trimRight [] := trimRight_append h.last h.filled
  rw [List.append_nil] at hright
  exact hright.trans (List.append_nil t)

/-- So `trim` leaves it as it is. -/
theorem IsTight.trim_eq_self {t : Text} (h : IsTight t) : trim t = t := by
  rw [trim, h.trimLeft_eq_self, h.trimRight_eq_self]

/-- What `trim` leaves `IsTight`, if anything is left. -/
theorem isTight_trim {t : Text} (h : trim t ≠ []) : IsTight (trim t) :=
  have hends := isBlank_of_trim_eq_self (trim_trim t)
  ⟨h, hends.1, hends.2⟩

/-- Two texts that are `IsTight` with any text between them are one. -/
theorem IsTight.append {s t : Text} (hs : IsTight s) (ht : IsTight t) (between : Text) :
    IsTight (s ++ between ++ t) where
  filled := by simp [hs.filled]
  first := by rw [List.append_assoc, List.head?_append_of_ne_nil _ hs.filled]; exact hs.first
  last := by rw [List.getLast?_append_of_ne_nil _ ht.filled]; exact ht.last

/-! ## Cutting -/

/-- `splitAt` cuts a text in two where there is a separator. -/
private theorem splitAt_append_cons {isSeparator : Char → Bool} {c : Char} (hc : isSeparator c = true)
    (s t : Text) :
    splitAt isSeparator (s ++ c :: t) = splitAt isSeparator s ++ splitAt isSeparator t := by
  induction s with
  | nil => simp [splitAt, hc]
  | cons d s ih =>
    obtain ⟨part, parts, hs⟩ := List.exists_cons_of_ne_nil (splitAt_ne_nil isSeparator s)
    by_cases hd : isSeparator d = true
    · simp [splitAt, hd, ih]
    · simp [splitAt, hd, ih, hs]

/-- `splitAt` does not cut a text without separators. -/
theorem splitAt_of_not {isSeparator : Char → Bool} {t : Text} (h : ∀ c ∈ t, isSeparator c = false) :
    splitAt isSeparator t = [t] := by
  induction t with
  | nil => rfl
  | cons c t ih =>
    obtain ⟨hc, ht⟩ := List.forall_mem_cons.1 h
    simp [splitAt, hc, ih ht]

/-- Texts with a separator between them end like the last one. -/
theorem getLast?_intercalate (separator : Text) (front : List Text) {last : Text} (h : last ≠ []) :
    (separator.intercalate (front ++ [last])).getLast? = last.getLast? := by
  induction front with
  | nil => rw [List.nil_append, List.intercalate_singleton]
  | cons t front ih =>
    -- what is behind a separator is not empty, as it ends like the last text
    have hfilled : separator.intercalate (front ++ [last]) ≠ [] := by
      intro hnil
      rw [hnil] at ih
      exact h (List.getLast?_eq_none_iff.1 ih.symm)
    rw [List.cons_append, List.intercalate_cons_of_ne_nil (by simp),
      List.getLast?_append_of_ne_nil _ hfilled, ih]

/-- `words` with spaces between them are cut into these words again. -/
theorem words_intercalate {ws : List Text} (h : ∀ w ∈ ws, w ≠ [] ∧ ' ' ∉ w) :
    words ([' '].intercalate ws) = ws := by
  have hword : ∀ w : Text, ' ' ∉ w → ∀ c ∈ w, (c == ' ') = false := by
    intro w hw c hc
    simp only [beq_eq_false_iff_ne]
    rintro rfl
    exact hw hc
  -- word by word: up to the next space there is the first word
  induction ws with
  | nil => rfl
  | cons w ws ih =>
    obtain ⟨⟨hfilled, hspace⟩, hws⟩ := List.forall_mem_cons.1 h
    cases ws with
    -- the last word is not cut at all
    | nil =>
      rw [List.intercalate_singleton, words, splitAt_of_not (hword w hspace)]
      simp [hfilled]
    -- any other one ends at the space behind it
    | cons u us =>
      have hlater := ih hws
      rw [words] at hlater ⊢
      rw [List.intercalate_cons_cons, List.append_assoc, List.singleton_append,
        splitAt_append_cons (by decide), splitAt_of_not (hword w hspace), List.filter_append, hlater]
      simp [hfilled]

/-! ## Written lines -/

/-- The lines of a text that are not blank, without the blanks at their ends. -/
def writtenLines (t : Text) : List Text := ((lines t).map trim).filter (· ≠ [])

/-- A line end in front of a text is an empty line in front of its `lines`. -/
private theorem lines_cons_newline (t : Text) : lines ('\n' :: t) = [] :: lines t := by
  simp [lines, splitAt]

/-- Any other character is added to the first line. -/
private theorem lines_cons_of_ne {c : Char} (h : c ≠ '\n') {t first : Text} {rest : List Text}
    (ht : lines t = first :: rest) : lines (c :: t) = (c :: first) :: rest := by
  have ht : splitAt (· == '\n') t = first :: rest := ht
  simp [lines, splitAt, h, ht]

/-- A text has at least one of the `lines`. -/
private theorem exists_lines_eq_cons (t : Text) : ∃ first rest, lines t = first :: rest :=
  List.exists_cons_of_ne_nil (splitAt_ne_nil _ t)

/-- A character at the end of a text ends its last line, or is added to it. -/
private theorem lines_concat (t : Text) (c : Char) :
    ∃ front last, lines t = front ++ [last] ∧
      lines (t ++ [c]) = front ++ if c = '\n' then [last, []] else [last ++ [c]] := by
  -- by induction on the text: a line break in front adds an empty line, another character goes to the first line
  induction t with
  | nil =>
    refine ⟨[], [], rfl, ?_⟩
    split
    · rename_i h
      subst h
      rfl
    · rename_i h
      simp [lines, splitAt, h]
  | cons d t ih =>
    obtain ⟨front, last, ht, htc⟩ := ih
    by_cases hd : d = '\n'
    · subst hd
      exact ⟨[] :: front, last, by rw [lines_cons_newline, ht]; rfl,
        by rw [List.cons_append, lines_cons_newline, htc]; rfl⟩
    · -- another character goes to the first line, which may be the last one, too
      cases front with
      | nil =>
        refine ⟨[], d :: last, lines_cons_of_ne hd ht, ?_⟩
        rw [List.cons_append]
        by_cases hc : c = '\n'
        · simp only [hc, if_true] at htc ⊢
          exact lines_cons_of_ne hd htc
        · simp only [hc, if_false] at htc ⊢
          exact lines_cons_of_ne hd htc
      | cons first front =>
        exact ⟨(d :: first) :: front, last, lines_cons_of_ne hd ht, lines_cons_of_ne hd htc⟩

/-- A line end between two texts is an end of the `lines` of the first one. -/
theorem lines_append_newline (s t : Text) : lines (s ++ '\n' :: t) = lines s ++ lines t :=
  splitAt_append_cons rfl s t

/-- Among the `lines`, blanks in front of a text are a blank line for each line end among them. -/
theorem map_trim_lines_append_left (lead t : Text) (h : ∀ c ∈ lead, isBlank c = true) :
    (lines (lead ++ t)).map trim = List.replicate (lead.count '\n') [] ++ (lines t).map trim := by
  induction lead with
  | nil => rfl
  | cons c lead ih =>
    obtain ⟨hc, hlead⟩ := List.forall_mem_cons.1 h
    -- a line end makes a blank line of its own, and other blanks are trimmed off the first line
    by_cases hnewline : c = '\n'
    · rw [hnewline, List.cons_append, lines_cons_newline, List.map_cons, trim_nil, ih hlead,
        List.count_cons_self, List.replicate_succ, List.cons_append]
    · obtain ⟨first, rest, ht⟩ := exists_lines_eq_cons (lead ++ t)
      have htrim : trim (c :: first) = trim first := trim_append_left [c] first (by simpa using hc)
      rw [List.cons_append, lines_cons_of_ne hnewline ht, List.map_cons, htrim, ← List.map_cons, ← ht,
        ih hlead, List.count_cons_of_ne hnewline]

/-- Blanks behind a text make blank `lines` at its end. -/
theorem map_trim_lines_append_right (t trail : Text) (h : ∀ c ∈ trail, isBlank c = true) :
    (lines (t ++ trail)).map trim = (lines t).map trim ++ List.replicate (trail.count '\n') [] := by
  induction trail generalizing t with
  | nil => simp
  | cons c trail ih =>
    obtain ⟨hc, htrail⟩ := List.forall_mem_cons.1 h
    -- here it is the last line that is ended or made longer
    obtain ⟨front, last, ht, htc⟩ := lines_concat t c
    have htrim : trim (last ++ [c]) = trim last := trim_append_right last [c] (by simpa using hc)
    rw [List.append_cons, ih (t ++ [c]) htrail, htc, ht]
    by_cases hnewline : c = '\n'
    · simp [hnewline, List.replicate_succ]
    · simp [hnewline, htrim]

/-- Blanks at the ends of a text do not change its `writtenLines`. -/
theorem writtenLines_trim (t : Text) : writtenLines (trim t) = writtenLines t := by
  obtain ⟨lead, trail, ht, hlead, htrail⟩ := exists_eq_trim t
  calc writtenLines (trim t) = writtenLines (lead ++ trim t ++ trail) := by
        simp only [writtenLines, map_trim_lines_append_right _ _ htrail,
          map_trim_lines_append_left _ _ hlead, List.filter_append, List.filter_replicate]
        simp
    _ = writtenLines t := by rw [← ht]

end BlockScript.Text
