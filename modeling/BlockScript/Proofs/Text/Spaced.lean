import Mathlib.Data.List.Basic
import BlockScript.Proofs.Lists
import BlockScript.Proofs.Text.Lines

/-!
# Parts between spaces

A text is cut into parts at each of its spaces. A part is taken out of a text together with the spaces around it,
and one space takes their place. This is done by a search for the part with its spaces, which finds another
place than that of the part if this is the last one and an earlier one starts with it.

## Key results

- `Text.intercalate_parts`: the parts with spaces between them are the text
- `Text.replaceFirst_part`: when a search takes out the part that is meant
- `Text.exists_replaceFirst_of_isPrefix`: what it takes out otherwise
-/

namespace BlockScript.Text

/-- The parts of a text between its spaces. They may be empty. -/
def parts (t : Text) : List Text := splitAt (· == ' ') t

/-- Texts with a space in front of each one. -/
def spaced (ws : List Text) : Text := ws.flatMap (' ' :: ·)

/-- The space between a text and others, if there are any. -/
def gap (ws : List Text) : Text := if ws = [] then [] else [' ']

/-! ## The parts -/

/-- `splitAt` splits a text like `List.splitOnP`. -/
private theorem splitAt_eq_splitOnP (isSeparator : Char → Bool) (t : Text) :
    splitAt isSeparator t = t.splitOnP isSeparator := by
  induction t with
  | nil => rfl
  | cons c t ih =>
    rw [splitAt, List.splitOnP_cons_eq_if_modifyHead, ih]
    obtain ⟨part, parts, hparts⟩ := List.exists_cons_of_ne_nil (List.splitOnP_ne_nil isSeparator t)
    rw [hparts, List.modifyHead_cons]

/-- The `parts` with spaces between them are the text. -/
theorem intercalate_parts (t : Text) : [' '].intercalate (parts t) = t := by
  rw [parts, splitAt_eq_splitOnP]
  exact List.intercalate_splitOn ' '

/-- There is at least one of the `parts`. -/
theorem parts_ne_nil (t : Text) : parts t ≠ [] := splitAt_ne_nil _ t

/-- None of the `parts` has a space. -/
theorem space_notMem_of_mem_parts {t w : Text} (h : w ∈ parts t) : ' ' ∉ w := by
  induction t generalizing w with
  | nil =>
    rw [List.mem_singleton.1 h]
    exact List.not_mem_nil
  | cons c t ih =>
    obtain ⟨part, later, hlater⟩ := List.exists_cons_of_ne_nil (parts_ne_nil t)
    have hlater' : splitAt (· == ' ') t = part :: later := hlater
    rw [parts, splitAt, hlater'] at h
    -- a space starts a new part, and any other character is added to the first one
    split at h
    · rcases List.mem_cons.1 h with rfl | h
      · exact List.not_mem_nil
      · exact ih (hlater ▸ h)
    · rename_i hc
      rcases List.mem_cons.1 h with rfl | h
      · have hpart := ih (hlater ▸ List.mem_cons_self)
        simp only [List.mem_cons, not_or]
        exact ⟨fun hspace => hc (by simp [← hspace]), hpart⟩
      · exact ih (hlater ▸ List.mem_cons_of_mem part h)

/-! ## Spaces put in -/

@[simp] theorem spaced_nil : spaced [] = [] := rfl

@[simp] theorem gap_nil : gap [] = [] := rfl

/-- A `gap` in front of something is a space. -/
theorem gap_of_ne_nil {ws : List Text} (h : ws ≠ []) : gap ws = [' '] := if_neg h

/-- The first of the `spaced` texts has its space in front of it. -/
theorem spaced_cons (w : Text) (ws : List Text) : spaced (w :: ws) = ' ' :: (w ++ spaced ws) := rfl

/-- `spaced` goes text by text. -/
private theorem spaced_append (us ws : List Text) : spaced (us ++ ws) = spaced us ++ spaced ws :=
  List.flatMap_append

/-- With spaces between them, texts are the first one and the others `spaced`. -/
theorem intercalate_cons (w : Text) (ws : List Text) : [' '].intercalate (w :: ws) = w ++ spaced ws := by
  induction ws generalizing w with
  | nil => rw [List.intercalate_singleton, spaced_nil, List.append_nil]
  | cons u us ih => rw [List.intercalate_cons_cons, ih, spaced_cons]; simp

/-- `spaced` texts have a `gap` in front, and spaces between them. -/
private theorem spaced_eq_gap (ws : List Text) : spaced ws = gap ws ++ [' '].intercalate ws := by
  cases ws with
  | nil => rfl
  | cons w ws => rw [spaced_cons, intercalate_cons]; rfl

/-- What stands around a part is a `gap` on each side, and then the others. -/
theorem intercalate_append_cons (before : List Text) (part : Text) (after : List Text) :
    [' '].intercalate (before ++ part :: after) =
      [' '].intercalate before ++ (gap before ++ part ++ gap after) ++ [' '].intercalate after := by
  cases before with
  | nil => rw [List.nil_append, intercalate_cons, spaced_eq_gap]; simp [gap]
  | cons first before =>
    rw [List.cons_append, intercalate_cons, intercalate_cons, spaced_append, spaced_cons, spaced_eq_gap after]
    simp [gap]

/-- A text without spaces that such a text starts with is within the first part. -/
theorem isPrefix_of_isPrefix_spaced {part w : Text} {later : List Text} (hpart : ' ' ∉ part)
    (h : part <+: w ++ spaced later) : part <+: w := by
  induction part generalizing w with
  | nil => exact List.nil_prefix
  | cons c part ih =>
    obtain ⟨hc, hpart⟩ := not_or.1 (List.mem_cons.not.1 hpart)
    cases w with
    | nil =>
      -- the text would start with a space
      cases later with
      | nil => exact h
      | cons u us =>
        rw [List.nil_append, spaced_cons, List.cons_prefix_cons] at h
        exact absurd h.1.symm hc
    | cons d w =>
      rw [List.cons_append, List.cons_prefix_cons] at h
      exact List.cons_prefix_cons.2 ⟨h.1, ih hpart h.2⟩

/-- With a space behind it, it is the first part. -/
private theorem eq_of_isPrefix_spaced {part w : Text} {later : List Text} (hpart : ' ' ∉ part)
    (hw : ' ' ∉ w)
    (h : part ++ [' '] <+: w ++ spaced later) : part = w := by
  obtain ⟨rest, rfl⟩ := isPrefix_of_isPrefix_spaced hpart ((List.prefix_append part [' ']).trans h)
  rw [List.append_assoc, List.prefix_append_right_inj] at h
  cases rest with
  | nil => rw [List.append_nil]
  | cons c rest =>
    rw [List.cons_append, List.cons_prefix_cons] at h
    exact absurd (by simp [← h.1]) hw

/-! ## Taking out a part -/

/-- `replaceFirst` takes out what the text starts with. -/
private theorem replaceFirst_append (old new rest : Text) (h : old ≠ []) :
    replaceFirst old new (old ++ rest) = new ++ rest := by
  obtain ⟨c, old, rfl⟩ := List.exists_cons_of_ne_nil h
  rw [List.cons_append, replaceFirst, if_pos]
  · rw [← List.cons_append, List.drop_left]
  · rw [List.isPrefixOf_iff_prefix, ← List.cons_append]
    exact List.prefix_append _ _

/-- If the text does not start with it, `replaceFirst` looks behind the first character. -/
private theorem replaceFirst_cons {old new t : Text} {c : Char} (h : ¬ old <+: c :: t) :
    replaceFirst old new (c :: t) = c :: replaceFirst old new t := by
  rw [replaceFirst, if_neg (by rwa [List.isPrefixOf_iff_prefix])]

/-- `replaceFirst` does not find what starts with a space in a text without spaces. -/
private theorem replaceFirst_of_space_notMem {w : Text} (h : ' ' ∉ w) (old new rest : Text) :
    replaceFirst (' ' :: old) new (w ++ rest) = w ++ replaceFirst (' ' :: old) new rest := by
  induction w with
  | nil => rfl
  | cons c w ih =>
    obtain ⟨hc, hw⟩ := not_or.1 (List.mem_cons.not.1 h)
    rw [List.cons_append, replaceFirst_cons fun hfound => hc (List.cons_prefix_cons.1 hfound).1, ih hw,
      List.cons_append]

/-- Nor does it in front of `spaced` parts that do not start with what follows the space. -/
private theorem replaceFirst_spaced {old : Text} {ws later : List Text} (hspace : ∀ w ∈ ws, ' ' ∉ w)
    (h : ∀ w ∈ ws, ∀ behind, ¬ old <+: w ++ spaced behind) (new : Text) :
    replaceFirst (' ' :: old) new (spaced ws ++ spaced later) =
      spaced ws ++ replaceFirst (' ' :: old) new (spaced later) := by
  induction ws with
  | nil => rfl
  | cons w ws ih =>
    obtain ⟨hw, hws⟩ := List.forall_mem_cons.1 hspace
    obtain ⟨hother, hothers⟩ := List.forall_mem_cons.1 h
    rw [spaced_cons, List.cons_append, List.append_assoc, replaceFirst_cons, replaceFirst_of_space_notMem hw,
      ih hws hothers, List.cons_append, List.append_assoc]
    rw [List.cons_prefix_cons, ← spaced_append]
    exact fun hfound => hother _ hfound.2

/-- A space that takes the place of text behind a space stays within a text that `IsTight`. -/
theorem IsTight.space_within {front part back : Text} (h : IsTight (front ++ (' ' :: part) ++ back))
    (hback : back ≠ []) : IsTight (front ++ [' '] ++ back) := by
  obtain ⟨-, hfirst, hlast⟩ := h
  rw [List.getLast?_append_of_ne_nil _ hback] at hlast
  cases front with
  -- with nothing in front of it, the space would be at the start
  | nil => exact absurd hfirst (by decide : ¬ isBlank ' ' = false)
  | cons c front => exact ⟨List.cons_ne_nil _ _, hfirst, by rwa [List.getLast?_append_of_ne_nil _ hback]⟩

section Part

variable {before after : List Text} {part : Text} (hbefore : ∀ w ∈ before, ' ' ∉ w) (hpart : ' ' ∉ part)

include hbefore hpart

/-- A part that `replaceFirst` looks for with the `gap`s around it is taken out, unless it is the last one and
    an earlier one, but the first, starts with it. -/
theorem replaceFirst_part (hfilled : part ≠ []) (hnew : part ∉ before)
    (hlast : after = [] → ∀ w ∈ before.tail, ¬ part <+: w) :
    replaceFirst (gap before ++ part ++ gap after) [' '] ([' '].intercalate (before ++ part :: after)) =
      [' '].intercalate before ++ ' ' :: [' '].intercalate after := by
  cases before with
  | nil =>
    rw [intercalate_append_cons]
    exact replaceFirst_append (part ++ gap after) [' '] _ (by simp [hfilled])
  | cons first before =>
    obtain ⟨hfirst, hbefore⟩ := List.forall_mem_cons.1 hbefore
    -- it is not found earlier: with a space behind it, it would have to be an earlier part itself
    have hothers : ∀ w ∈ before, ∀ behind, ¬ part ++ gap after <+: w ++ spaced behind := by
      intro w hw behind hfound
      by_cases hafter : after = []
      · rw [hafter, gap_nil, List.append_nil] at hfound
        exact hlast hafter w hw (isPrefix_of_isPrefix_spaced hpart hfound)
      · rw [gap_of_ne_nil hafter] at hfound
        rw [eq_of_isPrefix_spaced hpart (hbefore w hw) hfound] at hnew
        exact hnew (List.mem_cons_of_mem first hw)
    have hparted : [' '].intercalate (first :: before ++ part :: after) =
        first ++ (spaced before ++ spaced (part :: after)) := by
      rw [List.cons_append, intercalate_cons, spaced_append]
    have hbehind : spaced (part :: after) = ' ' :: (part ++ gap after) ++ [' '].intercalate after := by
      rw [spaced_cons, spaced_eq_gap after, List.cons_append, List.append_assoc]
    -- the first part has no space in front of it, so it is passed over by itself
    calc replaceFirst (' ' :: (part ++ gap after)) [' '] ([' '].intercalate (first :: before ++ part :: after))
        = first ++ (spaced before ++
            replaceFirst (' ' :: (part ++ gap after)) [' '] (spaced (part :: after))) := by
          rw [hparted, replaceFirst_of_space_notMem hfirst, replaceFirst_spaced hbefore hothers]
      _ = first ++ (spaced before ++ ([' '] ++ [' '].intercalate after)) := by
          rw [hbehind, replaceFirst_append _ _ _ (by simp)]
      _ = [' '].intercalate (first :: before) ++ ' ' :: [' '].intercalate after := by
          rw [intercalate_cons, List.append_assoc, List.singleton_append]

/-- If an earlier part starts with the last one, `replaceFirst` takes text out of the earlier one. -/
theorem exists_replaceFirst_of_isPrefix (hearly : ∃ w ∈ before.tail, part <+: w) :
    ∃ front back, back ≠ [] ∧ [' '].intercalate (before ++ [part]) = front ++ (' ' :: part) ++ back ∧
      replaceFirst (gap before ++ part) [' '] ([' '].intercalate (before ++ [part])) = front ++ [' '] ++ back := by
  obtain ⟨first, rest, rfl⟩ : ∃ first rest, before = first :: rest := by
    cases before with
    | nil => simp at hearly
    | cons first rest => exact ⟨first, rest, rfl⟩
  obtain ⟨hfirst, hrest⟩ := List.forall_mem_cons.1 hbefore
  -- the first part that starts with it is where it is found
  obtain ⟨us, _, ws, rfl, ⟨tail, rfl⟩, hothers⟩ := Lists.exists_first hearly
  have hothers' : ∀ u ∈ us, ∀ behind, ¬ part <+: u ++ spaced behind := fun u hu _ hfound =>
    hothers u hu (isPrefix_of_isPrefix_spaced hpart hfound)
  have hus : ∀ u ∈ us, ' ' ∉ u := fun u hu => hrest u (List.mem_append_left _ hu)
  have hparted : [' '].intercalate (first :: (us ++ (part ++ tail) :: ws) ++ [part]) =
      first ++ (spaced us ++ spaced ((part ++ tail) :: ws ++ [part])) := by
    rw [List.cons_append, intercalate_cons, List.append_assoc, spaced_append]
  have hbehind : spaced ((part ++ tail) :: ws ++ [part]) = (' ' :: part) ++ (tail ++ spaced (ws ++ [part])) := by
    rw [List.cons_append, spaced_cons]
    simp
  refine ⟨first ++ spaced us, tail ++ spaced (ws ++ [part]), ?_, ?_, ?_⟩
  · rw [spaced_append]
    simp [spaced_cons]
  · rw [hparted, hbehind]
    simp
  · rw [hparted, gap_of_ne_nil (by simp), List.singleton_append, replaceFirst_of_space_notMem hfirst,
      replaceFirst_spaced hus hothers', hbehind, replaceFirst_append _ _ _ (by simp)]
    simp

end Part

end BlockScript.Text
