import BlockScript.Proofs.Reading.Mark
import BlockScript.Proofs.Text.Spaced

/-!
# The category that a comment names

A comment can name the category of its block by a part `category=pen` between its spaces. The part is looked for
by its form, `category=` and small letters, and the first part of this form is the only one that counts. It is
taken out by a second search, for its text. So a comment that asks for a category can be misread in three ways:
an earlier part of this form names no category; the category that it names is not written in small letters; or
the part is the last one, and an earlier one starts with it.

## Key results

- `Line.directive?_intercalate`: what the search finds, part by part
- `Line.categoryOf?_eq_of_isClear`: what is made of a comment that is not misread
- `Line.isClear_of_categoryOf?`: no other one is read as it asks
- `Vocabulary.doesAsAsked_iff`: so the block of a line does as its comment asks just if the comment is clear
- `Vocabulary.directive_missed`: a comment of each kind that is misread
-/

namespace BlockScript

namespace Line

open Text (parts spaced gap)

/-! ## Parts that name a category -/

/-- Whether a text is of small letters, of one at least. -/
def IsSmall (t : Text) : Prop := t ≠ [] ∧ ∀ c ∈ t, 'a' ≤ c ∧ c ≤ 'z'

instance (t : Text) : Decidable (IsSmall t) :=
  decidable_of_iff (t ≠ [] ∧ t.all (fun c => decide ('a' ≤ c ∧ c ≤ 'z')) = true)
    (by simp only [IsSmall, List.all_eq_true, decide_eq_true_eq])

/-- Whether a part has the form of a directive. -/
def IsDirective (part : Text) : Prop :=
  directiveStart <+: part ∧ IsSmall (part.drop directiveStart.length)

instance (part : Text) : Decidable (IsDirective part) :=
  inferInstanceAs (Decidable (_ ∧ _))

/-- The category that a part of a comment asks for. -/
def asked? (part : Text) : Option Category :=
  if directiveStart <+: part then Override.category? (part.drop directiveStart.length) else none

/-- The first part of a comment that asks for a category, with the parts before it and behind it. -/
structure AsksFor (comment : Text) (before : List Text) (part : Text) (after : List Text)
    (category : Category) : Prop where
  parts_eq : parts comment = before ++ part :: after
  asked : asked? part = some category
  first : ∀ w ∈ before, asked? w = none

/-- A comment from which a part has been taken out. -/
def without (before after : List Text) : Text :=
  Text.trim ([' '].intercalate before ++ ' ' :: [' '].intercalate after)

/-- Whether the part that asks for a category is the one that counts, and is found by its text. -/
structure IsClear (before : List Text) (part : Text) (after : List Text) : Prop where
  form : IsDirective part
  first : ∀ w ∈ before, ¬ IsDirective w
  last : after = [] → ∀ w ∈ before.tail, ¬ part <+: w

/-! ## What the search finds -/

/-- `directiveAt` takes the letters up to the next space, if they are all small. -/
private theorem directiveAt_append {letters : Text} (hspace : ' ' ∉ letters) (start : Text)
    (ws : List Text) :
    directiveAt start (letters ++ spaced ws) =
      if IsSmall letters then some (letters, start ++ letters ++ gap ws) else none := by
  unfold directiveAt
  dsimp only
  by_cases hsmall : ∀ c ∈ letters, 'a' ≤ c ∧ c ≤ 'z'
  · -- the letters are all taken, and the text behind them is a gap
    have hsmall' : ∀ c ∈ letters, (decide ('a' ≤ c) && decide (c ≤ 'z')) = true := by simpa using hsmall
    rw [List.takeWhile_append_of_pos hsmall', List.dropWhile_append_of_pos hsmall']
    cases letters with
    | nil => cases ws <;> simp [Text.spaced_cons, IsSmall]
    | cons c letters =>
      rw [if_pos ⟨List.cons_ne_nil c letters, hsmall⟩]
      cases ws <;> simp [Text.spaced_cons, gap]
  · -- what stands behind the small letters is no space
    rw [if_neg fun h => hsmall h.2]
    cases hrest : letters.dropWhile fun c => decide ('a' ≤ c) && decide (c ≤ 'z') with
    | nil =>
      rw [List.dropWhile_eq_nil_iff] at hrest
      exact absurd (by simpa using hrest) hsmall
    | cons d rest =>
      have hd : d ≠ ' ' := by
        rintro rfl
        exact hspace ((List.dropWhile_sublist _).subset (hrest ▸ List.mem_cons_self))
      rw [List.dropWhile_append, hrest]
      simp only [List.isEmpty_cons, Bool.false_eq_true, if_false, List.cons_append]
      split <;> simp_all

/-- What the search finds at the beginning of a part. -/
private theorem found_append {w : Text} (h : ' ' ∉ w) (start : Text) (ws : List Text) :
    (if directiveStart.isPrefixOf (w ++ spaced ws) then
        directiveAt (start ++ directiveStart) ((w ++ spaced ws).drop directiveStart.length)
      else none) =
      if IsDirective w then some (w.drop directiveStart.length, start ++ w ++ gap ws) else none := by
  by_cases hstart : directiveStart <+: w
  · obtain ⟨letters, rfl⟩ := hstart
    have hletters : ' ' ∉ letters := fun hmem => h (List.mem_append_right _ hmem)
    rw [if_pos (by simp [List.isPrefixOf_iff_prefix]), List.append_assoc, List.drop_left,
      directiveAt_append hletters]
    simp [IsDirective]
  · have hother : ¬ directiveStart <+: w ++ spaced ws :=
      fun hfound => hstart (Text.isPrefix_of_isPrefix_spaced (by decide) hfound)
    rw [if_neg (by rwa [List.isPrefixOf_iff_prefix]), if_neg fun hdirective => hstart hdirective.1]

/-- `laterDirective?` looks for a directive behind a space, so it passes over a text without spaces. -/
private theorem laterDirective?_of_space_notMem {w : Text} (h : ' ' ∉ w) (rest : Text) :
    laterDirective? (w ++ rest) = laterDirective? rest := by
  induction w with
  | nil => rfl
  | cons c w ih =>
    obtain ⟨hc, hw⟩ := not_or.1 (List.mem_cons.not.1 h)
    rw [List.cons_append, laterDirective?, if_neg fun hspace => hc hspace.1.symm]
    exact ih hw

/-- The search for a directive behind a space goes part by part. -/
private theorem laterDirective?_spaced_cons {w : Text} (h : ' ' ∉ w) (ws : List Text) :
    laterDirective? (spaced (w :: ws)) =
      if IsDirective w then some (w.drop directiveStart.length, ' ' :: w ++ gap ws)
      else laterDirective? (spaced ws) := by
  have hfound := found_append h [' '] ws
  rw [Text.spaced_cons, laterDirective?]
  simp only [true_and]
  rw [List.singleton_append] at hfound
  rw [hfound]
  by_cases hw : IsDirective w
  · rw [if_pos hw, if_pos hw]
    rfl
  · rw [if_neg hw, if_neg hw]
    exact laterDirective?_of_space_notMem h (spaced ws)

/-- `directive?` takes the first part if it `IsDirective`, and else looks in the later ones. -/
private theorem directive?_append_spaced {w : Text} (h : ' ' ∉ w) (ws : List Text) :
    directive? (w ++ spaced ws) =
      if IsDirective w then some (w.drop directiveStart.length, w ++ gap ws)
      else laterDirective? (spaced ws) := by
  have hfound := found_append h [] ws
  rw [List.nil_append] at hfound
  unfold directive?
  rw [hfound]
  by_cases hw : IsDirective w
  · rw [if_pos hw, if_pos hw]
    rfl
  · rw [if_neg hw, if_neg hw]
    exact laterDirective?_of_space_notMem h (spaced ws)

/-- Nothing is found behind parts that are no directives, or the first one that is one. -/
private theorem laterDirective?_spaced {ws : List Text} (hspace : ∀ w ∈ ws, ' ' ∉ w) :
    ((∀ w ∈ ws, ¬ IsDirective w) → laterDirective? (spaced ws) = none) ∧
      ∀ before part after, ws = before ++ part :: after → IsDirective part → (∀ w ∈ before, ¬ IsDirective w) →
        laterDirective? (spaced ws) = some (part.drop directiveStart.length, ' ' :: part ++ gap after) := by
  -- the first part decides, or it is left out and the others do
  induction ws with
  | nil => exact ⟨fun _ => rfl, fun before part after h => by simp at h⟩
  | cons w ws ih =>
    obtain ⟨hw, hws⟩ := List.forall_mem_cons.1 hspace
    obtain ⟨hnone, hsome⟩ := ih hws
    rw [laterDirective?_spaced_cons hw]
    constructor
    · intro hother
      obtain ⟨hw', hws'⟩ := List.forall_mem_cons.1 hother
      rw [if_neg hw', hnone hws']
    · -- the first directive is this part, or one of the later ones
      intro before part after hparts hpart hfirst
      cases before with
      | nil =>
        cases hparts
        rw [if_pos hpart]
      | cons u before =>
        cases hparts
        obtain ⟨hu, hbefore⟩ := List.forall_mem_cons.1 hfirst
        rw [if_neg hu, hsome before part after rfl hpart hbefore]

section Comment

variable {comment : Text}

/-- Nothing is found in a comment without a directive. -/
private theorem directive?_eq_none (h : ∀ w ∈ parts comment, ¬ IsDirective w) :
    directive? comment = none := by
  obtain ⟨w, ws, hparts⟩ := List.exists_cons_of_ne_nil (Text.parts_ne_nil comment)
  have hspace : ∀ u ∈ w :: ws, ' ' ∉ u := fun u hu => Text.space_notMem_of_mem_parts (hparts ▸ hu)
  obtain ⟨hw, hws⟩ := List.forall_mem_cons.1 hspace
  rw [hparts] at h
  obtain ⟨hother, hothers⟩ := List.forall_mem_cons.1 h
  rw [← Text.intercalate_parts comment, hparts, Text.intercalate_cons, directive?_append_spaced hw, if_neg hother]
  exact (laterDirective?_spaced hws).1 hothers

/-- The first directive of a comment is found, with the spaces around it. -/
private theorem directive?_eq_some {before after : List Text} {part : Text}
    (hparts : parts comment = before ++ part :: after)
    (hpart : IsDirective part) (hfirst : ∀ w ∈ before, ¬ IsDirective w) :
    directive? comment = some (part.drop directiveStart.length, gap before ++ part ++ gap after) := by
  have hspace : ∀ u ∈ before ++ part :: after, ' ' ∉ u := fun u hu =>
    Text.space_notMem_of_mem_parts (hparts ▸ hu)
  rw [← Text.intercalate_parts comment, hparts]
  -- the first part is looked at where it stands, a later one behind a space
  cases before with
  | nil =>
    rw [List.nil_append, Text.intercalate_cons, directive?_append_spaced (hspace part (by simp)), if_pos hpart]
    rfl
  | cons u before =>
    rw [List.cons_append, List.forall_mem_cons] at hspace
    rw [List.cons_append, Text.intercalate_cons, directive?_append_spaced hspace.1,
      if_neg (hfirst u List.mem_cons_self)]
    exact (laterDirective?_spaced hspace.2).2 before part after rfl hpart
      fun w hw => hfirst w (List.mem_cons_of_mem u hw)

/-- A comment has no directive, or a first one. -/
private theorem directive?_cases (comment : Text) :
    directive? comment = none ∨ ∃ before part after, parts comment = before ++ part :: after ∧
      IsDirective part ∧ (∀ w ∈ before, ¬ IsDirective w) ∧
      directive? comment = some (part.drop directiveStart.length, gap before ++ part ++ gap after) := by
  by_cases h : ∃ w ∈ parts comment, IsDirective w
  · obtain ⟨before, part, after, hparts, hpart, hfirst⟩ := Lists.exists_first h
    exact .inr ⟨before, part, after, hparts, hpart, hfirst, directive?_eq_some hparts hpart hfirst⟩
  · exact .inl (directive?_eq_none (by simpa using h))

/-! ## What is made of it -/

private theorem asked?_of_isDirective {part : Text} (h : IsDirective part) :
    asked? part = Override.category? (part.drop directiveStart.length) := if_pos h.1

/-- A category is asked for by one part only. -/
private theorem eq_of_asked?_eq_some {part : Text} {category : Category} (h : asked? part = some category) :
    part = directiveStart ++ category.name := by
  unfold asked? at h
  split at h
  · rename_i hstart
    obtain ⟨name, rfl⟩ := hstart
    rw [List.drop_left, Override.category?] at h
    have hname := List.find?_some h
    rw [beq_iff_eq.1 hname]
  · cases h

/-- A comment that asks for no category names none. -/
private theorem categoryOf?_eq_none (h : ∀ w ∈ parts comment, asked? w = none) :
    categoryOf? comment = none := by
  rcases directive?_cases comment with hnone | ⟨before, part, after, hparts, hpart, -, hfound⟩
  · rw [categoryOf?, hnone]
    rfl
  · have hasked := h part (by simp [hparts])
    rw [asked?_of_isDirective hpart] at hasked
    simp [categoryOf?, hfound, hasked]

section Asked

variable {before after : List Text} {part : Text} {category : Category}
  (h : AsksFor comment before part after category)

include h

/-- A comment that `IsClear` is read by `categoryOf?` as it asks. -/
theorem categoryOf?_eq_of_isClear (hclear : IsClear before part after) :
    categoryOf? comment = some (category, without before after) := by
  have hspace : ∀ u ∈ before ++ part :: after, ' ' ∉ u := fun u hu =>
    Text.space_notMem_of_mem_parts (h.parts_eq ▸ hu)
  have hfilled : part ≠ [] := fun hnil => hclear.form.2.1 (by simp [hnil])
  have hnew : part ∉ before := fun hmem => hclear.first part hmem hclear.form
  -- the directive is taken out by its text, which stands nowhere before it
  have htaken := Text.replaceFirst_part (fun w hw => hspace w (List.mem_append_left _ hw))
    (hspace part (by simp)) hfilled hnew hclear.last
  rw [← h.parts_eq, Text.intercalate_parts] at htaken
  have hasked := h.asked
  rw [asked?_of_isDirective hclear.form] at hasked
  rw [categoryOf?, directive?_eq_some h.parts_eq hclear.form hclear.first]
  simp only [Option.bind_eq_bind, Option.bind_some, hasked, htaken]
  rfl

/-- What is left of it is shorter than the comment. -/
private theorem AsksFor.length_without_lt : (without before after).length < comment.length := by
  have hle := Text.length_trim_le ([' '].intercalate before ++ ' ' :: [' '].intercalate after)
  have hpart : directiveStart.length ≤ part.length := by
    rw [eq_of_asked?_eq_some h.asked, List.length_append]
    omega
  have hstart : directiveStart.length = 9 := rfl
  rw [without, ← Text.intercalate_parts comment, h.parts_eq, Text.intercalate_append_cons]
  simp only [List.length_append, List.length_cons] at hle ⊢
  omega

/-- The directive that is found in a comment that is read as it asks is the part that asks. -/
private theorem AsksFor.isDirective_of_categoryOf? {rest : Text}
    (hread : categoryOf? comment = some (category, rest)) :
    IsDirective part ∧ (∀ w ∈ before, ¬ IsDirective w) ∧
      rest = Text.trim (Text.replaceFirst (gap before ++ part ++ gap after) [' '] comment) := by
  rcases directive?_cases comment with hnone | ⟨before', part', after', hparts, hpart, hfirst, hfound⟩
  · simp [categoryOf?, hnone] at hread
  · simp only [categoryOf?, hfound, Option.bind_eq_bind, Option.bind_some, Option.bind_eq_some_iff,
      Option.some.injEq, Prod.mk.injEq] at hread
    obtain ⟨found, hcategory, rfl, rfl⟩ := hread
    rw [← asked?_of_isDirective hpart] at hcategory
    -- the category says what the part is, so both are the same word
    obtain rfl : part' = part := by
      rw [eq_of_asked?_eq_some hcategory, eq_of_asked?_eq_some h.asked]
    have hnew : part' ∉ before' := fun hmem => hfirst part' hmem hpart
    -- nothing in front asks, and `part'` does, so it is the first of its kind in both
    have hnew' : part' ∉ before := fun hmem => by simpa [h.asked] using h.first part' hmem
    obtain ⟨rfl, rfl⟩ := Lists.append_cons_inj (hparts.symm.trans h.parts_eq) hnew hnew'
    exact ⟨hpart, hfirst, rfl⟩

/-- If the part that asks is the last one, its space goes as well. -/
private theorem AsksFor.length_without_nil_lt (hafter : after = []) (hbefore : before ≠ []) :
    (without before after).length + part.length < comment.length := by
  subst hafter
  have hleft : without before [] = Text.trim ([' '].intercalate before) := by
    rw [without, List.intercalate_nil, Text.trim_append_right _ [' '] (List.forall_mem_singleton.2 rfl)]
  have hlength : comment.length = ([' '].intercalate before).length + 1 + part.length := by
    conv_lhs => rw [← Text.intercalate_parts comment, h.parts_eq, Text.intercalate_append_cons]
    rw [Text.gap_of_ne_nil hbefore]
    simp only [List.length_append, List.length_singleton, Text.gap_nil, List.intercalate_nil, List.length_nil]
    omega
  have hle := Text.length_trim_le ([' '].intercalate before)
  rw [hleft, hlength]
  omega

/-- Only a comment that `IsClear` is. -/
theorem isClear_of_categoryOf? (htrim : Text.trim comment = comment)
    (hread : categoryOf? comment = some (category, without before after)) : IsClear before part after := by
  obtain ⟨hpart, hfirst, hleft⟩ := h.isDirective_of_categoryOf? hread
  refine ⟨hpart, hfirst, fun hafter w hw hearly => ?_⟩
  -- the part is not the first one, for there is one in front of it
  have hbefore : before ≠ [] := by
    rintro rfl
    cases hw
  have hshort := h.length_without_nil_lt hafter hbefore
  subst hafter
  have hspace : ∀ u ∈ before ++ [part], ' ' ∉ u := fun u hu =>
    Text.space_notMem_of_mem_parts (h.parts_eq ▸ hu)
  -- the text would be taken out of the earlier part
  obtain ⟨front, back, hback, hcomment, hreplaced⟩ := Text.exists_replaceFirst_of_isPrefix
    (fun u hu => hspace u (List.mem_append_left _ hu)) (hspace part (by simp)) ⟨w, hw, hearly⟩
  rw [← h.parts_eq, Text.intercalate_parts] at hcomment hreplaced
  have hends : Text.IsTight (front ++ (' ' :: part) ++ back) := by
    rw [← hcomment, ← htrim]
    exact Text.isTight_trim (by rw [htrim, hcomment]; simp)
  -- the space that is put in stays, for it stands within the comment
  have hkept : without before [] = front ++ [' '] ++ back := by
    rw [hleft, Text.gap_nil, List.append_nil, hreplaced, (hends.space_within hback).trim_eq_self]
  rw [hkept, hcomment] at hshort
  simp only [List.length_append, List.length_cons, List.length_nil] at hshort
  omega

end Asked

end Comment

/-! ## The block of a line -/

/-- A block does as its comment asks: it is in the category that the first part asks for, and keeps the comment
    without this part; if no part asks for one, the comment changes nothing. -/
structure DoesAsAsked (comment : Text) (b₀ b : Block) : Prop where
  asked : ∀ before part after category, AsksFor comment before part after category →
    b.attrs.category = some category ∧ b.attrs.comment = keptComment (without before after)
  unasked : (∀ w ∈ parts comment, asked? w = none) →
    b.attrs.category = b₀.attrs.category ∧ b.attrs.comment = keptComment comment

/-- What is kept of a comment tells the comment. -/
private theorem keptComment_inj {s t : Text} (h : keptComment s = keptComment t) : s = t := by
  unfold keptComment at h
  split at h <;> split at h <;> simp_all

/-- A comment must be clear for the block to do as it asks. -/
private theorem DoesAsAsked.isClear {comment : Text} {o o₀ : Outcome Block} {b b₀ : Block}
    (hdoes : DoesAsAsked comment b₀ b) (h : IsCommented comment o o₀)
    (htrim : Text.trim comment = comment) (hread : o.result = .ok b) (hread₀ : o₀.result = .ok b₀)
    (hshape : b₀.attrs.shape ≠ some .defineHat) {before after : List Text}
    {part : Text} {category : Category} (hask : AsksFor comment before part after category) :
    IsClear before part after := by
  obtain ⟨hcategory, hcomment⟩ := hdoes.asked before part after category hask
  cases hnamed : categoryOf? comment with
  | none =>
    -- the comment would be kept as a whole
    rw [(h.plain b₀ hread₀ (.inr hnamed)).1] at hread
    cases hread
    have hlength := hask.length_without_lt
    rw [← keptComment_inj hcomment] at hlength
    exact absurd hlength (lt_irrefl _)
  | some named =>
    obtain ⟨found, rest⟩ := named
    -- what is found is what was asked for, and what is kept is the rest
    obtain ⟨calledAs, hput⟩ := h.directed b₀ found rest hread₀ hshape hnamed
    rw [hput] at hread
    cases hread
    obtain rfl : found = category := Option.some.inj hcategory
    obtain rfl := keptComment_inj hcomment
    exact isClear_of_categoryOf? hask htrim hnamed

/-- If it is clear, the block does so. -/
private theorem doesAsAsked_of_isClear {comment : Text} {o o₀ : Outcome Block} {b b₀ : Block}
    (hclear : ∀ before part after category, AsksFor comment before part after category → IsClear before part after)
    (h : IsCommented comment o o₀) (hread : o.result = .ok b) (hread₀ : o₀.result = .ok b₀)
    (hshape : b₀.attrs.shape ≠ some .defineHat) : DoesAsAsked comment b₀ b where
  asked before part after category hask := by
    have hnamed := categoryOf?_eq_of_isClear hask (hclear before part after category hask)
    obtain ⟨calledAs, hput⟩ := h.directed b₀ category _ hread₀ hshape hnamed
    rw [hput] at hread
    cases hread
    exact ⟨rfl, rfl⟩
  unasked hunasked := by
    rw [(h.plain b₀ hread₀ (.inr (categoryOf?_eq_none hunasked))).1] at hread
    cases hread
    exact ⟨rfl, rfl⟩

/-- Without its comment, a line that is no header is read as a block that is none either. -/
private theorem IsCommented.exists_block {comment : Text} {o o₀ : Outcome Block} {b : Block}
    (h : IsCommented comment o o₀)
    (hread : o.result = .ok b) (hshape : b.attrs.shape ≠ some .defineHat) :
    ∃ b₀, o₀.result = .ok b₀ ∧ b₀.attrs.shape ≠ some .defineHat := by
  cases hread₀ : o₀.result with
  | error f =>
    rw [h.fault f hread₀, hread₀] at hread
    cases hread
  | ok b₀ =>
    refine ⟨b₀, rfl, fun hheader => hshape ?_⟩
    rw [(h.plain b₀ hread₀ (.inl hheader)).1] at hread
    cases hread
    exact hheader

end Line

namespace Vocabulary

open Line

/-- The block of a line that is no header `DoesAsAsked` by its comment just if the part that `AsksFor` a
    category `IsClear`, if there is one: it is the first one of its form, and if it is the last part of the
    comment, no earlier one but the first starts with it. -/
theorem doesAsAsked_iff (v : Vocabulary) {line comment : Text} {b : Block} (hbare : bareText line ≠ [])
    (hcomment : commentText? line = some comment) (hread : (v.readLine line).result = .ok b)
    (hshape : b.attrs.shape ≠ some .defineHat) :
    ∃ b₀, (v.readLine (bareText line)).result = .ok b₀ ∧
      (DoesAsAsked comment b₀ b ↔
        ∀ before part after category, AsksFor comment before part after category → IsClear before part after) := by
  have hput := isCommented_readLine v hbare hcomment
  obtain ⟨b₀, hread₀, hshape₀⟩ := hput.exists_block hread hshape
  exact ⟨b₀, hread₀,
    fun hdoes _ _ _ _ hask =>
      hdoes.isClear hput (trim_of_commentText? hcomment) hread hread₀ hshape₀ hask,
    fun hclear => doesAsAsked_of_isClear hclear hput hread hread₀ hshape₀⟩

/-- The block that an outcome gives, if it passes a test. -/
private theorem exists_block_of_any {o : Outcome Block} {p : Block → Bool}
    (h : o.result.toOption.any p = true) : ∃ b, o.result = .ok b ∧ p b = true := by
  obtain ⟨result, complaints, sightings⟩ := o
  cases result with
  | error f => cases h
  | ok b => exact ⟨b, rfl, h⟩

/-- A comment that asks for a category in front of a remark. -/
theorem doesAsAsked_iff_of_pen :
    bareText "foo // category=pen fast".toList ≠ [] ∧
      commentText? "foo // category=pen fast".toList = some "category=pen fast".toList ∧
      ∃ b, ((empty true).readLine "foo // category=pen fast".toList).result = .ok b ∧
        b.attrs.shape ≠ some .defineHat ∧
        ∃ b₀, ((empty true).readLine (bareText "foo // category=pen fast".toList)).result = .ok b₀ ∧
          (DoesAsAsked "category=pen fast".toList b₀ b ↔ ∀ before part after category,
            AsksFor "category=pen fast".toList before part after category → IsClear before part after) := by
  have hbare : bareText "foo // category=pen fast".toList ≠ [] := by decide
  have hcomment : commentText? "foo // category=pen fast".toList = some "category=pen fast".toList := by decide
  obtain ⟨b, hread, hshape⟩ := exists_block_of_any
    (by decide : ((empty true).readLine "foo // category=pen fast".toList).result.toOption.any
      (fun b => b.attrs.shape == some .stack) = true)
  have hshape' : b.attrs.shape ≠ some .defineHat := by
    rw [beq_iff_eq.1 hshape]
    decide
  exact ⟨hbare, hcomment, b, hread, hshape', doesAsAsked_iff (empty true) hbare hcomment hread hshape'⟩

/-- A line asks by its comment for a category, and its block, which is no header, does not as it asks. -/
def MissesDirective (v : Vocabulary) (line : Text) : Prop :=
  ∃ comment before part after category b₀ b, commentText? line = some comment ∧
    AsksFor comment before part after category ∧ (v.readLine (bareText line)).result = .ok b₀ ∧
    (v.readLine line).result = .ok b ∧ b.attrs.shape ≠ some .defineHat ∧ ¬ DoesAsAsked comment b₀ b

/-- A line does so if the part that asks is not clear. -/
private theorem missesDirective_of_not_isClear (v : Vocabulary) {line comment : Text}
    (hbare : bareText line ≠ [])
    (hcomment : commentText? line = some comment) {before after : List Text} {part : Text} {category : Category}
    (hask : AsksFor comment before part after category) (hclear : ¬ IsClear before part after)
    (hstack : (v.readLine line).result.toOption.any (fun b => b.attrs.shape == some .stack) = true) :
    v.MissesDirective line := by
  obtain ⟨b, hread, hshape⟩ := exists_block_of_any hstack
  have hshape' : b.attrs.shape ≠ some .defineHat := by
    rw [beq_iff_eq.1 hshape]
    decide
  have hput := isCommented_readLine v hbare hcomment
  obtain ⟨b₀, hread₀, hshape₀⟩ := hput.exists_block hread hshape'
  exact ⟨comment, before, part, after, category, b₀, b, hcomment, hask, hread₀, hread, hshape', fun hdoes =>
    hclear (hdoes.isClear hput (trim_of_commentText? hcomment) hread hread₀ hshape₀ hask)⟩

/-- What these comments ask for is not done: the name is not written in small letters alone, an earlier part
    names no `category`, or an earlier part starts with the last one. -/
theorem directive_missed :
    (empty true).MissesDirective "foo // category=custom-arg".toList ∧
      (empty true).MissesDirective "foo // category=sparkly category=pen".toList ∧
      (empty true).MissesDirective "foo // a category=penX category=pen".toList := by
  -- each comment fails another one of the three conditions of `IsClear`
  refine ⟨?_, ?_, ?_⟩
  · have hask : AsksFor "category=custom-arg".toList [] "category=custom-arg".toList [] .customArg :=
      ⟨by decide, by decide, by decide⟩
    exact missesDirective_of_not_isClear (empty true) (by decide) (by decide) hask
      (fun h => absurd h.form (by decide)) (by decide)
  · have hask : AsksFor "category=sparkly category=pen".toList ["category=sparkly".toList] "category=pen".toList
        [] .pen := ⟨by decide, by decide, by decide⟩
    exact missesDirective_of_not_isClear (empty true) (by decide) (by decide) hask
      (fun h => h.first "category=sparkly".toList (by simp) (by decide)) (by decide)
  · have hask : AsksFor "a category=penX category=pen".toList ["a".toList, "category=penX".toList]
        "category=pen".toList [] .pen := ⟨by decide, by decide, by decide⟩
    exact missesDirective_of_not_isClear (empty true) (by decide) (by decide) hask
      (fun h => h.last rfl "category=penX".toList (by simp) (by decide)) (by decide)

end Vocabulary

end BlockScript
