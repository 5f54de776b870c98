import BlockScript.Proofs.Text.Lines
import BlockScript.Reading.Line

/-!
# Where comments start

A line is cut at its first two slashes, unless a colon stands in front of them. What is left to be read
as a block is *uncommented*: it may hold slashes, but none that would start a comment.

## Key results

- `Line.uncommented_of_splitComment_eq_none`: a line without a comment is uncommented
- `Line.uncommented_of_splitComment`: so is what stands in front of a comment
- `Line.splitComment_first`: where a line is cut
- `Line.readLine_of_bareText`: what is made of the two parts
-/

namespace BlockScript.Line

/-- Whether no two slashes stand in a text without a slash or a colon before them. -/
def Uncommented (t : Text) : Prop :=
  ∀ pre post : Text, (∀ c ∈ pre, c ≠ '/' ∧ c ≠ ':') → t ≠ pre ++ '/' :: '/' :: post

/-- At two slashes `splitComment` splits, unless a colon is right in front of them: then it gives up. -/
theorem splitComment_slashes (before rest : Text) :
    splitComment before ('/' :: '/' :: rest) =
      if before.head? = some ':' then none else some (before.reverse, rest) := by
  rw [splitComment]

/-- Anywhere but at two slashes `splitComment` goes on behind the character. -/
theorem splitComment_cons (before : Text) {c : Char} {rest : Text}
    (h : ∀ rest', c :: rest ≠ '/' :: '/' :: rest') :
    splitComment before (c :: rest) = splitComment (c :: before) rest := by
  rw [splitComment]
  intro rest' hc hrest
  exact h rest' (by rw [hc, hrest])

/-- Two slashes without a slash or a colon before them start a comment. -/
private theorem splitComment_ne_none (before pre post : Text) (hbefore : before.head? ≠ some ':')
    (hpre : ∀ c ∈ pre, c ≠ '/' ∧ c ≠ ':') :
    splitComment before (pre ++ '/' :: '/' :: post) ≠ none := by
  induction pre generalizing before with
  | nil =>
    rw [List.nil_append, splitComment_slashes, if_neg hbefore]
    simp
  | cons c pre ih =>
    obtain ⟨⟨hslash, hcolon⟩, hpre⟩ := List.forall_mem_cons.1 hpre
    rw [List.cons_append, splitComment_cons]
    · exact ih (c :: before) (by simpa using hcolon) hpre
    · intro rest' h
      exact hslash (List.cons.inj h).1

/-- A line in which `splitComment` finds nothing is `Uncommented`. -/
theorem uncommented_of_splitComment_eq_none {t : Text} (h : splitComment [] t = none) :
    Uncommented t := by
  rintro pre post hpre rfl
  exact splitComment_ne_none [] pre post (by simp) hpre h

/-- The slashes at which `splitComment` cuts a line are the first ones. -/
theorem splitComment_eq_some {before t front back : Text}
    (h : splitComment before t = some (front, back)) :
    ∃ u, front = before.reverse ++ u ∧ t = u ++ '/' :: '/' :: back ∧
      ∀ pre post, u ≠ pre ++ '/' :: '/' :: post := by
  induction t generalizing before with
  | nil => simp [splitComment] at h
  | cons c rest ih =>
    by_cases hslashes : ∃ rest', c :: rest = '/' :: '/' :: rest'
    · obtain ⟨rest', hrest⟩ := hslashes
      rw [hrest, splitComment_slashes] at h
      split at h
      · -- right behind a colon the two slashes end the search
        cases h
      · cases h
        exact ⟨[], by simp, hrest, by simp⟩
    · have hslashes : ∀ rest', c :: rest ≠ '/' :: '/' :: rest' :=
        fun rest' hrest => hslashes ⟨rest', hrest⟩
      rw [splitComment_cons before hslashes] at h
      obtain ⟨u, hfront, hrest, hu⟩ := ih h
      refine ⟨c :: u, by simp [hfront], by rw [hrest, List.cons_append], ?_⟩
      intro pre post hpre
      cases pre with
      | nil =>
        -- the slashes would stand in front, where the search began
        obtain ⟨rfl, rfl⟩ := List.cons.inj hpre
        exact hslashes (post ++ '/' :: '/' :: back) (by rw [hrest]; rfl)
      -- slashes further on would be in the text that has been searched
      | cons d pre => exact hu pre post (List.cons.inj hpre).2

/-- What stands in front of a comment is `Uncommented`. -/
theorem uncommented_of_splitComment {t front back : Text}
    (h : splitComment [] t = some (front, back)) : Uncommented (Text.trim front) := by
  obtain ⟨u, hfront, -, hu⟩ := splitComment_eq_some h
  obtain ⟨lead, trail, hu', -, -⟩ := Text.exists_eq_trim front
  intro pre post _ hpre
  refine hu (lead ++ pre) (post ++ trail) ?_
  calc u = lead ++ Text.trim front ++ trail := by rw [← hu', hfront]; rfl
    _ = lead ++ pre ++ '/' :: '/' :: (post ++ trail) := by rw [hpre]; simp

/-! ## Where the first two slashes are -/

/-- A text starts with two slashes if it is made of them and something behind. -/
theorem slashes_isPrefix_iff {t : Text} : "//".toList <+: t ↔ ∃ back, t = '/' :: '/' :: back :=
  ⟨fun ⟨back, h⟩ => ⟨back, h.symm⟩, fun ⟨back, h⟩ => ⟨back, h.symm⟩⟩

/-- What is up to the first of two slashes stands in front of the rest. -/
private theorem isPrefix_of_slashes (front back : Text) : front ++ ['/'] <+: front ++ '/' :: '/' :: back :=
  ⟨'/' :: back, by simp⟩

/-- Two slashes in a text have a first place. -/
theorem exists_first_slashes {t : Text} (h : "//".toList <:+: t) :
    ∃ front back, t = front ++ '/' :: '/' :: back ∧ ¬ "//".toList <:+: front ++ ['/'] := by
  induction t with
  | nil => exact absurd h.length_le (by decide)
  | cons c t ih =>
    by_cases hfirst : "//".toList <+: c :: t
    · obtain ⟨back, hback⟩ := slashes_isPrefix_iff.1 hfirst
      exact ⟨[], back, hback, fun hwithin => absurd hwithin.length_le (by decide)⟩
    · obtain ⟨front, back, rfl, hfront⟩ := ih ((List.infix_cons_iff.1 h).resolve_left hfirst)
      refine ⟨c :: front, back, rfl, fun hwithin => ?_⟩
      rcases List.infix_cons_iff.1 hwithin with hbegins | hwithin
      · exact hfirst (hbegins.trans (isPrefix_of_slashes (c :: front) back))
      · exact hfront hwithin

/-- `splitComment` cuts a line there, unless a colon stands in front. -/
theorem splitComment_first {front : Text} (h : ¬ "//".toList <:+: front ++ ['/']) (before back : Text) :
    splitComment before (front ++ '/' :: '/' :: back) =
      if (front.reverse ++ before).head? = some ':' then none
      else some (before.reverse ++ front, back) := by
  induction front generalizing before with
  | nil =>
    rw [List.nil_append, splitComment_slashes, List.append_nil]
    rfl
  | cons c front ih =>
    have hlater : ¬ "//".toList <:+: front ++ ['/'] := fun hwithin => h (List.infix_cons hwithin)
    rw [List.cons_append, splitComment_cons before fun rest hrest => h ?_, ih hlater]
    · simp
    · -- slashes at the very start would be within `front` and the slash behind it
      have hslashes : "//".toList <+: c :: front ++ '/' :: '/' :: back :=
        slashes_isPrefix_iff.2 ⟨rest, hrest⟩
      refine (List.prefix_of_prefix_length_le hslashes (isPrefix_of_slashes _ back) ?_).isInfix
      simp

/-! ## The two parts of a line -/

/-- What of a line is read as a block: all but its comment, without the blanks at the ends. -/
def bareText (line : Text) : Text :=
  match splitComment [] (Text.trim line) with
  | none => Text.trim line
  | some (front, _) => Text.trim front

/-- The text of the comment of a line, without the blanks at its ends. -/
def commentText? (line : Text) : Option Text :=
  (splitComment [] (Text.trim line)).map fun parts => Text.trim parts.2

/-- A line with a `bareText` is read as the block of this text, with the `commentText?` of the line. -/
theorem readLine_of_bareText (v : Vocabulary) {line : Text} (h : bareText line ≠ []) :
    v.readLine line = withComment v (commentText? line) (readBare v (bareText line)) := by
  unfold bareText at h ⊢
  unfold Vocabulary.readLine commentText?
  dsimp only
  cases hsplit : splitComment [] (Text.trim line) with
  | none => rfl
  | some parts =>
    rw [hsplit] at h
    dsimp only at h ⊢
    cases hfront : Text.trim parts.1 with
    | nil => exact absurd hfront h
    | cons c rest => rfl

end BlockScript.Line
