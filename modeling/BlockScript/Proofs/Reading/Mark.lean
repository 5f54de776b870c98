import Mathlib.Data.Nat.Find
import BlockScript.Proofs.Reading.Depth
import BlockScript.Proofs.Reading.Name
import BlockScript.Proofs.Vocabulary.Bundled

/-!
# The mark of a comment

The *mark* of a comment is two slashes without a colon directly in front of them, as a colon there belongs to
an address such as `http://example.com`. A line is searched for its first two slashes only. If these are no
mark, a mark that stands behind them is *hidden*: the line is read as if it had no comment.

## Key results

- `Line.splitComment_of_first`: where a line is cut, by the place of its first two slashes
- `Line.isCommented_withComment`: what a comment changes in the reading of a block
- `Vocabulary.comment_at_first_mark`: a comment starts at the first mark of a line just if no address hides it
-/

namespace BlockScript

namespace Line

/-! ## Marks -/

/-- Two slashes stand at a place in a text. -/
def SlashPairAt (t : Text) (i : Nat) : Prop := "//".toList <+: t.drop i

/-- Two slashes stand at a place in a text, and no colon in front of them. -/
def MarkAt (t : Text) (i : Nat) : Prop := SlashPairAt t i ∧ (t.take i).getLast? ≠ some ':'

/-- The first mark of a text stands at a place. -/
def FirstMarkAt (t : Text) (i : Nat) : Prop := MarkAt t i ∧ ∀ j < i, ¬ MarkAt t j

/-- Two slashes behind a colon stand in front of the first mark of a text. -/
def HidesMark (t : Text) : Prop := ∃ i, FirstMarkAt t i ∧ ∃ j < i, SlashPairAt t j

instance (t : Text) (i : Nat) : Decidable (SlashPairAt t i) :=
  inferInstanceAs (Decidable ("//".toList <+: t.drop i))

instance (t : Text) (i : Nat) : Decidable (MarkAt t i) :=
  inferInstanceAs (Decidable (_ ∧ _))

instance (t : Text) (i : Nat) : Decidable (FirstMarkAt t i) :=
  inferInstanceAs (Decidable (_ ∧ _))

private theorem not_slashPairAt_nil (i : Nat) : ¬ SlashPairAt [] i := by
  intro h
  rw [SlashPairAt, List.drop_nil] at h
  exact absurd h.length_le (by decide)

/-- `splitComment` cuts a line at its first two slashes, unless a colon stands in front of them. -/
theorem splitComment_of_first {t : Text} {k : Nat} (hk : SlashPairAt t k) (hfirst : ∀ j < k, ¬ SlashPairAt t j)
    (before : Text) :
    splitComment before t =
      if ((t.take k).reverse ++ before).head? = some ':' then none
      else some (before.reverse ++ t.take k, t.drop (k + 2)) := by
  induction k generalizing t before with
  | zero =>
    obtain ⟨back, rfl⟩ := slashes_isPrefix_iff.1 hk
    simp [splitComment_slashes]
  | succ k ih =>
    -- the place moves with the text, so the induction is on the place
    cases t with
    | nil => exact absurd hk (not_slashPairAt_nil _)
    | cons c rest =>
      have hlater : ∀ j < k, ¬ SlashPairAt rest j := fun j hj => hfirst (j + 1) (by omega)
      rw [splitComment_cons before fun rest' hrest =>
        hfirst 0 (by omega) (slashes_isPrefix_iff.2 ⟨rest', hrest⟩), ih hk hlater]
      simp

/-- Slashes that stand in a text have a first place. -/
private theorem exists_first_slashPairAt {t : Text} {i : Nat} (h : SlashPairAt t i) :
    ∃ k ≤ i, SlashPairAt t k ∧ ∀ j < k, ¬ SlashPairAt t j := by
  have hex : ∃ k, SlashPairAt t k := ⟨i, h⟩
  exact ⟨Nat.find hex, Nat.find_le h, Nat.find_spec hex, fun j hj => Nat.find_min hex hj⟩

private theorem slashPairAt_length (front back : Text) :
    SlashPairAt (front ++ '/' :: '/' :: back) front.length :=
  slashes_isPrefix_iff.2 ⟨back, List.drop_left⟩

/-- Slashes within the beginning of a text stand somewhere in it. -/
private theorem exists_slashPairAt_of_take {t : Text} {i : Nat} (h : "//".toList <:+: t.take i) :
    ∃ j < i, SlashPairAt t j := by
  obtain ⟨front, back, hfront, -⟩ := exists_first_slashes h
  have hlength := congrArg List.length hfront
  simp only [List.length_take, List.length_append, List.length_cons] at hlength
  refine ⟨front.length, by omega, ?_⟩
  rw [← List.take_append_drop i t, hfront, List.append_assoc]
  exact slashPairAt_length front (back ++ t.drop i)

/-- A text without slashes is not cut. -/
private theorem splitComment_of_forall_not_slashPairAt {t : Text} (h : ∀ i, ¬ SlashPairAt t i) :
    splitComment [] t = none := by
  refine splitComment_eq_none (fun hwithin => ?_) []
  rw [← List.take_length (l := t)] at hwithin
  obtain ⟨j, -, hj⟩ := exists_slashPairAt_of_take hwithin
  exact h j hj

section Cuts

variable {t : Text}

/-- A line is cut at a first mark that is not hidden. -/
private theorem splitComment_of_firstMarkAt {i : Nat} (hi : FirstMarkAt t i) (hseen : ¬ HidesMark t) :
    splitComment [] t = some (t.take i, t.drop (i + 2)) := by
  have hfirst : ∀ j < i, ¬ SlashPairAt t j := fun j hj hslashes => hseen ⟨i, hi, j, hj, hslashes⟩
  rw [splitComment_of_first hi.1.1 hfirst, if_neg (by simpa using hi.1.2)]
  rfl

/-- A line is not cut where a colon stands in front of its first slashes. -/
private theorem splitComment_of_not_markAt {i : Nat} (hi : SlashPairAt t i)
    (hearlier : ∀ j ≤ i, ¬ MarkAt t j) :
    splitComment [] t = none := by
  obtain ⟨k, hki, hk, hfirst⟩ := exists_first_slashPairAt hi
  have hcolon : (t.take k).getLast? = some ':' := by
    by_contra hcolon
    exact hearlier k hki ⟨hk, hcolon⟩
  rw [splitComment_of_first hk hfirst, if_pos (by simpa using hcolon)]

/-- A line without a mark is not cut. -/
private theorem splitComment_of_forall_not_markAt (h : ∀ i, ¬ MarkAt t i) : splitComment [] t = none := by
  by_cases hslashes : ∃ i, SlashPairAt t i
  · obtain ⟨i, hi⟩ := hslashes
    exact splitComment_of_not_markAt hi fun j _ => h j
  · exact splitComment_of_forall_not_slashPairAt (not_exists.1 hslashes)

/-- `splitComment` finds no comment in a line for which `HidesMark` holds. -/
private theorem splitComment_of_hidesMark (h : HidesMark t) : splitComment [] t = none := by
  obtain ⟨i, hi, j, hj, hslashes⟩ := h
  exact splitComment_of_not_markAt hslashes fun k hk => hi.2 k (hk.trans_lt hj)

end Cuts

/-- What is left of a line without its comment is not cut again. -/
private theorem splitComment_bareText (line : Text) : splitComment [] (bareText line) = none := by
  unfold bareText
  cases hsplit : splitComment [] (Text.trim line) with
  | none => exact hsplit
  | some parts =>
    obtain ⟨front, back⟩ := parts
    obtain ⟨u, hfront, -, hu⟩ := splitComment_eq_some hsplit
    refine splitComment_eq_none (fun hwithin => ?_) []
    obtain ⟨pre, post, hslashes⟩ := hwithin.trans (Text.trim_isInfix front)
    refine hu pre post ?_
    rw [← List.nil_append u, ← List.reverse_nil, ← hfront, ← hslashes]
    simp

/-- There are no blanks at the ends of `bareText`. -/
private theorem trim_bareText (line : Text) : Text.trim (bareText line) = bareText line := by
  unfold bareText
  split <;> exact Text.trim_trim _

/-- There are no blanks at the ends of what `commentText?` gives. -/
theorem trim_of_commentText? {line comment : Text} (h : commentText? line = some comment) :
    Text.trim comment = comment := by
  obtain ⟨parts, -, rfl⟩ := Option.map_eq_some_iff.1 h
  exact Text.trim_trim _

/-! ## What a comment changes -/

/-- The comment that a block keeps: none if there is nothing to keep. -/
def keptComment (comment : Text) : Option Text := if comment = [] then none else some comment

/-- One outcome is another one with a comment: they differ in the comment of the block alone, or also in its
    category, and in what follows from it, if the comment names one. -/
structure IsCommented (comment : Text) (o o₀ : Outcome Block) : Prop where
  complaints : o.complaints = o₀.complaints
  fault : ∀ f, o₀.result = .error f → o = o₀
  plain : ∀ b, o₀.result = .ok b → b.attrs.shape = some .defineHat ∨ categoryOf? comment = none →
    o.result = .ok { b with attrs := { b.attrs with comment := keptComment comment } } ∧
      o.sightings = o₀.sightings
  directed : ∀ b category rest, o₀.result = .ok b → b.attrs.shape ≠ some .defineHat →
    categoryOf? comment = some (category, rest) →
    ∃ calledAs, o.result = .ok { b with attrs := { b.attrs with
      category := some category, comment := keptComment rest, calledAs := calledAs } }

/-- A trimmed comment is kept unless it is empty. -/
private theorem filter_eq_keptComment {t : Text} (h : Text.trim t = t) :
    (some t).filter (fun c => !c.all Text.isBlank) = keptComment t := by
  unfold keptComment
  split
  · rename_i hnil
    rw [hnil]
    rfl
  · rename_i hfilled
    have hwritten : t.all Text.isBlank = false := by
      by_contra hblank
      refine hfilled ?_
      rw [← h, ← List.append_nil t, Text.trim_append_left t [] (by simpa using hblank), Text.trim_nil]
    simp [Option.filter, hwritten]

/-- What the words of a comment are trimmed to is trimmed. -/
private theorem trim_eq_self_of_categoryOf? {comment rest : Text} {category : Category}
    (h : categoryOf? comment = some (category, rest)) : Text.trim rest = rest := by
  simp only [categoryOf?, Option.bind_eq_bind, Option.bind_eq_some_iff] at h
  obtain ⟨⟨word, taken⟩, -, c, -, hrest⟩ := h
  cases hrest
  exact Text.trim_trim _

section WithComment

variable {v : Vocabulary} {comment : Option Text} {o : Outcome Block} {b : Block}

/-- `withComment` leaves a fault as it is. -/
private theorem withComment_of_error {f : Fault} (h : o.result = .error f) :
    withComment v comment o = o := by
  obtain ⟨result, complaints, sightings⟩ := o
  cases h
  rfl

/-- A comment that names no `category` for a block is put on it, and that is all. -/
theorem withComment_of_plain (h : o.result = .ok b)
    (hplain : b.attrs.shape = some .defineHat ∨ comment.bind categoryOf? = none) :
    withComment v comment o = ⟨.ok (settleLine v comment b), o.complaints,
      recategorise b b.attrs.category o.sightings ++ lineSightings v b⟩ := by
  have hsame : applyDirective comment b = (b, comment) := by
    unfold applyDirective
    split
    · rfl
    · rename_i hother
      rw [hplain.resolve_left hother]
  simp only [withComment, h, hsame]

/-- Without a comment none is put on. -/
private theorem comment_of_withComment_none (h : (withComment v none o).result = .ok b) :
    b.attrs.comment = none := by
  obtain ⟨b₀, hb₀, -⟩ := withComment_ok h
  rw [withComment_of_plain hb₀ (.inr rfl)] at h
  cases h
  rfl

/-- A comment that names a category puts the block into it. -/
private theorem withComment_of_directed {category : Category} {rest : Text} (h : o.result = .ok b)
    (hother : b.attrs.shape ≠ some .defineHat) (hnamed : comment.bind categoryOf? = some (category, rest)) :
    (withComment v comment o).result =
      .ok (settleLine v (some rest) (b.withCategory (some category))) := by
  simp only [withComment, h, applyDirective, if_neg hother, hnamed]

end WithComment

/-- The reading `withComment` is that without one, with the comment put on. -/
theorem isCommented_withComment (v : Vocabulary) {comment : Text} (hcomment : Text.trim comment = comment)
    (o : Outcome Block) :
    IsCommented comment (withComment v (some comment) o) (withComment v none o) := by
  -- a failure is not touched, and a block gets the comment unless this is a directive
  cases hread : o.result with
  | error f =>
    rw [withComment_of_error hread, withComment_of_error hread]
    exact ⟨rfl, fun _ _ => rfl, fun b hb => by simp [hread] at hb, fun b _ _ hb => by simp [hread] at hb⟩
  | ok b₀ =>
    have hbare : withComment v none o = ⟨.ok (settleLine v none b₀), o.complaints, _⟩ :=
      withComment_of_plain hread (.inr rfl)
    refine ⟨by rw [withComment_complaints, withComment_complaints], fun f hf => by simp [hbare] at hf, ?_, ?_⟩
    · rintro b hb hplain
      rw [hbare] at hb ⊢
      cases hb
      -- the comment is kept, as it is no directive
      have hput : withComment v (some comment) o = _ := withComment_of_plain hread hplain
      rw [hput, settleLine, filter_eq_keptComment hcomment]
      exact ⟨rfl, rfl⟩
    · rintro b category rest hb hother hnamed
      rw [hbare] at hb
      cases hb
      -- the directive is taken out, and the rest is kept
      have hput : (withComment v (some comment) o).result = _ := withComment_of_directed hread hother hnamed
      rw [hput, settleLine, filter_eq_keptComment (trim_eq_self_of_categoryOf? hnamed)]
      exact ⟨_, rfl⟩

/-- A line that is not cut is read without a comment. -/
private theorem readLine_of_splitComment_eq_none (v : Vocabulary) {line : Text}
    (h : splitComment [] (Text.trim line) = none) :
    v.readLine line = withComment v none (readBare v (Text.trim line)) := by
  rw [Vocabulary.readLine, h]

/-- A line with a block and a comment `IsCommented`: it is read as its `bareText`, with the comment put on. -/
theorem isCommented_readLine (v : Vocabulary) {line comment : Text} (hbare : bareText line ≠ [])
    (hcomment : commentText? line = some comment) :
    IsCommented comment (v.readLine line) (v.readLine (bareText line)) := by
  have halone : v.readLine (bareText line) = withComment v none (readBare v (bareText line)) := by
    rw [readLine_of_splitComment_eq_none v, trim_bareText]
    rw [trim_bareText, splitComment_bareText]
  rw [readLine_of_bareText v hbare, halone, hcomment]
  exact isCommented_withComment v (trim_of_commentText? hcomment) _

/-- A comment that is neither empty nor a directive alone. -/
def IsRemark (comment : Text) : Prop := comment ≠ [] ∧ ∀ category, categoryOf? comment ≠ some (category, [])

/-- There is something kept of a comment that is not empty. -/
private theorem keptComment_ne_none {comment : Text} (h : comment ≠ []) : keptComment comment ≠ none := by
  simp [keptComment, h]

/-- Of such a comment something is kept. -/
private theorem IsCommented.comment_ne_none {comment : Text} {o o₀ : Outcome Block} {b : Block}
    (h : IsCommented comment o o₀) (hremark : IsRemark comment) (hb : o.result = .ok b) :
    b.attrs.comment ≠ none := by
  cases hread : o₀.result with
  | error f =>
    rw [h.fault f hread, hread] at hb
    cases hb
  | ok b₀ =>
    -- a directive is no directive for a header, which keeps all of the comment
    by_cases hheader : b₀.attrs.shape = some .defineHat
    · rw [(h.plain b₀ hread (.inl hheader)).1] at hb
      cases hb
      exact keptComment_ne_none hremark.1
    · cases hnamed : categoryOf? comment with
      | none =>
        rw [(h.plain b₀ hread (.inr hnamed)).1] at hb
        cases hb
        exact keptComment_ne_none hremark.1
      | some named =>
        -- a remark is more than a directive, so something is left of it
        obtain ⟨calledAs, hput⟩ := h.directed b₀ named.1 named.2 hread hheader hnamed
        rw [hput] at hb
        cases hb
        exact keptComment_ne_none fun hnil => hremark.2 named.1 (by rw [hnamed, ← hnil])

end Line

open Line

/-- The comment of a line starts at its first mark: the text in front of the mark is read as if it were the
    line, and the text behind it is the comment. A line without a mark has no comment. -/
structure Vocabulary.CommentsAtMark (v : Vocabulary) (line : Text) : Prop where
  alone : ∀ i, FirstMarkAt (Text.trim line) i → Text.trim ((Text.trim line).take i) = [] →
    v.readLine line = .done (Block.comment (Text.trim ((Text.trim line).drop (i + 2))))
  behind : ∀ i, FirstMarkAt (Text.trim line) i → Text.trim ((Text.trim line).take i) ≠ [] →
    IsCommented (Text.trim ((Text.trim line).drop (i + 2))) (v.readLine line)
      (v.readLine (Text.trim ((Text.trim line).take i)))
  unmarked : (∀ i, ¬ MarkAt (Text.trim line) i) →
    ∀ b, (v.readLine line).result = .ok b → b.attrs.comment = none

namespace Vocabulary

/-- A mark that is not hidden is where the comment starts. -/
private theorem commentsAtMark_of_not_hidesMark (v : Vocabulary) {line : Text}
    (h : ¬ HidesMark (Text.trim line)) :
    v.CommentsAtMark line where
  -- nothing in front of the mark: the comment stands alone
  alone i hi hnothing := by
    unfold readLine
    dsimp only
    rw [splitComment_of_firstMarkAt hi h]
    dsimp only
    rw [hnothing]
  -- something in front of it: the comment is that of its block
  behind i hi hfilled := by
    have hsplit := splitComment_of_firstMarkAt hi h
    have hbare : bareText line = Text.trim ((Text.trim line).take i) := by rw [bareText, hsplit]
    have hcomment : commentText? line = some (Text.trim ((Text.trim line).drop (i + 2))) := by
      rw [commentText?, hsplit]
      rfl
    rw [← hbare] at hfilled ⊢
    exact isCommented_readLine v hfilled hcomment
  -- no mark, no comment
  unmarked hnone b hb := by
    rw [readLine_of_splitComment_eq_none v (splitComment_of_forall_not_markAt hnone)] at hb
    exact comment_of_withComment_none hb

section Hidden

variable {v : Vocabulary} {line : Text} (h : HidesMark (Text.trim line))

include h

/-- A line that hides its mark has no comment. -/
private theorem comment_of_hidesMark {b : Block} (hb : (v.readLine line).result = .ok b) :
    b.attrs.comment = none := by
  rw [readLine_of_splitComment_eq_none v (splitComment_of_hidesMark h)] at hb
  exact comment_of_withComment_none hb

/-- So no comment is found at such a mark: `CommentsAtMark` fails there. -/
private theorem not_commentsAtMark {i : Nat} {b : Block} (hi : FirstMarkAt (Text.trim line) i)
    (hremark : IsRemark (Text.trim ((Text.trim line).drop (i + 2)))) (hb : (v.readLine line).result = .ok b) :
    ¬ v.CommentsAtMark line := by
  intro hclaim
  have hnone := comment_of_hidesMark h hb
  by_cases hfront : Text.trim ((Text.trim line).take i) = []
  · rw [hclaim.alone i hi hfront] at hb
    cases hb
    cases hnone
  · exact (hclaim.behind i hi hfront).comment_ne_none hremark hb hnone

end Hidden

/-- A line `CommentsAtMark`, its first one, unless it `HidesMark`, by two slashes behind a colon. Then the
    whole line is read as a block, and the comment is missed if it `IsRemark`, which is to say anything but a
    category. -/
theorem comment_at_first_mark (v : Vocabulary) (line : Text) :
    (¬ HidesMark (Text.trim line) → v.CommentsAtMark line) ∧
    (HidesMark (Text.trim line) →
      v.readLine line = withComment v none (readBare v (Text.trim line)) ∧
      (∀ b, (v.readLine line).result = .ok b → b.attrs.comment = none) ∧
      ∀ i b, FirstMarkAt (Text.trim line) i → IsRemark (Text.trim ((Text.trim line).drop (i + 2))) →
        (v.readLine line).result = .ok b → ¬ v.CommentsAtMark line) :=
  ⟨commentsAtMark_of_not_hidesMark v, fun hhides =>
    ⟨readLine_of_splitComment_eq_none v (splitComment_of_hidesMark hhides),
      fun _ hb => comment_of_hidesMark hhides hb,
      fun _ _ hi hremark hb => not_commentsAtMark hhides hi hremark hb⟩⟩

/-- An address in front of a comment makes it a part of the block. -/
theorem comment_behind_address_missed :
    FirstMarkAt (Text.trim "say [http://a] // b".toList) 15 ∧
      Text.trim ((Text.trim "say [http://a] // b".toList).drop 17) = "b".toList ∧
      ¬ (english true).CommentsAtMark "say [http://a] // b".toList := by
  have hi : FirstMarkAt (Text.trim "say [http://a] // b".toList) 15 := by decide
  have hback : Text.trim ((Text.trim "say [http://a] // b".toList).drop 17) = "b".toList := by decide
  have hhides : HidesMark (Text.trim "say [http://a] // b".toList) := ⟨15, hi, 10, by decide⟩
  have hnamed : categoryOf? "b".toList = none := by decide
  have hremark : IsRemark "b".toList := by
    refine ⟨by decide, fun category hcategory => ?_⟩
    rw [hnamed] at hcategory
    cases hcategory
  obtain ⟨b, hb⟩ := exists_readLine_of_short (english_drawable true)
    (by decide : "say [http://a] // b".toList.length < Fragment.nestingLimit)
  exact ⟨hi, hback, not_commentsAtMark hhides hi (hback ▸ hremark) hb⟩

end Vocabulary

end BlockScript
