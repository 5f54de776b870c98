import BlockScript.Proofs.Workspace.Colour
import BlockScript.Proofs.Workspace.Origins

/-!
# Categories that are asked for

A text can ask for the category of a block: by a word after two colons, or by a directive in the comment
of its line. Reading grants it, but for the few things that have a category of their own. Resolution knows
a block that waits for its meaning by its category alone, so it cannot tell one that has been put there
from one that has been asked for, and takes both.

## Key results

- `Origin.gives_requested`: which of the categories that are asked for reading grants
- `Vocabulary.explicit_category_iff`: which of them are left in the end
- `Vocabulary.explicit_category_lost`: an unknown block on purpose that turns out to be defined
-/

namespace BlockScript

namespace Origin

/-- The category that a text asks for: that of the comment, or else that of the last word that names
    one. -/
def requested? (v : Vocabulary) (o : Origin) : Option Category :=
  match o.source with
  | .fragment isLine code => o.directive.or (Fragment.form v isLine code).requested?
  | .outline => none
  | .place => o.directive
  | .comment => o.directive
  | .unread _ => o.directive

/-- Whether a block of the given origin can be put into a category. The header of a defined block is
    always a custom block, a comment is in no category, and what cannot be read is an unknown block. -/
def admits (v : Vocabulary) (o : Origin) (c : Category) : Bool :=
  match o.source with
  | .fragment isLine code => !(Fragment.form v isLine code).isHeader || c == .custom
  | .comment => false
  | .unread _ => c == .obsolete
  | .outline => true
  | .place => true

end Origin

namespace Fragment

/-- A header is a custom block, whatever is asked for. -/
private theorem exists_attrs_of_isHeader {v : Vocabulary} {isLine : Bool} {code : Text}
    (h : (form v isLine code).isHeader = true) :
    ∃ a, (form v isLine code).attrs? = some a ∧ a.category = some .custom ∧
      a.shape = some .defineHat := by
  cases hform : form v isLine code with
  | whole b =>
    rw [hform] at h
    simp only [Form.isHeader, beq_iff_eq] at h
    refine ⟨b.attrs, rfl, ?_, h⟩
    obtain ⟨inner, pieces, -, ⟨word, -, rfl⟩ | ⟨-, shape, hshape, rfl⟩⟩ := form_eq_whole hform
    · rfl
    · -- an insert has another shape
      simp only [insert, Option.some.injEq] at h
      rw [h] at hshape
      cases isInsert_of_insertShape? hshape
  | block attrs words parts args =>
    rw [hform] at h
    cases h
  -- what cannot be drawn is no header
  | missing id =>
    rw [hform] at h
    cases h

/-- What is no header is in the `category` that a comment names for it, or else in the one that its words
    ask for. -/
private theorem category_of_requested {v : Vocabulary} {isLine : Bool} {code : Text} {a : Attrs}
    {c : Category}
    {directive : Option Category} (hheader : (form v isLine code).isHeader = false)
    (ha : (form v isLine code).attrs? = some a)
    (hc : directive.or (form v isLine code).requested? = some c) :
    a.shape ≠ some .defineHat ∧ directive.or a.category = some c := by
  cases hform : form v isLine code with
  -- no words: an insert has the category of the comment alone
  | whole b =>
    rw [hform] at hheader ha hc
    cases ha
    simp only [Form.isHeader, beq_eq_false_iff_ne] at hheader
    simp only [Form.requested?, Option.or_none] at hc
    exact ⟨hheader, by rw [hc]; rfl⟩
  -- the comment comes first, and then the last of the words that name a category
  | block attrs words parts args =>
    have hshape := shape_ne_defineHat_of_block hform
    rw [hform] at ha hc
    cases ha
    refine ⟨hshape, ?_⟩
    simp only [Form.requested?] at hc
    rw [Override.applyAll_ofWord_category, ← Option.or_assoc, hc]
    rfl
  | missing id =>
    rw [hform] at ha
    cases ha

end Fragment

/-! ## Reading -/

namespace Origin

variable {v : Vocabulary} {a : Attrs} {c : Category}

/-- A fragment is in the `category` that is asked for. A header is not, unless that is its own, and it stays
    where it is. -/
private theorem fragment_gives_requested {isLine : Bool} {code : Text} {directive : Option Category}
    (h : Gives v ⟨.fragment isLine code, directive⟩ a)
    (hc : requested? v ⟨.fragment isLine code, directive⟩ = some c) (s : Session) :
    (admits v ⟨.fragment isLine code, directive⟩ c = true → a.category = some c) ∧
      (admits v ⟨.fragment isLine code, directive⟩ c = false → a.category ≠ some c ∧ ¬ a.IsMoved s) := by
  obtain ⟨a₀, ha₀, ha⟩ := h.attrs (by simp)
  simp only [attrs?, Option.map_eq_some_iff] at ha₀
  obtain ⟨a₁, hform, rfl⟩ := ha₀
  simp only [requested?] at hc
  simp only [admits]
  rw [ha]
  cases hheader : (Fragment.form v isLine code).isHeader with
  -- a header keeps its own category, and with its shape it is never moved
  | true =>
    obtain ⟨a₂, ha₂, hcategory, hshape⟩ := Fragment.exists_attrs_of_isHeader hheader
    obtain rfl : a₁ = a₂ := Option.some.inj (hform.symm.trans ha₂)
    simp only [hshape, hcategory, if_true, Bool.not_true, Bool.false_or, beq_iff_eq,
      beq_eq_false_iff_ne]
    refine ⟨fun hcustom => by rw [hcustom], fun hother => ⟨?_, ?_⟩⟩
    · simpa using hother.symm
    · simp [Attrs.IsMoved]
  | false =>
    obtain ⟨hshape, hcategory⟩ := Fragment.category_of_requested hheader hform hc
    simp only [if_neg hshape, hcategory, Bool.not_false, Bool.true_or]
    exact ⟨fun _ => trivial, fun hadmits => by cases hadmits⟩

/-- A `category` that is asked for is granted where it is admitted. Where it is not, the block is in another
    one, and stays in it. -/
theorem gives_requested {o : Origin} (h : o.Gives v a) (hc : o.requested? v = some c) (s : Session) :
    (o.admits v c = true → a.category = some c) ∧
      (o.admits v c = false → a.category ≠ some c ∧ ¬ a.IsMoved s) := by
  obtain ⟨source, directive⟩ := o
  cases source with
  | fragment isLine code => exact fragment_gives_requested h hc s
  | outline =>
    -- the outline of a header has no words of its own, and the comment is about the header
    cases hc
  -- the block around an argument has nothing of its own, so the comment decides
  | place =>
    obtain ⟨_, ha₀, ha⟩ := h.attrs (by simp)
    cases ha₀
    simp only [requested?] at hc
    rw [ha]
    refine ⟨fun _ => ?_, fun hadmits => by cases hadmits⟩
    simp only [hc, Option.some_or]
  -- a comment on its own is in no category
  | comment =>
    obtain ⟨_, ha₀, ha⟩ := h.attrs (by simp)
    cases ha₀
    rw [ha]
    refine ⟨fun hadmits => absurd hadmits Bool.false_ne_true, fun _ => ⟨by simp, ?_⟩⟩
    simp [Attrs.IsMoved]
  | unread line =>
    obtain ⟨_, ha₀, ha⟩ := h.attrs (by simp)
    cases ha₀
    -- an unknown block is moved if it has been called, which a line that cannot be read has not
    have hcalled := h.uncalled line rfl
    simp only [admits, beq_iff_eq, beq_eq_false_iff_ne]
    rw [ha]
    refine ⟨fun hobsolete => by rw [hobsolete], fun hother => ⟨?_, ?_⟩⟩
    · simpa using hother.symm
    · simp [Attrs.IsMoved, hcalled]

end Origin

namespace Vocabulary

/-! ## Resolution -/

/-- When a text is parsed, each of its blocks for which a category is `requested?` is in this category in the
    end just if its origin `admits` it, and the block in it is not one that `IsMoved` when the text is
    resolved. Blocks that end a branch of a C block are not looked at, as they are in the category of that
    block. -/
theorem explicit_category_iff {v : Vocabulary} {text : Text} {w : Workspace}
    (h : v.parse text = .ok w) :
    List.Forall₂
      (fun line b => List.Forall₂
        (fun o a => ∀ c, o.requested? v = some c →
          a.flag ≠ some .cElse → a.flag ≠ some .cEnd →
            (a.category = some c ↔
              o.admits v c = true ∧ ¬ { a with category := some c }.IsMoved w.session))
        (v.lineOrigins line) b.allAttrs)
      (Text.writtenLines text) ((w.scripts.flatMap Script.blocks).filter fun b => !b.isImplied) := by
  refine (parse_origins h).imp fun line b hline => hline.imp ?_
  rintro o a ⟨a₀, hgives, hends⟩ c hc helse hend
  rw [hends.flag] at helse hend
  have hcategory := hends.unlessEnder helse hend
  obtain ⟨hgranted, hrefused⟩ := o.gives_requested hgives hc w.session
  -- a block is moved or not by what it was read as
  have hkept : w.session.resolvedCategory a₀ = a₀.category ↔ ¬ a₀.IsMoved w.session := by
    rw [← Session.resolved_category_eq_iff, Session.resolved_eq]
  cases hadmits : o.admits v c with
  | true =>
    have hread := hgranted hadmits
    -- what a block is called and named as decides, and laying out keeps both
    have hmoved : { a with category := some c }.IsMoved w.session ↔ a₀.IsMoved w.session := by
      unfold Attrs.IsMoved
      rw [hends.calledAs, hends.namedAs, hread]
    rw [hmoved, ← hkept, hcategory]
    simp only [hread, true_and]
  | false =>
    obtain ⟨hread, hstays⟩ := hrefused hadmits
    rw [hcategory, hkept.2 hstays]
    simpa using hread

/-- A block that the text defines and puts into another `category` by hand. -/
theorem explicit_category_iff_of_defined :
    ∃ w b, defining.parse "define foo\nfoo :: motion".toList = .ok w ∧
      b ∈ w.scripts.flatMap Script.blocks ∧ b.attrs.category = some .motion := by
  obtain ⟨w, hw⟩ : ∃ w, defining.parse "define foo\nfoo :: motion".toList = .ok w :=
    exists_eq_ok_of_isOk (by decide +kernel)
  have hflags : ((defining.parse "define foo\nfoo :: motion".toList).toOption.all fun w =>
      (w.scripts.flatMap Script.blocks).all fun b => b.attrs.flag == none) = true := by
    decide +kernel
  have hwritten : Text.writtenLines "define foo\nfoo :: motion".toList =
      ["define foo".toList, "foo :: motion".toList] := by
    decide +kernel
  have horigins : defining.lineOrigins "foo :: motion".toList =
      [⟨.fragment true "foo :: motion".toList, none⟩] := by
    decide +kernel
  have hlines := explicit_category_iff hw
  rw [hwritten] at hlines
  -- the second of the two lines is the one that asks
  obtain ⟨_, _, -, hrest, hfirst⟩ := List.forall₂_cons_left_iff.1 hlines
  obtain ⟨b, _, hline, -, hsecond⟩ := List.forall₂_cons_left_iff.1 hrest
  have hkept : b ∈ (w.scripts.flatMap Script.blocks).filter fun b => !b.isImplied := by
    rw [hfirst, hsecond]
    simp
  have hmem := (List.mem_filter.1 hkept).1
  rw [hw] at hflags
  have hflag : b.attrs.flag = none := by
    simpa using List.all_eq_true.1 hflags b hmem
  rw [horigins, Block.allAttrs] at hline
  obtain ⟨hexplicit, -⟩ := List.forall₂_cons.1 hline
  refine ⟨w, b, hw, hmem, (hexplicit .motion (by decide +kernel) ?_ ?_).2 ⟨by decide +kernel, ?_⟩⟩
  · simp [hflag]
  · simp [hflag]
  · simp [Attrs.IsMoved]

/-- A block that the text defines and declares to be unknown is a custom block in the end. -/
theorem explicit_category_lost :
    ∃ w line b o a, defining.parse "define foo\nfoo :: obsolete".toList = .ok w ∧
      (line, b) ∈ (Text.writtenLines "define foo\nfoo :: obsolete".toList).zip
        ((w.scripts.flatMap Script.blocks).filter fun b => !b.isImplied) ∧
      (o, a) ∈ (defining.lineOrigins line).zip b.allAttrs ∧
      o.requested? defining = some .obsolete ∧ a.flag = none ∧ a.category = some .custom := by
  -- one closed check finds the line, the block and the attributes
  have hsome : ((defining.parse "define foo\nfoo :: obsolete".toList).toOption.any fun w =>
      ((Text.writtenLines "define foo\nfoo :: obsolete".toList).zip
          ((w.scripts.flatMap Script.blocks).filter fun b => !b.isImplied)).any fun p =>
        ((defining.lineOrigins p.1).zip p.2.allAttrs).any fun q =>
          q.1.requested? defining == some .obsolete && q.2.flag == none &&
            q.2.category == some .custom) = true := by
    decide +kernel
  cases h : defining.parse "define foo\nfoo :: obsolete".toList with
  | error f =>
    rw [h] at hsome
    cases hsome
  | ok w =>
    rw [h] at hsome
    obtain ⟨⟨line, b⟩, hblock, hattrs⟩ := List.any_eq_true.1 hsome
    obtain ⟨⟨o, a⟩, hattrs, hlost⟩ := List.any_eq_true.1 hattrs
    simp only [Bool.and_eq_true, beq_iff_eq] at hlost
    exact ⟨w, line, b, o, a, rfl, hblock, hattrs, hlost.1.1, hlost.1.2, hlost.2⟩

end Vocabulary

end BlockScript
