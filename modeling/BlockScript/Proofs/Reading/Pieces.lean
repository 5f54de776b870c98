import BlockScript.Proofs.Reading.Success

/-!
# The pieces of a block

A fragment that is neither a header nor an insert is a block. It is identified by what its pieces say: by
their spec, less the words behind two colons, by the arguments among them, and by the shape of the place in
which it stands.

## Key results

- `Fragment.IsBlock.form_eq`: what a block is taken for
- `Fragment.IsBlock.exists_form`: there is such a block if all blocks can be drawn
-/

namespace BlockScript

namespace Fragment

/-- The text of a fragment inside its brackets. -/
def inside (isLine : Bool) (code : Text) : Text := if isLine then code else Bracket.strip code

/-- The pieces of a fragment, with the blanks at its two ends dropped. -/
def piecesIn (v : Vocabulary) (isLine : Bool) (code : Text) : List Text :=
  trimEnds (tokenize v.signRule (inside isLine code)).texts

/-- The arguments that stand in a fragment. -/
def argumentsIn (v : Vocabulary) (isLine : Bool) (code : Text) : List Text :=
  argumentsOf (piecesIn v isLine code)

/-- The shape of the place in which a block stands. -/
def placeShape (v : Vocabulary) (isLine : Bool) (code : Text) : Shape :=
  blockShape (outerBracket isLine code) (tokenize v.signRule (inside isLine code)).texts (inside isLine code)

/-- Whether a fragment is taken for a block: it is neither a header nor an insert. -/
structure IsBlock (v : Vocabulary) (isLine : Bool) (code : Text) : Prop where
  unheaded : v.header? (inside isLine code) = none
  inserted : insertShape? (outerBracket isLine code) (tokenize v.signRule (inside isLine code)).texts
    (inside isLine code) = none

/-- A line that is no `header?` is a block, by `IsBlock`. -/
theorem isBlock_of_line {v : Vocabulary} {line : Text} (h : v.header? line = none) : IsBlock v true line :=
  ⟨h, insertShape?_none _ _⟩

/-- A `form` with slots to fill is that of a block. -/
theorem isBlock_of_block {v : Vocabulary} {isLine : Bool} {code : Text} {attrs : Attrs}
    {words parts args : List Text} (h : form v isLine code = .block attrs words parts args) :
    IsBlock v isLine code := by
  unfold form at h
  dsimp only at h
  split at h
  · -- a header
    cases h
  · rename_i hheader
    split at h
    · -- an insert
      cases h
    · rename_i hinsert
      exact ⟨hheader, hinsert⟩

/-- What is read with a name is a block, by `IsBlock`: headers and inserts have none. -/
theorem isBlock_of_id {v : Vocabulary} {depth : Nat} {isLine : Bool} {code : Text} {b : Block}
    (h : (read v depth isLine code).result = .ok b) (hid : b.attrs.id ≠ none) : IsBlock v isLine code := by
  cases depth with
  | zero => cases h
  | succ depth =>
    obtain hform | ⟨attrs, words, parts, args, hform, -⟩ := read_succ_eq_ok h
    · obtain ⟨inner, pieces, -, ⟨word, -, rfl⟩ | ⟨-, shape, -, rfl⟩⟩ := form_eq_whole hform
      · exact absurd rfl hid
      · exact absurd rfl hid
    · exact isBlock_of_block hform

/-- A block is identified by the spec of `piecesIn`, less the words of its overrides. -/
theorem IsBlock.form_eq {v : Vocabulary} {isLine : Bool} {code : Text} (h : IsBlock v isLine code) :
    form v isLine code =
      match identify v (Override.split (specOf (piecesIn v isLine code))).1 (argumentsIn v isLine code)
        (placeShape v isLine code) with
      | .error e => .missing e.id
      | .ok ⟨attrs, text⟩ => .block attrs (Override.split (specOf (piecesIn v isLine code))).2
        (partsAt (isMark (attrs.id == some "_ + _".toList)) text) (argumentsIn v isLine code) := by
  obtain ⟨hheader, hinsert⟩ := h
  rw [inside] at hheader hinsert
  simp only [form, hheader, hinsert]
  rfl

/-- If the vocabulary is `Drawable`, such a fragment has the `form` of a block. -/
theorem IsBlock.exists_form {v : Vocabulary} (hv : v.Drawable) {isLine : Bool} {code : Text}
    (h : IsBlock v isLine code) :
    ∃ attrs text, identify v (Override.split (specOf (piecesIn v isLine code))).1 (argumentsIn v isLine code)
        (placeShape v isLine code) = .ok ⟨attrs, text⟩ ∧
      form v isLine code = .block attrs (Override.split (specOf (piecesIn v isLine code))).2
        (partsAt (isMark (attrs.id == some "_ + _".toList)) text) (argumentsIn v isLine code) := by
  obtain ⟨⟨attrs, text⟩, hidentify⟩ := exists_identify hv
    (Override.split (specOf (piecesIn v isLine code))).1 (argumentsIn v isLine code) (placeShape v isLine code)
  exact ⟨attrs, text, hidentify, by rw [h.form_eq, hidentify]⟩

end Fragment

end BlockScript
