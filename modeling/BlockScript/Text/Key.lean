import BlockScript.Text.Fold

/-!
# Keys and padded specs

A block is looked up by the *key* of its text: no punctuation, lower case, single spaces and, if
marks do not count, no marks. A *spec* is the text of a block with an underscore, a *slot*, for each
of its arguments; padding a spec sets every slot off by spaces, so that `x:_` and `x: _` have one key.
-/

namespace BlockScript.Text

/-! ## Keys -/

/-- The characters that a key leaves out: punctuation that is easily forgotten, and the triangles
that are drawn as arrows. -/
def isSilent (c : Char) : Bool := ".,%?:▶◀▸◂".toList.contains c

/-- The blanks whose runs count as one space inside a key. -/
def isGap (c : Char) : Bool := c == ' ' || c == '\t'

/-- Write every run of gaps as one space; `afterGap` tells that a gap has just been written. -/
def squeezeAfter (afterGap : Bool) : Text → Text
  | [] => []
  | c :: rest =>
    if isGap c then
      if afterGap then squeezeAfter true rest else ' ' :: squeezeAfter true rest
    else c :: squeezeAfter false rest

/-- Write every run of spaces and tabs as one space. -/
def squeeze (t : Text) : Text := squeezeAfter false t

/-- The key of a text, before marks are considered. -/
def plainKey (t : Text) : Text := trim (squeeze (lower (t.filter fun c => !isSilent c)))

/-- Three dots and nothing else but spaces: the ellipsis, which is all punctuation and yet has a
key. -/
def ellipsis : Text := "...".toList

/-- The key of a text, the ellipsis aside. With `folded` set, letters that differ in their marks alone
have one key. -/
def bareKey (folded : Bool) (t : Text) : Text := if folded then fold (plainKey t) else plainKey t

/-- The key of a text. -/
def key (folded : Bool) (t : Text) : Text :=
  let bare := bareKey folded t
  if bare = [] ∧ withoutSpaces t = ellipsis then ellipsis else bare

/-! ## Padded specs -/

/-- Put a space before each underscore that has none, given the character in front. -/
def padBefore (previous : Char) : Text → Text
  | [] => []
  | c :: rest =>
    if c = '_' ∧ previous ≠ ' ' then ' ' :: c :: padBefore c rest else c :: padBefore c rest

/-- Whether a text starts with a character other than a space. -/
def startsFilled : Text → Bool
  | [] => false
  | c :: _ => c ≠ ' '

/-- Put a space after each underscore that something other than a space follows. -/
def padAfter : Text → Text
  | [] => []
  | c :: rest =>
    if c = '_' ∧ startsFilled rest then c :: ' ' :: padAfter rest else c :: padAfter rest

/-- A spec with a space on both sides of every slot, except at its ends. -/
def padSlots (spec : Text) : Text := padAfter (padBefore ' ' spec)

/-! ## Small facts -/

@[simp] theorem padSlots_nil : padSlots [] = [] := rfl

theorem key_ellipsis (folded : Bool) : key folded ellipsis = ellipsis := by
  cases folded <;> decide

/-- Padding adds spaces only. -/
theorem withoutSpaces_padBefore (previous : Char) (t : Text) :
    withoutSpaces (padBefore previous t) = withoutSpaces t := by
  induction t generalizing previous with
  | nil => rfl
  | cons c rest ih =>
    unfold padBefore
    split <;> simp [withoutSpaces_cons, ih]

/-- Padding adds spaces only. -/
theorem withoutSpaces_padAfter (t : Text) : withoutSpaces (padAfter t) = withoutSpaces t := by
  induction t with
  | nil => rfl
  | cons c rest ih =>
    unfold padAfter
    split <;> simp [withoutSpaces_cons, ih]

/-- Padding adds spaces only. -/
theorem withoutSpaces_padSlots (t : Text) : withoutSpaces (padSlots t) = withoutSpaces t := by
  rw [padSlots, withoutSpaces_padAfter, withoutSpaces_padBefore]

end BlockScript.Text
