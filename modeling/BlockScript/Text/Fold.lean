import BlockScript.Text.Lower
import BlockScript.Text.MarkTable

/-!
# Texts without marks

`fold` takes the accents off a text: every character is decomposed into base characters and marks,
and the marks are dropped. The order of the marks plays no part, since none is left, so folding goes
character by character. Compatibility characters, such as the ellipsis, are not taken apart.
-/

namespace BlockScript.Text

/-- Whether a character combines with the one before it. -/
def isMark (c : Char) : Bool := inRanges markRanges c.toNat

/-- The letters of a Hangul syllable, given by its number among all syllables: a leading consonant, a
vowel, and a final consonant unless the syllable ends in its vowel. -/
def hangulLetters (index : Nat) : Text :=
  let lead := Char.ofNat (0x1100 + index / 588)
  let vowel := Char.ofNat (0x1161 + index % 588 / 28)
  let tail := index % 28
  lead :: vowel :: if tail = 0 then [] else [Char.ofNat (0x11a7 + tail)]

/-- The base character listed for a code point. -/
def listedBase? (n : Nat) : Option Char :=
  baseRuns.findSome? fun run =>
    if run.1 ≤ n ∧ n < run.1 + 64 then run.2.toList[n - run.1]? else none

/-- What is left of a character when its marks are taken away. -/
def baseOf (c : Char) : Text :=
  let n := c.toNat
  if n < 0xc0 then [c]
  else if isMark c then []
  else if 0xac00 ≤ n ∧ n ≤ 0xd7a3 then hangulLetters (n - 0xac00)
  else
    match listedBase? n with
    | some base => [base]
    | none =>
      match baseTexts.lookup n with
      | some bases => bases.map Char.ofNat
      | none => [c]

/-- A sharp s counts as two letters. -/
def spelledOut (c : Char) : Text := if c = 'ß' then ['s', 's'] else [c]

/-- A text without its marks, sharp s spelled out. -/
def fold (t : Text) : Text := (t.flatMap spelledOut).flatMap baseOf

@[simp] theorem fold_nil : fold [] = [] := rfl

theorem fold_append (s t : Text) : fold (s ++ t) = fold s ++ fold t := by
  simp [fold]

/-- ASCII text has no marks, so `fold` leaves it alone. -/
theorem fold_eq_self_of_ascii (t : Text) (h : ∀ c ∈ t, c.toNat < 0x80) : fold t = t := by
  induction t with
  | nil => rfl
  | cons c rest ih =>
    have hc : c.toNat < 0x80 := h c (by simp)
    have hs : c ≠ 'ß' := by
      rintro rfl
      exact absurd hc (by decide)
    have hb : baseOf c = [c] := if_pos (by omega)
    have hrest := ih fun d hd => h d (by simp [hd])
    simp only [fold] at hrest ⊢
    simp [spelledOut, hs, hb, hrest]

end BlockScript.Text
