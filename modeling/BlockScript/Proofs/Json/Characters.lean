import Mathlib.Tactic.SplitIfs
import BlockScript.Json.Printer
import BlockScript.Json.Reader

/-!
# Strings are read back

A character in a string is written as itself, by a letter behind a backslash, or, if it is another control
character, by its number. In each of these ways it is read back as one character, whatever stands behind it:
only a surrogate would be joined with a number that follows. A string written so has no carriage return in it,
so that a file can be read with all kinds of line ends and the strings in it stay as they are.

## Key results

- `Json.readChars_escape`: a character is read back
- `Json.readString_written`: a string is read back
- `Json.not_mem_escape`: no carriage return is written
-/

namespace BlockScript

/-- `withNewlines` leaves a text alone that has no carriage returns. -/
theorem Text.withNewlines_eq_self {t : Text} (h : '\r' ∉ t) : withNewlines t = t := by
  induction t with
  | nil => rfl
  | cons c t ih =>
    rw [List.mem_cons, not_or] at h
    rw [withNewlines, ih h.2] <;> simp [Ne.symm h.1]

namespace Json

/-! ## Characters by number -/

/-- The number of a control character has two hexadecimal digits behind two zeros, and `hexValue?` reads it
    back. -/
private theorem ofNatHex_control : ∀ n < 0x20,
    Text.ofNatHex 4 n = ['0', '0', Nat.digitChar (n / 16), Nat.digitChar (n % 16)] ∧
      hexValue? '0' '0' (Nat.digitChar (n / 16)) (Nat.digitChar (n % 16)) = some n ∧
      '\r' ∉ Text.ofNatHex 4 n := by
  decide +kernel

/-- `readChars` takes a number that is no surrogate for its character, even in front of another number. -/
private theorem readChars_unit {opened n : Nat} {done rest : Text} {a b c d x : Char}
    (h : hexValue? a b c d = some n)
    (hn : n < 0xd800) :
    readChars opened done ('\\' :: 'u' :: a :: b :: c :: d :: x :: rest) =
      readChars opened (Char.ofNat n :: done) (x :: rest) := by
  have hhigh : ¬(0xd800 ≤ n ∧ n ≤ 0xdbff) := by omega
  have hchar : unitChar n = Char.ofNat n := if_neg (by omega)
  -- the reader has a case for a second number, but asks for it only behind a high surrogate
  by_cases hnext : ∃ e f g h y r, x = '\\' ∧ rest = 'u' :: e :: f :: g :: h :: y :: r
  · obtain ⟨e, f, g, h', y, r, rfl, rfl⟩ := hnext
    rw [readChars, h]
    simp only [if_neg hhigh, hchar]
  · rw [readChars, h]
    · simp only [hchar]
    · intro e f g h' y r hx hrest
      exact hnext ⟨e, f, g, h', y, r, hx, hrest⟩

/-! ## Strings -/

/-- `readChars` reads a letter behind a backslash that does not start a number. -/
private theorem readChars_letter {opened : Nat} {done rest : Text} {letter c : Char}
    (h : escapedChar? letter = some c) (hu : letter ≠ 'u') :
    readChars opened done ('\\' :: letter :: rest) = readChars opened (c :: done) rest := by
  rw [readChars, h]
  · intro _ _ _ _ _ _ _ _ _ _ heq
    exact absurd heq hu
  · intro _ _ _ _ _ _ heq
    exact absurd heq hu
  · exact hu

/-- `readChars` takes any other character for itself. -/
private theorem readChars_plain {opened : Nat} {done rest : Text} {c : Char} (hquote : c ≠ '"')
    (hslash : c ≠ '\\')
    (hcontrol : ¬c.toNat < 0x20) : readChars opened done (c :: rest) = readChars opened (c :: done) rest := by
  rw [readChars, if_neg hcontrol] <;> simp [hquote, hslash]

/-- The ways in which `escape` writes a character: by a letter, by its number, or as itself. -/
private theorem escape_cases (c : Char) :
    (∃ letter, escapedChar? letter = some c ∧ letter ≠ 'u' ∧ letter ≠ '\r' ∧
        escape false c = ['\\', letter]) ∨
      (c.toNat < 0x20 ∧ escape false c = '\\' :: 'u' :: Text.ofNatHex 4 c.toNat) ∨
      (c ≠ '"' ∧ c ≠ '\\' ∧ c ≠ '\r' ∧ ¬c.toNat < 0x20 ∧ escape false c = [c]) := by
  unfold escape
  split_ifs with hquote hslash hnewline hreturn htab hbackspace hfeed hcontrol
  · exact .inl ⟨'"', by rw [hquote]; rfl, by decide, by decide, rfl⟩
  · exact .inl ⟨'\\', by rw [hslash]; rfl, by decide, by decide, rfl⟩
  · exact .inl ⟨'n', hnewline ▸ rfl, by decide, by decide, rfl⟩
  · exact .inl ⟨'r', hreturn ▸ rfl, by decide, by decide, rfl⟩
  · exact .inl ⟨'t', htab ▸ rfl, by decide, by decide, rfl⟩
  · exact .inl ⟨'b', hbackspace ▸ rfl, by decide, by decide, rfl⟩
  · exact .inl ⟨'f', hfeed ▸ rfl, by decide, by decide, rfl⟩
  -- the control characters that have no letter are those with a number
  · have hsmall : c.toNat < 0x20 := by simpa using hcontrol
    refine .inr (.inl ⟨hsmall, ?_⟩)
    rw [numberEscape, if_pos (by omega), unitEscape]
    rfl
  · exact .inr (.inr ⟨hquote, hslash, hreturn, by simpa using hcontrol, rfl⟩)

/-- `readChars` reads a character back that `escape` has written, whatever comes next. -/
theorem readChars_escape (opened : Nat) (done : Text) (c x : Char) (rest : Text) :
    readChars opened done (escape false c ++ x :: rest) = readChars opened (c :: done) (x :: rest) := by
  obtain ⟨letter, hletter, hu, -, hwritten⟩ | ⟨hsmall, hwritten⟩ |
    ⟨hquote, hslash, -, hcontrol, hwritten⟩ := escape_cases c
  · rw [hwritten]
    exact readChars_letter hletter hu
  · obtain ⟨hdigits, hvalue, -⟩ := ofNatHex_control c.toNat hsmall
    rw [hwritten, hdigits, ← Char.ofNat_toNat c]
    simpa using readChars_unit hvalue (by omega)
  · rw [hwritten]
    exact readChars_plain hquote hslash hcontrol

/-- `readChars` reads a text that `escape` has written, up to the quote behind it. -/
private theorem readChars_written (opened : Nat) (t rest done : Text) :
    readChars opened done (t.flatMap (escape false) ++ '"' :: rest) = .ok (done.reverse ++ t, rest) := by
  induction t generalizing done with
  | nil => simp [readChars]
  | cons c t ih =>
    -- behind a character there is always another one, if only the closing quote
    obtain ⟨x, more, hmore⟩ : ∃ x more, t.flatMap (escape false) ++ '"' :: rest = x :: more :=
      List.exists_cons_of_ne_nil (by simp)
    rw [List.flatMap_cons, List.append_assoc, hmore, readChars_escape, ← hmore, ih]
    simp

/-- `readString` reads a string back from behind its opening quote. -/
theorem readString_written (t rest : Text) :
    readString (t.flatMap (escape false) ++ '"' :: rest) = .ok (t, rest) :=
  readChars_written _ t rest []

/-! ## Line ends -/

/-- `escape` writes no carriage return. -/
theorem not_mem_escape (c : Char) : '\r' ∉ escape false c := by
  obtain ⟨letter, -, -, hreturn, hwritten⟩ | ⟨hsmall, hwritten⟩ |
    ⟨-, -, hreturn, -, hwritten⟩ := escape_cases c
  · simpa [hwritten] using hreturn.symm
  · obtain ⟨-, -, hdigits⟩ := ofNatHex_control c.toNat hsmall
    simpa [hwritten] using hdigits
  · simpa [hwritten] using hreturn.symm

/-- Nor does `writeString`. -/
theorem not_mem_writeString (t : Text) : '\r' ∉ writeString false t := by
  simp [writeString, not_mem_escape]

end Json

end BlockScript
