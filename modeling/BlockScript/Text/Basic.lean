/-!
# Script text

Script text is a list of characters, so that a statement about a line is an induction on the line.
This file holds the blank characters, trimming, and the few ways in which lines are cut up.
Lengths and positions count code points.
-/

namespace BlockScript

/-- Text of a script, character by character. -/
abbrev Text := List Char

namespace Text

/-! ## Blank characters -/

/-- The characters that are dropped from the ends of a line: the ASCII white space with the four
information separators, NEL, the no-break space and the Unicode space, line and paragraph
separators. The zero-width space is not one of them. -/
def isBlank (c : Char) : Bool :=
  let n := c.toNat
  if n < 0x80 then n == 0x20 || (0x09 ≤ n && n ≤ 0x0d) || (0x1c ≤ n && n ≤ 0x1f)
  else n == 0x85 || n == 0xa0 || n == 0x1680 || (0x2000 ≤ n && n ≤ 0x200a) || n == 0x2028 ||
    n == 0x2029 || n == 0x202f || n == 0x205f || n == 0x3000

/-- Drop the blanks in front of a text. -/
def trimLeft (t : Text) : Text := t.dropWhile isBlank

/-- Drop the blanks at the end of a text. -/
def trimRight (t : Text) : Text := (t.reverse.dropWhile isBlank).reverse

/-- Drop the blanks at both ends of a text. -/
def trim (t : Text) : Text := trimRight (trimLeft t)

/-- Remove every space. Other blanks stay. -/
def withoutSpaces (t : Text) : Text := t.filter (· ≠ ' ')

/-! ## Cutting -/

/-- The parts of a text between its separators: one more than there are separators, so never
none. -/
def splitAt (isSeparator : Char → Bool) : Text → List Text
  | [] => [[]]
  | c :: rest =>
    if isSeparator c then [] :: splitAt isSeparator rest
    else
      match splitAt isSeparator rest with
      | part :: parts => (c :: part) :: parts
      | [] => [[c]]

/-- The lines of a text. -/
def lines (t : Text) : List Text := splitAt (· == '\n') t

/-- The non-empty parts of a text between spaces. -/
def words (t : Text) : List Text := (splitAt (· == ' ') t).filter (· ≠ [])

/-- Write every line end, `"\r\n"` or a lone `'\r'`, as `'\n'`. -/
def withNewlines : Text → Text
  | '\r' :: '\n' :: rest => '\n' :: withNewlines rest
  | '\r' :: rest => '\n' :: withNewlines rest
  | c :: rest => c :: withNewlines rest
  | [] => []

/-- Put `new` in place of the leftmost occurrence of `old`, if there is one. -/
def replaceFirst (old new : Text) : Text → Text
  | [] => if old = [] then new else []
  | c :: rest =>
    if old.isPrefixOf (c :: rest) then new ++ (c :: rest).drop old.length
    else c :: replaceFirst old new rest

/-! ## Order -/

/-- Whether a text stands before another one or is the same, by code points. -/
def notAfter : Text → Text → Bool
  | [], _ => true
  | _ :: _, [] => false
  | c :: s, d :: t => c < d || (c == d && notAfter s t)

/-! ## Numbers -/

/-- A natural number in decimal. -/
def ofNat (n : Nat) : Text := Nat.toDigits 10 n

/-- An integer in decimal, with a minus sign in front of a negative one. -/
def ofInt : Int → Text
  | .ofNat n => ofNat n
  | .negSucc n => '-' :: ofNat (n + 1)

/-- A number in lower-case hexadecimal, padded with zeros to `width` digits. -/
def ofNatHex (width n : Nat) : Text :=
  let digits := Nat.toDigits 16 n
  List.replicate (width - digits.length) '0' ++ digits

/-! ## What these functions keep -/

theorem splitAt_ne_nil (isSeparator : Char → Bool) (t : Text) : splitAt isSeparator t ≠ [] := by
  induction t with
  | nil => simp [splitAt]
  | cons c rest ih =>
    simp only [splitAt]
    split
    · simp
    · split <;> simp

@[simp] theorem trim_nil : trim [] = [] := rfl

@[simp] theorem withoutSpaces_nil : withoutSpaces [] = [] := rfl

theorem withoutSpaces_cons (c : Char) (t : Text) :
    withoutSpaces (c :: t) = if c = ' ' then withoutSpaces t else c :: withoutSpaces t := by
  by_cases h : c = ' ' <;> simp [withoutSpaces, h]

/-- A trimmed text starts with no blank. -/
theorem trimLeft_head_not_blank (t : Text) :
    ∀ c rest, trimLeft t = c :: rest → isBlank c = false := by
  intro c rest h
  induction t with
  | nil => simp [trimLeft] at h
  | cons d ds ih =>
    by_cases hd : isBlank d
    · exact ih (by simpa [trimLeft, List.dropWhile, hd] using h)
    · simp only [trimLeft, List.dropWhile, hd] at h
      cases h
      simpa using hd

end Text

end BlockScript
