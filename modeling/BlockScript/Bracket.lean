import BlockScript.Text.Basic

/-!
# Brackets

Four kinds of brackets set off the arguments of a block: round ones for numbers and reporters, square
ones for text, angle brackets for conditions, and curly ones for blocks.
-/

namespace BlockScript

/-- A kind of brackets. -/
inductive Bracket where
  | round
  | square
  | angle
  | curly
  deriving DecidableEq, Repr

namespace Bracket

/-- The opening bracket of a kind. -/
def opener : Bracket → Char
  | round => '('
  | square => '['
  | angle => '<'
  | curly => '\x7b'

/-- The closing bracket of a kind. -/
def closer : Bracket → Char
  | round => ')'
  | square => ']'
  | angle => '>'
  | curly => '\x7d'

/-- The kind that a character opens. -/
def ofOpener? (c : Char) : Option Bracket :=
  if c = '(' then some round
  else if c = '[' then some square
  else if c = '<' then some angle
  else if c = '\x7b' then some curly
  else none

/-- The kind that a character closes. -/
def ofCloser? (c : Char) : Option Bracket :=
  if c = ')' then some round
  else if c = ']' then some square
  else if c = '>' then some angle
  else if c = '\x7d' then some curly
  else none

/-- The kind that the first character of a text opens. -/
def leading? : Text → Option Bracket
  | c :: _ => ofOpener? c
  | [] => none

/-- The kind that a text of one character opens. -/
def ofOpeningText? : Text → Option Bracket
  | [c] => ofOpener? c
  | _ => none

/-- The kind that a text of one character closes. -/
def ofClosingText? : Text → Option Bracket
  | [c] => ofCloser? c
  | _ => none

/-- A text that was expected to be one opening bracket. -/
structure NotAnOpener where
  text : Text
  deriving DecidableEq, Repr

/-- The complaint in words. -/
def NotAnOpener.message (e : NotAnOpener) : Text :=
  '"' :: e.text ++ "\" is not an opening bracket".toList

/-- The closing bracket that goes with an opening one. It works one way only. -/
def closerOf (t : Text) : Except NotAnOpener Text :=
  match ofOpeningText? t with
  | some b => .ok [b.closer]
  | none => .error ⟨t⟩

/-- Take the brackets off a piece: the opening one in front and, if it is there, the matching
closing one at the end. A text that starts with no bracket stays as it is. -/
def strip (t : Text) : Text :=
  match t with
  | [] => []
  | c :: rest =>
    match ofOpener? c with
    | some b => if rest.getLast? = some b.closer then rest.dropLast else rest
    | none => t

/-- Whether a piece is closed by the bracket that matches the one in front, with something to close:
an opening bracket alone is not. -/
def isClosed (b : Bracket) (t : Text) : Bool := 2 ≤ t.length && t.getLast? == some b.closer

/-! ## Openers and closers -/

@[simp] theorem ofOpener?_opener (b : Bracket) : ofOpener? b.opener = some b := by
  cases b <;> rfl

@[simp] theorem ofCloser?_closer (b : Bracket) : ofCloser? b.closer = some b := by
  cases b <;> rfl

theorem ofOpener?_eq_some_iff {c : Char} {b : Bracket} : ofOpener? c = some b ↔ c = b.opener := by
  constructor
  · intro h
    -- the four brackets are tried one after the other
    unfold ofOpener? at h
    split at h
    · cases h; assumption
    · split at h
      · cases h; assumption
      · split at h
        · cases h; assumption
        · split at h
          · cases h; assumption
          · cases h
  · rintro rfl
    exact ofOpener?_opener b

/-- No character both opens and closes. -/
theorem ofOpener?_closer (b : Bracket) : ofOpener? b.closer = none := by
  cases b <;> rfl

/-- `strip` takes back the brackets put around a text. -/
theorem strip_enclosed (b : Bracket) (t : Text) : strip (b.opener :: t ++ [b.closer]) = t := by
  simp [strip]

end Bracket

end BlockScript
