import BlockScript.Text.Basic
import BlockScript.Text.CaseTable

/-!
# Lower case

Lower-casing takes a letter to its lower-case partner by itself, with two exceptions. The capital I
with a dot above becomes two characters, and a capital sigma is written `ς` at the end of a word and
`σ` elsewhere, so it is the one letter whose neighbours matter.
-/

namespace BlockScript.Text

/-- Whether a code point lies in one of the given ranges. -/
def inRanges (ranges : List (Nat × Nat)) (n : Nat) : Bool :=
  ranges.any fun r => r.1 ≤ n && n ≤ r.2

/-- Whether a character is looked through in search of the letter next to a capital sigma. -/
def isPassable (c : Char) : Bool := inRanges passableRanges c.toNat

/-- Whether a character is a letter with a case. -/
def isCased (c : Char) : Bool := inRanges casedRanges c.toNat

/-- The lower-case partner of a code point in a run, if it has one there. -/
def CaseRun.partner? (run : CaseRun) (n : Nat) : Option Nat :=
  if run.first ≤ n ∧ n ≤ run.last ∧ (n - run.first) % run.step = 0 then
    some (n + run.offset).toNat
  else none

/-- The lower case of a character on its own. -/
def lowerChar (c : Char) : Text :=
  if c.toNat < 0x80 then [c.toLower]
  else if c = 'İ' then ['i', Char.ofNat 0x307]
  else [((caseRuns.findSome? (·.partner? c.toNat)).map Char.ofNat).getD c]

/-- Whether the nearest character that is not looked through is a letter with a case. -/
def meetsLetter (t : Text) : Bool :=
  match t.dropWhile isPassable with
  | c :: _ => isCased c
  | [] => false

/-- The lower case of a character between the text before it, read backwards, and the text after
it. -/
def lowerAt (before : Text) (c : Char) (after : Text) : Text :=
  if c = 'Σ' then [if meetsLetter before && !meetsLetter after then 'ς' else 'σ']
  else lowerChar c

/-- The lower case of a text that follows `before`, which is given backwards. -/
def lowerFrom (before : Text) : Text → Text
  | [] => []
  | c :: rest => lowerAt before c rest ++ lowerFrom (c :: before) rest

/-- The lower case of a text. -/
def lower (t : Text) : Text := lowerFrom [] t

@[simp] theorem lower_nil : lower [] = [] := rfl

/-- Where no capital sigma occurs, `lowerFrom` lowers letters one by one. -/
theorem lowerFrom_eq_flatMap (before t : Text) (h : 'Σ' ∉ t) :
    lowerFrom before t = t.flatMap lowerChar := by
  induction t generalizing before with
  | nil => rfl
  | cons c rest ih =>
    rw [List.mem_cons, not_or] at h
    simp [lowerFrom, lowerAt, Ne.symm h.1, ih _ h.2]

end BlockScript.Text
