import BlockScript.Reading.Fragment

/-!
# Text in square brackets

The text of an argument in square brackets is meant to be taken as it stands, whatever brackets, signs
or quotes there are in it. It is, unless the text reads like the header of a defined block: that is asked
before anybody asks for the brackets.

## Key results

- `Fragment.readWith_square`: what an argument in square brackets is read as
- `Fragment.read_square_iff`: it is an insert with its text just if that is no header
- `Fragment.read_square_header`: a text that is taken for a header
-/

namespace BlockScript.Fragment

/-- `readWith` reads an argument in square brackets without complaints and sightings: as a header if its text
    is one, and as an insert otherwise. -/
theorem readWith_square (v : Vocabulary) (nested : Text → Outcome Block) (t : Text) :
    readWith v nested false ('[' :: (t ++ [']'])) = .done
      (match v.header? t with
        | some word => definition t word (tokenize v.signRule t).texts
        | none => insert (Shape.ofArgument (some .square) t) t) := by
  have hbracket : outerBracket false ('[' :: (t ++ [']'])) = some .square := rfl
  have hstrip : Bracket.strip ('[' :: (t ++ [']'])) = t := Bracket.strip_enclosed .square t
  have hclosed : Bracket.isClosed .square ('[' :: (t ++ [']'])) = true := by
    have hlast : ('[' :: (t ++ [']'])).getLast? = some ']' := by
      rw [← List.cons_append, List.getLast?_concat]
    simp [Bracket.isClosed, hlast, Bracket.closer]
  -- every shape that square brackets give is one of an insert
  have hinsert : (Shape.ofArgument (some .square) t).isInsert = true := by
    simp only [Shape.ofArgument]
    split
    · rfl
    · split <;> rfl
  -- so the text is an insert, unless it is a header
  have hshape : insertShape? (some .square) (tokenize v.signRule t).texts t =
      some (Shape.ofArgument (some .square) t) := by
    rw [insertShape?, if_neg (fun h => h.2 rfl)]
    exact if_pos hinsert
  simp only [readWith, hbracket, hstrip, Bool.false_eq_true, if_false, outerComplaints, hclosed,
    innerComplaints, hshape, if_true, List.append_nil]
  cases v.header? t <;> rfl

/-- To `read` an argument in square brackets gives rise to no complaint and no sighting. It is an insert of
    the shape that its text tells, and holds its text, without the sign of a menu, just if the text is not a
    `header?` of a defined block. -/
theorem read_square_iff (v : Vocabulary) (depth : Nat) (t : Text) :
    (read v (depth + 1) false ('[' :: (t ++ [']']))).complaints = [] ∧
    (read v (depth + 1) false ('[' :: (t ++ [']']))).sightings = [] ∧
    ((read v (depth + 1) false ('[' :: (t ++ [']']))).result =
        .ok ⟨{ shape := some (Shape.ofArgument (some .square) t) },
          [.text (if Shape.ofArgument (some .square) t = .dropdown then t.take (t.length - 2) else t)]⟩ ↔
      v.header? t = none) := by
  rw [read, readWith_square]
  refine ⟨rfl, rfl, ?_⟩
  cases hheader : v.header? t with
  | some word =>
    -- a header has a category, and an insert has none
    simp [Outcome.done, definition]
  | none =>
    simp only [Outcome.done, insert, iff_true]
    -- only a dropdown has a menu, and its sign is cut off
    have hmenu : (Shape.ofArgument (some .square) t).hasMenu = true ↔
        Shape.ofArgument (some .square) t = .dropdown := by
      simp only [Shape.ofArgument]
      split
      · simp [Shape.hasMenu]
      · split <;> simp [Shape.hasMenu]
    have hcut : t.dropLast.dropLast = t.take (t.length - 2) := by
      rw [List.dropLast_eq_take, List.dropLast_eq_take, List.take_take, List.length_take]
      congr 1
      omega
    simp only [hmenu, hcut]

/-- A text in square brackets that starts with a word for headers is not taken as it stands. -/
theorem read_square_header :
    ∃ b, ((Vocabulary.english true).readFragment false "[define foo]".toList).result = .ok b ∧
      b.attrs.shape = some .defineHat := by
  have hsome : (((Vocabulary.english true).readFragment false "[define foo]".toList).result.toOption.any
      fun b => b.attrs.shape == some .defineHat) = true := by
    decide +kernel
  cases h : ((Vocabulary.english true).readFragment false "[define foo]".toList).result with
  | error f =>
    rw [h] at hsome
    cases hsome
  | ok b =>
    rw [h] at hsome
    exact ⟨b, rfl, by simpa [Except.toOption] using hsome⟩

end BlockScript.Fragment
