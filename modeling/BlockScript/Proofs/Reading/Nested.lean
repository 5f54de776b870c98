import BlockScript.Proofs.Reading.Woven
import BlockScript.Proofs.Token.Enclosed

/-!
# Arguments in many brackets

Round brackets around an argument in round brackets are read as a reporter whose spec is a slot alone. If no
block has this spec the reporter is unknown, and its argument is read with one level less. So each pair of
brackets takes a level, and an argument in more of them than there are levels is nested too deeply.

## Key results

- `Fragment.form_enclosed`: what brackets around brackets are taken for
- `Fragment.read_nest`: more brackets than levels are too many
-/

namespace BlockScript

/-- A text in so many pairs of round brackets. -/
def Text.nest : Nat → Text → Text
  | 0, t => t
  | n + 1, t => Bracket.round.enclose (nest n t)

/-- `nest` puts no other characters around a text than round brackets. -/
theorem Text.mem_nest {n : Nat} {t : Text} {c : Char} (h : c ∈ nest n t) :
    c ∈ Bracket.round.opener :: Bracket.round.closer :: t := by
  induction n with
  | zero => exact List.mem_cons_of_mem _ (List.mem_cons_of_mem _ h)
  | succ n ih =>
    rw [nest, Bracket.enclose, List.mem_append, List.mem_cons, List.mem_singleton] at h
    rcases h with (rfl | h) | rfl
    · exact List.mem_cons_self
    · exact ih h
    · exact List.mem_cons_of_mem _ List.mem_cons_self

/-- To `nest` a text without brackets in any number of pairs gives an argument. -/
theorem isEnclosed_nest (rule : SignRule) {t : Text} (ht : ∀ c ∈ t, Bracket.isPlain c = true) (n : Nat) :
    IsEnclosed rule (Text.nest (n + 1) t) := by
  induction n with
  | zero => exact isEnclosed_of_plain rule ht
  | succ n ih => exact (ih.fills (by decide)).isEnclosed (.inl rfl) rule

namespace Fragment

/-- If `fillSlots` fails at the second of two arguments, the first one has been read by then. -/
theorem fillSlots_two {nested : Text → Outcome Block} {s t first second : Text} {b : Block} {f : Fault}
    (hs : s ≠ ['_']) (ht : t ≠ ['_']) (hfirst : (nested first).result = .ok b)
    (hsecond : (nested second).result = .error f) :
    (fillSlots nested [s, ['_'], t, ['_']] [first, second]).result = .error f ∧
      (fillSlots nested [s, ['_'], t, ['_']] [first, second]).sightings =
        (nested first).sightings ++ (nested second).sightings := by
  rw [fillSlots, fillSlots, fillSlots, fillSlots]
  · simp [Outcome.map, Outcome.andThen, Except.map, hfirst, hsecond]
  · exact fun _ _ hslot => absurd hslot ht
  · exact fun _ _ hslot => absurd hslot hs

/-- What ends in a bracket is neither a number nor a menu. -/
private theorem insertShape?_enclosed (pieces : List Text) (t : Text) :
    insertShape? (some .round) pieces (Bracket.round.enclose t) = none ∧
      Shape.ofArgument (some .round) (Bracket.round.enclose t) = .reporter := by
  -- a menu ends in the letter of its sign, and there is no bracket in a number
  have hreverse : (Bracket.round.enclose t).reverse = ')' :: (t.reverse ++ ['(']) := by
    simp [Bracket.enclose, Bracket.opener, Bracket.closer]
  have hmenu : endsInMenu (Bracket.round.enclose t) = false := by
    have hv : ¬ ['v', ' '] <+: ')' :: (t.reverse ++ ['(']) := fun hv =>
      absurd (List.cons_prefix_cons.1 hv).1 (by decide)
    rw [Bool.eq_false_iff, endsInMenu, ne_eq, List.isSuffixOf_iff_suffix, ← List.reverse_prefix, hreverse]
    exact hv
  have hnumber : isNumberText (Bracket.round.enclose t) = false := by
    have hall : (Bracket.round.enclose t).all isNumberChar = false := by
      simp [Bracket.enclose, Bracket.opener, show isNumberChar '(' = false by decide]
    rw [isNumberText, hall, hreverse]
    -- a text that ends in a bracket is no number in brackets either
    cases t.reverse with
    | nil => rfl
    | cons c rest =>
      by_cases hc : c = ' '
      · subst hc
        rfl
      · split
        · rename_i heq
          exact absurd (List.cons.inj (List.cons.inj heq).2).1 hc
        · rfl
  have hshape : Shape.ofArgument (some .round) (Bracket.round.enclose t) = .reporter := by
    simp [Shape.ofArgument, hmenu, hnumber]
  refine ⟨?_, hshape⟩
  rw [insertShape?, hshape]
  split <;> rfl

variable {v : Vocabulary} (hindex : Dictionary.get? (v.key ['_']) v.index = none)

include hindex

/-- Brackets around an argument in brackets have the `form` of an unknown reporter around it. -/
theorem form_enclosed {t : Text} (henclosed : IsEnclosed v.signRule (Bracket.round.enclose t))
    (hheader : v.header? (Bracket.round.enclose t) = none) :
    form v false (Bracket.round.enclose (Bracket.round.enclose t)) =
      .block (unknownAttrs ['_'] .reporter) [] [['_']] [Bracket.round.enclose t] := by
  have hweave : Text.weave [[], []] [Bracket.round.enclose t] = Bracket.round.enclose t := by
    simp [Text.weave, Text.interleave]
  -- without the outer brackets it is an argument between two empty runs
  have hwoven : IsInterwoven v [[], []] [Bracket.round.enclose t] := by
    refine ⟨.step _ _ (.last _), by simpa using henclosed, ?_, by simp [Bracket.leading?], by simp, ?_⟩
    · exact areBare_of_ofOpener?_eq_none (by simp) _ _ _
    · rw [hweave]
      exact henclosed.isTight.trim_eq_self
  -- the empty runs are no pieces
  have hpieces : ((Text.interleave [[], []] [Bracket.round.enclose t]).filter (· ≠ [])) =
      [Bracket.round.enclose t] := by
    simp [Text.interleave, Bracket.enclose]
  have hbracket : outerBracket false (Bracket.round.enclose (Bracket.round.enclose t)) = some .round := rfl
  have hcode : (if false then Bracket.round.enclose (Bracket.round.enclose t)
      else Bracket.strip (Bracket.round.enclose (Bracket.round.enclose t))) =
        Text.weave [[], []] [Bracket.round.enclose t] :=
    (Bracket.strip_enclose .round (Bracket.round.enclose t)).trans hweave.symm
  have hidentify := identify_of_index_eq_none hindex [Bracket.round.enclose t] .reporter
  -- so the spec is a single slot, and no block of the index has it
  have hspec : Text.padSlots (Text.slotted [[], []]) = ['_'] := by decide
  have hshape : blockShape (some .round) [Bracket.round.enclose t] (Bracket.round.enclose t) = .reporter := by
    rw [blockShape, if_neg (by simp), (insertShape?_enclosed [] t).2]
  rw [hwoven.form_eq hcode (by rwa [hweave]) (by rw [hweave, hbracket, (insertShape?_enclosed _ t).1])
    (by rw [hspec, hpieces, hweave, hbracket, hshape, hidentify])]
  rfl

/-- To `nest` a text in more brackets than there are levels is too deep for `read`. -/
theorem read_nest (hheader : ∀ t, v.header? (Bracket.round.enclose t) = none) {t : Text}
    (ht : ∀ c ∈ t, Bracket.isPlain c = true) {depth n : Nat} (h : depth ≤ n) :
    (read v depth false (Text.nest (n + 1) t)).result = .error .tooDeep := by
  induction depth generalizing n with
  | zero => rfl
  | succ depth ih =>
    obtain ⟨n, rfl⟩ : ∃ m, n = m + 1 := Nat.exists_eq_add_of_le' (Nat.one_le_of_lt h)
    have hinner := ih (Nat.le_of_succ_le_succ h)
    -- each pair of brackets is a block with one argument, whatever is inside
    have hform := form_enclosed hindex (isEnclosed_nest v.signRule ht n) (hheader _)
    have hslots : (fillSlots (read v depth false) [['_']] [Text.nest (n + 1) t]).result = .error .tooDeep := by
      simp [fillSlots, Outcome.andThen, hinner]
    rw [read_succ_result, Text.nest, Text.nest, hform, Form.read, finish]
    rw [Text.nest] at hslots
    rw [hslots]

end Fragment

end BlockScript
