import BlockScript.Proofs.Token.Enclosed

/-!
# Comparisons of two arguments

A sign between two arguments in round or square brackets is a comparison, if spaces are all that is between
it and them. What stands in the arguments plays no part: their brackets keep all signs in them from looking
further. So in angle brackets the text is one argument, in which the first and the last sign are brackets, and
without them it is the two arguments with the sign between them.

## Key results

- `tokenize_comparison`: the tokens of a comparison
- `tokenize_enclosed_comparison`: a comparison in angle brackets is one token
-/

namespace BlockScript

/-- Whether a text is an argument in round or square brackets by itself. -/
structure IsOperand (rule : SignRule) (t : Text) : Prop where
  opens : t.head? = some '(' ∨ t.head? = some '['
  single : tokenize rule t = ⟨[.bracketed t], none⟩

/-- Whether no text that starts with a bracket starts a block with a sign in its own text. -/
def SignRule.SparesBrackets (rule : SignRule) : Prop :=
  ∀ c t, (Bracket.ofOpener? c).isSome = true → ∀ n, (rule (c :: t)).holds n = false

/-- A sign with spaces in front of it and behind it. -/
def spacedSign (sign : Char) (front back : Nat) : Text :=
  List.replicate front ' ' ++ sign :: List.replicate back ' '

/-! ## Operands -/

namespace IsOperand

variable {rule : SignRule} {t : Text}

/-- What `IsOperand` is an inner text in its brackets. -/
theorem exists_enclosed (h : IsOperand rule t) :
    ∃ b inner, (b = .round ∨ b = .square) ∧ t = Bracket.enclose b inner := by
  obtain ⟨b, inner, rfl⟩ := exists_enclosed_of_isClosed (tokenize_eq_bracketed_iff.1 h.single)
  refine ⟨b, inner, ?_, rfl⟩
  rcases h.opens with hopens | hopens <;> cases b <;> simp_all [Bracket.enclose, Bracket.opener]

/-- The `glyphs` of an operand are the same wherever it stands, if no text in front of a sign takes it. -/
theorem glyphsFrom_append (h : IsOperand rule t) (hrule : rule.SparesBrackets) {verbal : Nat → Bool}
    (hverbal : ∀ n, verbal n = false) (before rest : Text) :
    glyphsFrom verbal before (t ++ rest) = glyphs rule t ++ glyphsFrom verbal (t.reverse ++ before) rest := by
  obtain ⟨b, inner, hb, rfl⟩ := h.exists_enclosed
  have hplain : ¬ IsSign b.opener ∧ ¬ IsSign b.closer := by
    rcases hb with rfl | rfl <;> decide
  -- between the brackets signs look no further than these
  have henclosed : ∀ verbal : Nat → Bool, (∀ n, verbal n = false) → ∀ before rest,
      glyphsFrom verbal before (b.enclose inner ++ rest) =
        ⟨b.opener, .ofChar b.opener⟩ :: (glyphsFrom (fun _ => false) [] inner ++
          ⟨b.closer, .ofChar b.closer⟩ :: glyphsFrom verbal ((b.enclose inner).reverse ++ before) rest) := by
    intro verbal hverbal before rest
    have hquiet : ∀ n, (fun _ : Nat => false) n = false := fun _ => rfl
    have hinner := glyphsFrom_enclosed hverbal hquiet b b before rest [] inner
    rw [glyphsFrom_cons_of_not_isSign hplain.2] at hinner
    have htext : b.enclose inner ++ rest = b.opener :: (inner ++ b.closer :: rest) := by simp [Bracket.enclose]
    have hreverse : (b.enclose inner).reverse ++ before = b.closer :: (inner.reverse ++ b.opener :: before) := by
      simp [Bracket.enclose]
    rw [htext, glyphsFrom_cons_of_not_isSign hplain.1, hreverse]
    exact congrArg _ hinner
  -- standing alone, it has the same glyphs
  have hself := henclosed (rule (b.enclose inner)).holds (hrule _ _ (by simp)) [] []
  rw [List.append_nil] at hself
  rw [henclosed verbal hverbal, glyphs, hself]
  simp [glyphsFrom]

end IsOperand

/-! ## Spaces -/

/-- `opensNext` looks past spaces. -/
private theorem opensNext_spaces (n : Nat) (t : Text) :
    opensNext (List.replicate n ' ' ++ t) = opensNext t := by
  simp [opensNext]

/-- So does `closesLast`. -/
private theorem closesLast_spaces (n : Nat) (t : Text) :
    closesLast (List.replicate n ' ' ++ t) = closesLast t := by
  simp [closesLast]

/-- Spaces are no brackets and no signs. -/
private theorem isPlain_of_mem_spaces {n : Nat} {c : Char} (h : c ∈ List.replicate n ' ') :
    Bracket.isPlain c = true := by
  rw [List.eq_of_mem_replicate h]
  rfl

/-- A `spacedSign` between what closes a bracket and what opens one is part of the text. -/
private theorem glyphsFrom_spacedSign {sign : Char} (hsign : IsSign sign) (front back : Nat)
    (verbal : Nat → Bool)
    {before rest : Text} (hbefore : closesLast before = true) (hrest : opensNext rest = true) :
    glyphsFrom verbal before (spacedSign sign front back ++ rest) =
      plainGlyphs (spacedSign sign front back) ++
        glyphsFrom verbal ((spacedSign sign front back).reverse ++ before) rest := by
  have hfilled : before ≠ [] := by
    rintro rfl
    cases hbefore
  -- spaces do not count, so the sign sees a bracket on both sides
  have hcomparison : isComparison verbal (List.replicate front ' ' ++ before) sign
      (List.replicate back ' ' ++ rest) = true := by
    rw [isComparison, opensNext_spaces, closesLast_spaces, hbefore, hrest]
    rcases hsign with rfl | rfl <;> simp [hfilled]
  rw [spacedSign, List.append_assoc, glyphsFrom_append (fun c => isPlain_of_mem_spaces), List.cons_append,
    glyphsFrom, List.reverse_replicate, hcomparison, glyphsFrom_append (fun c => isPlain_of_mem_spaces)]
  simp [plainGlyphs]

/-! ## Comparisons -/

section

variable {rule : SignRule} (hrule : rule.SparesBrackets) {a b : Text} (ha : IsOperand rule a)
  (hb : IsOperand rule b) {sign : Char} (hsign : IsSign sign) (front back : Nat)

include hrule ha hb hsign

/-- The `glyphs` of a comparison are those of the operands, with text between them. -/
private theorem glyphsFrom_comparison {verbal : Nat → Bool} (hverbal : ∀ n, verbal n = false)
    (before rest : Text) :
    glyphsFrom verbal before (a ++ spacedSign sign front back ++ b ++ rest) =
      glyphs rule a ++ plainGlyphs (spacedSign sign front back) ++ glyphs rule b ++
        glyphsFrom verbal ((a ++ spacedSign sign front back ++ b).reverse ++ before) rest := by
  -- both operands have brackets at their ends, whatever is in them
  have hcloses : ∀ before, closesLast (a.reverse ++ before) = true := by
    intro before
    obtain ⟨bracket, inner, hbracket, rfl⟩ := ha.exists_enclosed
    rcases hbracket with rfl | rfl <;> simp [Bracket.enclose, closesLast, Bracket.closer, Bracket.ofCloser?]
  have hopens : opensNext (b ++ rest) = true := by
    obtain ⟨bracket, inner, hbracket, rfl⟩ := hb.exists_enclosed
    rcases hbracket with rfl | rfl <;> simp [Bracket.enclose, opensNext, Bracket.opener, Bracket.ofOpener?]
  rw [List.append_assoc, List.append_assoc, ha.glyphsFrom_append hrule hverbal,
    glyphsFrom_spacedSign hsign front back verbal (hcloses before) hopens,
    hb.glyphsFrom_append hrule hverbal]
  simp

/-- `tokenize` gives the two operands, and between them the sign with its spaces. -/
theorem tokenize_comparison :
    tokenize rule (a ++ spacedSign sign front back ++ b) =
      ⟨[.bracketed a, .literal (spacedSign sign front back), .bracketed b], none⟩ := by
  -- the text starts with a bracket, so no sign in it is a word of a block
  have hverbal : ∀ n, (rule (a ++ spacedSign sign front back ++ b)).holds n = false := by
    obtain ⟨bracket, inner, -, hself⟩ := ha.exists_enclosed
    rw [hself]
    exact hrule _ _ (by simp)
  have hglyphs := glyphsFrom_comparison hrule ha hb hsign front back hverbal [] []
  rw [List.append_nil, glyphsFrom, List.append_nil] at hglyphs
  -- operand, text and operand are cut off one after the other
  have hclosed := tokenize_eq_bracketed_iff.1 ha.single
  have hclosed' := tokenize_eq_bracketed_iff.1 hb.single
  have hchars : ∀ t, (glyphs rule t).map Glyph.char = t := fun t => map_char_glyphsFrom _ _ _
  have hlast := cut_append_of_isClosed hclosed' (spacedSign sign front back).reverse []
  rw [List.append_nil, hchars] at hlast
  rw [tokenize, glyphs, hglyphs, List.append_assoc, cut_append_of_isClosed hclosed, cut_plainGlyphs_append,
    List.append_nil, hlast, hchars]
  simp [Tokens.consLiteral, Tokens.cons, cut, spacedSign]

/-- For `tokenize` a comparison in angle brackets is a single token. -/
theorem tokenize_enclosed_comparison :
    tokenize rule (Bracket.angle.enclose (a ++ spacedSign sign front back ++ b)) =
      ⟨[.bracketed (Bracket.angle.enclose (a ++ spacedSign sign front back ++ b))], none⟩ := by
  set inner := a ++ spacedSign sign front back ++ b
  have hverbal : ∀ n, (rule (Bracket.angle.enclose inner)).holds n = false := hrule _ _ (by simp)
  -- between the angle brackets nothing is left open
  have hinside : Nests .angle
      (glyphs rule a ++ plainGlyphs (spacedSign sign front back) ++ glyphs rule b) := by
    have hoperand : ∀ {t}, IsOperand rule t → Nests .angle (glyphs rule t) := fun ht =>
      .of_isClosed (by decide) (tokenize_eq_bracketed_iff.1 ht.single)
    refine ((hoperand ha).append (.of_change_eq fun g hg => ?_)).append (hoperand hb)
    obtain ⟨c, -, rfl⟩ := List.mem_map.1 hg
    rfl
  -- the first sign has nothing in front of it, and the last one nothing behind it
  have hglyphs : glyphs rule (Bracket.angle.enclose inner) = ⟨'<', .opens .angle⟩ ::
      (glyphs rule a ++ plainGlyphs (spacedSign sign front back) ++ glyphs rule b) ++
        [⟨'>', .closes .angle⟩] := by
    have hmiddle := glyphsFrom_comparison hrule ha hb hsign front back hverbal ['<'] ['>']
    have hlast : ∀ before, isComparison (rule (Bracket.angle.enclose inner)).holds before '>' [] = false := by
      intro before
      simp [isComparison, opensNext, hverbal]
    rw [glyphsFrom, hlast] at hmiddle
    rw [glyphs]
    exact congrArg (List.cons ⟨'<', .opens .angle⟩) hmiddle
  rw [tokenize_eq_bracketed_iff, hglyphs]
  exact hinside.isClosed_enclosed rfl rfl

end

end BlockScript
