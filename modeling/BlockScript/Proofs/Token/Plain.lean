import BlockScript.Token

/-!
# Tokens of text with few brackets

Text without brackets is a token of its own, between the ends of a line or of an argument. Comparison
signs are brackets here too, so nothing has to be known of what is around it.

## Key results

- `tokenize_plain`: a text without brackets is one literal token
- `tokenize_plain_argument`: such a text and an argument in round brackets behind it
-/

namespace BlockScript

/-- Whether a character neither opens nor closes a bracket. -/
def Bracket.isPlain (c : Char) : Bool := (ofOpener? c).isNone && (ofCloser? c).isNone

/-- A character that `isPlain` opens nothing. -/
theorem Bracket.ofOpener?_of_isPlain {c : Char} (h : isPlain c = true) : ofOpener? c = none := by
  rw [isPlain, Bool.and_eq_true, Option.isNone_iff_eq_none] at h
  exact h.1

/-- Characters with the role of text. -/
def plainGlyphs (t : Text) : List Glyph := t.map fun c => ⟨c, .plain⟩

/-- Whatever stands around text without brackets, it has `plainGlyphs`. -/
theorem glyphsFrom_append {s : Text} (hs : ∀ c ∈ s, Bracket.isPlain c = true) (verbal : Nat → Bool)
    (before t : Text) :
    glyphsFrom verbal before (s ++ t) = plainGlyphs s ++ glyphsFrom verbal (s.reverse ++ before) t := by
  induction s generalizing before with
  | nil => rfl
  | cons c s ih =>
    obtain ⟨hc, hs⟩ := List.forall_mem_cons.1 hs
    simp only [Bracket.isPlain, Bool.and_eq_true, Option.isNone_iff_eq_none] at hc
    have hrole : Role.ofChar c = .plain := by
      rw [Role.ofChar, hc.1, hc.2]
    rw [List.cons_append, glyphsFrom, ih hs, hrole, ite_self]
    simp [plainGlyphs]

/-- `cut` reads plain characters on into the present token. -/
theorem cut_plainGlyphs_append (nested : List Bracket) (read s : Text) (gs : List Glyph) :
    cut nested read (plainGlyphs s ++ gs) = cut nested (s.reverse ++ read) gs := by
  induction s generalizing read with
  | nil => rfl
  | cons c s ih =>
    have hstep : cut nested read (plainGlyphs (c :: s) ++ gs) =
        cut nested (c :: read) (plainGlyphs s ++ gs) := by
      cases nested <;> rfl
    rw [hstep, ih, List.reverse_cons, List.append_assoc, List.singleton_append]

/-- `tokenize` makes one literal token of a text without brackets. -/
theorem tokenize_plain (rule : SignRule) {t : Text} (ht : t ≠ [])
    (hplain : ∀ c ∈ t, Bracket.isPlain c = true) : tokenize rule t = ⟨[.literal t], none⟩ := by
  have hglyphs : glyphs rule t = plainGlyphs t ++ [] := by
    have := glyphsFrom_append hplain (rule t).holds [] []
    rwa [List.append_nil] at this
  rw [tokenize, hglyphs, cut_plainGlyphs_append, List.append_nil, cut]
  simp [Tokens.consLiteral, Tokens.cons, ht]

/-- What opens round brackets is no comparison sign, and neither is what closes them. -/
private theorem glyphsFrom_round (verbal : Nat → Bool) (before : Text) {t : Text}
    (ht : ∀ c ∈ t, Bracket.isPlain c = true) (rest : Text) :
    glyphsFrom verbal before ('(' :: (t ++ rest)) =
      ⟨'(', .opens .round⟩ :: (plainGlyphs t ++ glyphsFrom verbal (t.reverse ++ '(' :: before) rest) := by
  have hopen : ∀ after, isComparison verbal before '(' after = false := fun _ => rfl
  rw [glyphsFrom, hopen, glyphsFrom_append ht]
  rfl

/-- An argument in round brackets without brackets in it ends where it is closed. -/
private theorem cut_round (verbal : Nat → Bool) (before read : Text) {t : Text}
    (ht : ∀ c ∈ t, Bracket.isPlain c = true) :
    cut [] read (glyphsFrom verbal before ('(' :: (t ++ [')']))) =
      .consLiteral read ⟨[.bracketed ('(' :: (t ++ [')']))], none⟩ := by
  have hclose : ∀ before, glyphsFrom verbal before [')'] = [⟨')', .closes .round⟩] := fun _ => rfl
  rw [glyphsFrom_round verbal before ht, hclose]
  simp only [cut, cut_plainGlyphs_append]
  simp [Role.nest, Tokens.consLiteral, Tokens.cons]

/-- If it is not closed it ends with the text. -/
theorem cut_round_open (verbal : Nat → Bool) (before read : Text) {t : Text}
    (ht : ∀ c ∈ t, Bracket.isPlain c = true) :
    cut [] read (glyphsFrom verbal before ('(' :: t)) =
      .consLiteral read ⟨[.bracketed ('(' :: t)], some .round⟩ := by
  have hglyphs := glyphsFrom_round verbal before ht []
  rw [List.append_nil] at hglyphs
  rw [hglyphs]
  simp only [cut, glyphsFrom, cut_plainGlyphs_append]
  simp [Tokens.consLiteral, Tokens.cons]

/-- `tokenize` makes two tokens of a text without brackets and an argument without brackets in it. -/
theorem tokenize_plain_argument (rule : SignRule) {s t : Text} (hs : s ≠ [])
    (hs' : ∀ c ∈ s, Bracket.isPlain c = true) (ht : ∀ c ∈ t, Bracket.isPlain c = true) :
    tokenize rule (s ++ '(' :: (t ++ [')'])) = ⟨[.literal s, .bracketed ('(' :: (t ++ [')']))], none⟩ := by
  rw [tokenize, glyphs, glyphsFrom_append hs', cut_plainGlyphs_append, cut_round _ _ _ ht]
  simp [Tokens.consLiteral, Tokens.cons, hs]

end BlockScript
