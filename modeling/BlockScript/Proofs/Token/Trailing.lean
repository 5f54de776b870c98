import BlockScript.Proofs.Token.Woven

/-!
# Text behind the last token

If no bracket is open at its end, text without brackets can be put behind a text, and all tokens stay as they
are. What is new is part of the last token if that is literal, and a literal token of its own if it is not.

## Key results

- `Vocabulary.glyphs_append_plain`: the characters in front keep their roles
- `Vocabulary.tokenize_append_plain`: the tokens with text behind them
-/

namespace BlockScript

/-! ## Roles -/

/-- No bracket opens in plain text. -/
private theorem opensNext_of_plain {t : Text} (h : ∀ c ∈ t, Bracket.isPlain c = true) :
    opensNext t = false := by
  unfold opensNext
  split
  · rename_i c rest hdrop
    have hc : c ∈ t := (List.dropWhile_suffix (· = ' ')).subset (hdrop ▸ List.mem_cons_self)
    rw [Bracket.ofOpener?_of_isPlain (h c hc)]
    rfl
  · rfl

/-- Whether a bracket opens next is not changed by text without brackets further behind. -/
private theorem opensNext_append_plain {t : Text} (h : ∀ c ∈ t, Bracket.isPlain c = true) (s : Text) :
    opensNext (s ++ t) = opensNext s := by
  induction s with
  | nil => exact opensNext_of_plain h
  | cons c s ih =>
    by_cases hc : c = ' '
    · subst hc
      exact ih
    · simp [opensNext, hc]

/-- Plain characters behind a text change no role that `glyphsFrom` gives in it. -/
private theorem glyphsFrom_append_plain {verbal verbal' : Nat → Bool} {before s t : Text}
    (hverbal : ∀ n < before.length + s.length, verbal' n = verbal n)
    (ht : ∀ c ∈ t, Bracket.isPlain c = true) :
    glyphsFrom verbal' before (s ++ t) = glyphsFrom verbal before s ++ plainGlyphs t := by
  induction s generalizing before with
  | nil => simpa [glyphsFrom] using glyphsFrom_append ht verbal' before []
  | cons c s ih =>
    have hsign : isComparison verbal' before c (s ++ t) = isComparison verbal before c s := by
      rw [isComparison, isComparison, opensNext_append_plain ht, hverbal _ (by simp)]
    have hlater : ∀ n < (c :: before).length + s.length, verbal' n = verbal n := by
      intro n hn
      refine hverbal n ?_
      simp only [List.length_cons] at hn ⊢
      omega
    rw [List.cons_append, glyphsFrom, hsign, ih hlater, glyphsFrom, List.cons_append]

/-- The `signRule` of a vocabulary looks at nothing behind a sign. -/
theorem Vocabulary.glyphs_append_plain (v : Vocabulary) {s t : Text}
    (ht : ∀ c ∈ t, Bracket.isPlain c = true) :
    glyphs v.signRule (s ++ t) = glyphs v.signRule s ++ plainGlyphs t := by
  refine glyphsFrom_append_plain (fun n hn => ?_) ht
  rw [signRule_eq_takesSigns, signRule_eq_takesSigns, List.take_append_of_le_length (by simpa using hn.le)]

/-! ## Tokens -/

/-- Put literal text behind tokens. -/
def Token.trail (t : Text) : List Token → List Token
  | [] => [.literal t]
  | [.literal u] => [.literal (u ++ t)]
  | token :: tokens => token :: trail t tokens

/-- Text that trails goes past a token in brackets to the end. -/
private theorem Token.trail_bracketed (t u : Text) (tokens : List Token) :
    trail t (.bracketed u :: tokens) = .bracketed u :: trail t tokens := by
  cases tokens <;> rfl

/-- `trail` puts text behind the last token. -/
theorem Token.trail_concat (t : Text) (tokens : List Token) (last : Token) :
    trail t (tokens ++ [last]) =
      tokens ++ match last with
        | .literal u => [.literal (u ++ t)]
        | .bracketed u => [.bracketed u, .literal t] := by
  induction tokens with
  | nil => cases last <;> rfl
  | cons token tokens ih =>
    obtain ⟨next, rest, hnext⟩ : ∃ next rest, tokens ++ [last] = next :: rest := by
      cases tokens <;> exact ⟨_, _, rfl⟩
    have hstep : trail t (token :: (tokens ++ [last])) = token :: trail t (tokens ++ [last]) := by
      rw [hnext]
      cases token <;> rfl
    rw [List.cons_append, hstep, ih, List.cons_append]

/-- Glyphs of text behind others are put behind their `tokens`, if no bracket is open there. -/
private theorem Cuts.cut_append_plainGlyphs {gs : List Glyph} {ts : Tokens} (h : Cuts gs ts)
    (hclosed : ts.unclosed = none) {t : Text} (ht : t ≠ []) :
    cut [] [] (gs ++ plainGlyphs t) = ⟨Token.trail t ts.tokens, none⟩ := by
  -- outside of brackets the text is read to the end
  have hend : ∀ read, cut [] read (plainGlyphs t) = ⟨[.literal (read.reverse ++ t)], none⟩ := by
    intro read
    have hread := cut_plainGlyphs_append [] read t []
    rw [List.append_nil] at hread
    rw [hread, cut]
    simp [Tokens.consLiteral, Tokens.cons, ht]
  induction h with
  | nil => simpa [Token.trail] using hend []
  | @literal lit rest ts filled plain alone later ih =>
    -- the literal token is not the last one, or the text goes on with it
    have hfilled : (lit.map Glyph.char).reverse.isEmpty = false := by simpa using filled
    rw [List.append_assoc, cut_append_of_opens_not plain, List.append_nil]
    cases later with
    | nil => simp [hend, Token.trail, Tokens.cons]
    | literal => exact absurd rfl (alone _)
    | @bracketed run rest ts closed later =>
      -- the next token is not part of this one
      have hnext := ih hclosed
      rw [List.append_assoc, cut_append_of_isClosed closed, Tokens.consLiteral, List.isEmpty_nil, if_pos rfl]
        at hnext
      rw [List.append_assoc, cut_append_of_isClosed closed, Tokens.consLiteral, hfilled, if_neg (by simp), hnext]
      simp [Tokens.cons, Token.trail]
    | unclosed => cases hclosed
  | bracketed closed later ih =>
    rw [List.append_assoc, cut_append_of_isClosed closed, ih hclosed]
    simp [Tokens.consLiteral, Tokens.cons, Token.trail_bracketed]
  | unclosed => cases hclosed

/-- Text without brackets is put behind the `tokens` of a text that leaves no bracket open. -/
theorem Vocabulary.tokenize_append_plain (v : Vocabulary) {s t : Text}
    (hclosed : (tokenize v.signRule s).unclosed = none) (ht : ∀ c ∈ t, Bracket.isPlain c = true)
    (hfilled : t ≠ []) :
    tokenize v.signRule (s ++ t) = ⟨Token.trail t (tokenize v.signRule s).tokens, none⟩ := by
  rw [tokenize, v.glyphs_append_plain ht]
  exact (cuts_tokenize v.signRule s).cut_append_plainGlyphs hclosed hfilled

end BlockScript
