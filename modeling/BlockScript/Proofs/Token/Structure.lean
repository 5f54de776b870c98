import Mathlib.Data.List.Chain
import BlockScript.Proofs.Token.Segment

/-!
# The structure of tokens

The tokens of a text are not empty and make up the text again. Literal text is never cut in two. An
argument ends where the bracket closes that it starts with, and no sooner. Only the last token can be an
argument that is left open, which is complained about once, by its first character.

## Key results

- `tokenize_structure`: all of this of every text, under every rule for comparison signs
-/

namespace BlockScript

/-! ## Characters and roles -/

/-- By `ofCloser?`, each closing bracket closes its own kind. -/
theorem Bracket.ofCloser?_eq_some_iff {c : Char} {b : Bracket} :
    ofCloser? c = some b ↔ c = b.closer := by
  constructor
  · intro h
    -- the four brackets are tried one after the other
    unfold ofCloser? at h
    split at h
    · cases h; assumption
    · split at h
      · cases h; assumption
      · split at h
        · cases h; assumption
        · split at h
          · cases h; assumption
          · cases h
  · rintro rfl
    exact ofCloser?_closer b

/-- A character has no part in the nesting of brackets, or the one that it looks like. -/
private theorem role_of_mem_glyphsFrom {verbal : Nat → Bool} {before t : Text} {g : Glyph}
    (h : g ∈ glyphsFrom verbal before t) : g.role = .plain ∨ g.role = .ofChar g.char := by
  induction t generalizing before with
  | nil => simp [glyphsFrom] at h
  | cons c rest ih =>
    rcases List.mem_cons.1 h with rfl | h
    · dsimp only
      split
      · exact .inl rfl
      · exact .inr rfl
    · exact ih h

/-- Among `glyphsFrom` a text, what opens a bracket is the opening bracket. -/
theorem char_of_opens {verbal : Nat → Bool} {before t : Text} {g : Glyph} {b : Bracket}
    (h : g ∈ glyphsFrom verbal before t) (hrole : g.role = .opens b) : g.char = b.opener := by
  rcases role_of_mem_glyphsFrom h with hplain | hlooks
  · rw [hplain] at hrole
    cases hrole
  · rw [hlooks, Role.ofChar] at hrole
    split at hrole
    · rename_i b' hopener
      cases hrole
      exact Bracket.ofOpener?_eq_some_iff.1 hopener
    · split at hrole <;> cases hrole

/-- And what closes a bracket among `glyphsFrom` a text is the closing bracket. -/
theorem char_of_closes {verbal : Nat → Bool} {before t : Text} {g : Glyph} {b : Bracket}
    (h : g ∈ glyphsFrom verbal before t) (hrole : g.role = .closes b) : g.char = b.closer := by
  rcases role_of_mem_glyphsFrom h with hplain | hlooks
  · rw [hplain] at hrole
    cases hrole
  · rw [hlooks, Role.ofChar] at hrole
    split at hrole
    · cases hrole
    · split at hrole
      · rename_i b' hcloser
        cases hrole
        exact Bracket.ofCloser?_eq_some_iff.1 hcloser
      · cases hrole

/-! ## Tokens -/

/-- Of two tokens in a row one `isBracketed`. -/
theorem Cuts.isChain {gs : List Glyph} {ts : Tokens} (h : Cuts gs ts) :
    ts.tokens.IsChain fun a b => a.isBracketed = true ∨ b.isBracketed = true := by
  induction h with
  | nil => exact .nil
  | @literal lit rest ts _ _ alone _ ih =>
    refine ih.cons fun token htoken => .inr ?_
    cases token with
    | literal u => exact absurd htoken (alone u)
    | bracketed u => rfl
  | bracketed _ _ ih => exact ih.cons fun _ _ => .inl rfl
  | unclosed _ _ => exact .singleton _

/-- A run of glyphs that stays open does not close at its end. -/
private theorem StaysOpen.not_isClosed {gs : List Glyph} (h : StaysOpen gs) : ¬ IsClosed gs := by
  rintro ⟨-, -, -, -, hclosed⟩
  exact h.stays gs h.ne_nil List.prefix_rfl hclosed

/-- An argument is closed, by `IsClosed`, exactly at its end, unless it is the last token and left open. -/
theorem isClosed_iff_of_bracketed {rule : SignRule} {t u : Text} {pre post : List Token}
    (h : (tokenize rule t).tokens = pre ++ .bracketed u :: post) :
    IsClosed (((glyphs rule t).drop (pre.map Token.text).flatten.length).take u.length) ↔
      post ≠ [] ∨ (tokenize rule t).unclosed = none := by
  obtain ⟨front, run, back, hglyphs, hfront, rfl, -, hplace⟩ := (cuts_tokenize rule t).exists_place h
  have hrun : ((glyphs rule t).drop (pre.map Token.text).flatten.length).take
      (run.map Glyph.char).length = run := by
    rw [hglyphs, ← hfront, List.length_map, List.length_map, List.drop_left, List.take_left]
  rw [hrun]
  rcases hplace with ⟨hclosed, hmore⟩ | ⟨hstays, -, rfl, hopen⟩
  · exact iff_of_true hclosed hmore
  · exact iff_of_false hstays.not_isClosed (by simp [hopen])

/-- The complaint about a text that ends inside a bracket names the first character of the last token. -/
private theorem exists_message_of_unclosed {rule : SignRule} {t : Text} {b : Bracket}
    (h : (tokenize rule t).unclosed = some b) :
    ∃ pre c u, (tokenize rule t).tokens = pre ++ [.bracketed (c :: u)] ∧
      (Fragment.innerComplaints none (tokenize rule t)).map Complaint.message =
        ["Unterminated \"".toList ++ c :: "\" bracket".toList] := by
  obtain ⟨pre, g, u, htokens, hg, hrole⟩ := (cuts_tokenize rule t).exists_last_of_unclosed h
  refine ⟨pre, g.char, u, htokens, ?_⟩
  have hcomplaints : Fragment.innerComplaints none (tokenize rule t) = [.unterminated b] := by
    simp [Fragment.innerComplaints, h]
  rw [hcomplaints, char_of_opens hg hrole]
  rfl

/-- Under every rule for comparison signs the `tokens` of a text are not empty, and put together they are the
    text. No literal token follows another one. A token in brackets has glyphs that are closed, by `IsClosed`,
    exactly at its own last character, unless it is the last one and the text ends inside a bracket. If the
    text does so there is one complaint among `innerComplaints`, which names the first character of the last
    token, and else there is none. -/
theorem tokenize_structure (rule : SignRule) (t : Text) :
    (∀ token ∈ (tokenize rule t).tokens, token.text ≠ []) ∧
      (tokenize rule t).texts.flatten = t ∧
      (tokenize rule t).tokens.IsChain (fun a b => a.isBracketed = true ∨ b.isBracketed = true) ∧
      (∀ pre u post, (tokenize rule t).tokens = pre ++ .bracketed u :: post →
        (IsClosed (((glyphs rule t).drop (pre.map Token.text).flatten.length).take u.length) ↔
          post ≠ [] ∨ (tokenize rule t).unclosed = none)) ∧
      (openAfter [] (glyphs rule t) = [] ∧
          Fragment.innerComplaints none (tokenize rule t) = [] ∨
        openAfter [] (glyphs rule t) ≠ [] ∧
          ∃ pre c u, (tokenize rule t).tokens = pre ++ [.bracketed (c :: u)] ∧
            (Fragment.innerComplaints none (tokenize rule t)).map Complaint.message =
              ["Unterminated \"".toList ++ c :: "\" bracket".toList]) := by
  have hcuts := cuts_tokenize rule t
  have hunclosed := hcuts.unclosed_eq_none_iff
  refine ⟨hcuts.text_ne_nil, flatten_texts_tokenize rule t, hcuts.isChain,
    fun pre u post => isClosed_iff_of_bracketed, ?_⟩
  cases h : (tokenize rule t).unclosed with
  | none => exact .inl ⟨hunclosed.1 h, by simp [Fragment.innerComplaints, h]⟩
  | some b =>
    refine .inr ⟨fun hopen => ?_, exists_message_of_unclosed h⟩
    rw [hunclosed.2 hopen] at h
    cases h

end BlockScript
