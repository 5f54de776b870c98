import BlockScript.Proofs.Token.Cut
import BlockScript.Reading.Fragment

/-!
# What tokens start with

A token is a *segment* of the glyphs of a text. It is in brackets just if its first glyph opens one, so
just if its first character is an opening bracket and no comparison sign. A reader goes by the first
character alone and does not ask for the sign. The two agree on every token but a literal one that
starts with a less-than sign, as it does directly behind an argument.

## Key results

- `segmented_tokenize`: tokens are segments of the glyphs, and their first glyphs tell what they are
- `isBracketed_iff`: which tokens are in brackets
- `argumentsOf_eq_bracketed_iff`: when the arguments of a fragment are its tokens in brackets
- `argumentsOf_close_sign`: a less-than sign that is taken for an argument
-/

namespace BlockScript

/-- Whether a token is an argument with its brackets. -/
def Token.isBracketed : Token → Bool
  | .literal _ => false
  | .bracketed _ => true

/-! ## Segments -/

/-- A run of glyphs that makes up a token. -/
structure Segment where
  isBracketed : Bool
  glyphs : List Glyph

namespace Segment

/-- The token that a segment makes up. -/
def token (s : Segment) : Token :=
  if s.isBracketed then .bracketed (s.glyphs.map Glyph.char) else .literal (s.glyphs.map Glyph.char)

/-- The text of a token is that of its `glyphs`. -/
private theorem text_token (s : Segment) : s.token.text = s.glyphs.map Glyph.char := by
  unfold token
  split <;> rfl

/-- A token is bracketed if its segment is. -/
private theorem isBracketed_token (s : Segment) : s.token.isBracketed = s.isBracketed := by
  unfold token
  split
  · rename_i h
    exact h.symm
  · rename_i h
    exact (Bool.eq_false_iff.2 h).symm

/-- Whether a segment has a first glyph, which opens a bracket just if the segment is in brackets. -/
def Begins (s : Segment) : Prop :=
  ∃ g rest, s.glyphs = g :: rest ∧ (s.isBracketed = true ↔ ∃ b, g.role = .opens b)

end Segment

/-- Tokens that are segments of the given glyphs, one after the other. -/
def Segmented (gs : List Glyph) (ts : List Token) : Prop :=
  ∃ segments : List Segment, ts = segments.map Segment.token ∧
    segments.flatMap Segment.glyphs = gs ∧ ∀ s ∈ segments, s.Begins

theorem Segmented.nil : Segmented [] [] := ⟨[], rfl, rfl, by simp⟩

/-- If glyphs are `Segmented`, a segment in front of them is their first token. -/
theorem Segmented.cons {gs : List Glyph} {ts : List Token} {s : Segment} (hs : s.Begins)
    (h : Segmented gs ts) : Segmented (s.glyphs ++ gs) (s.token :: ts) := by
  obtain ⟨segments, htokens, hglyphs, hbegins⟩ := h
  refine ⟨s :: segments, ?_, ?_, List.forall_mem_cons.2 ⟨hs, hbegins⟩⟩
  · rw [htokens, List.map_cons]
  · rw [List.flatMap_cons, hglyphs]

/-- Glyphs that are cut into tokens are cut into segments. -/
private theorem Cuts.segmented {gs : List Glyph} {ts : Tokens} (h : Cuts gs ts) :
    Segmented gs ts.tokens := by
  -- each way to cut off a token begins with the glyph that it should have
  induction h with
  | nil => exact .nil
  | @literal lit rest ts filled plain _ _ ih =>
    obtain ⟨g, later, rfl⟩ := List.exists_cons_of_ne_nil filled
    have hbegins : Segment.Begins ⟨false, g :: later⟩ :=
      ⟨g, later, rfl, by simpa using plain g List.mem_cons_self⟩
    exact Segmented.cons hbegins ih
  | @bracketed run rest ts closed _ ih =>
    obtain ⟨front, last, rfl, stays, -⟩ := closed
    obtain ⟨g, later, b, rfl, hg⟩ := stays.opens
    have hbegins : Segment.Begins ⟨true, g :: later ++ [last]⟩ :=
      ⟨g, later ++ [last], rfl, by simp [hg]⟩
    exact Segmented.cons hbegins ih
  | @unclosed g rest b first _ =>
    have hbegins : Segment.Begins ⟨true, g :: rest⟩ := ⟨g, rest, rfl, by simp [first]⟩
    simpa [Segment.token] using Segmented.cons hbegins .nil

/-- The `tokens` of a text are segments of its `glyphs`, each with the first glyph that it should have. -/
theorem segmented_tokenize (rule : SignRule) (t : Text) :
    Segmented (glyphs rule t) (tokenize rule t).tokens :=
  (cuts_tokenize rule t).segmented

/-! ## Glyphs and comparison signs -/

/-- `comparisonsFrom` counts the comparisons on from the text before. -/
theorem le_of_mem_comparisonsFrom {verbal : Nat → Bool} {before t : Text} {n : Nat}
    (h : n ∈ comparisonsFrom verbal before t) : before.length ≤ n := by
  induction t generalizing before with
  | nil => simp [comparisonsFrom] at h
  | cons c rest ih =>
    -- signs are numbered from the start of the whole text
    have hlater : n ∈ comparisonsFrom verbal (c :: before) rest → before.length ≤ n := by
      intro hn
      have := ih hn
      rw [List.length_cons] at this
      omega
    simp only [comparisonsFrom] at h
    split at h
    · rcases List.mem_cons.1 h with rfl | h
      · exact Nat.le_refl _
      · exact hlater h
    · exact hlater h

/-- A glyph opens a bracket just if its character does and is no comparison sign. -/
private theorem opens_iff_of_getElem?_glyphsFrom {verbal : Nat → Bool} {before t : Text} {n : Nat}
    {g : Glyph}
    (h : (glyphsFrom verbal before t)[n]? = some g) :
    (∃ b, g.role = .opens b) ↔
      (Bracket.ofOpener? g.char).isSome = true ∧
        before.length + n ∉ comparisonsFrom verbal before t := by
  induction t generalizing before n with
  | nil => simp [glyphsFrom] at h
  | cons c rest ih =>
    -- comparisons in the rest have larger positions, so the first position is judged by the first character
    have hlater : before.length ∉ comparisonsFrom verbal (c :: before) rest := by
      intro hmem
      have := le_of_mem_comparisonsFrom hmem
      rw [List.length_cons] at this
      omega
    cases n with
    | zero =>
      obtain rfl : ⟨c, if isComparison verbal before c rest then .plain else .ofChar c⟩ = g := by
        simpa [glyphsFrom] using h
      simp only [comparisonsFrom, Nat.add_zero]
      split
      · simp
      · rw [Role.ofChar]
        cases hopener : Bracket.ofOpener? c with
        | some b => simpa [hopener] using hlater
        | none => cases Bracket.ofCloser? c <;> simp
    | succ n =>
      -- later glyphs are those of the rest
      have hrest : (glyphsFrom verbal (c :: before) rest)[n]? = some g := by
        simpa [glyphsFrom] using h
      have hcount : before.length + (n + 1) = (c :: before).length + n := by
        rw [List.length_cons]
        omega
      rw [ih hrest, comparisonsFrom, hcount]
      split
      · rw [List.mem_cons, ← hcount]
        simp
      · rfl

/-- An opening bracket that opens nothing is a less-than sign. -/
private theorem opens_or_of_mem_glyphsFrom {verbal : Nat → Bool} {before t : Text} {g : Glyph}
    (h : g ∈ glyphsFrom verbal before t) (hopener : (Bracket.ofOpener? g.char).isSome = true) :
    (∃ b, g.role = .opens b) ∨ g.char = '<' := by
  induction t generalizing before with
  | nil => simp [glyphsFrom] at h
  | cons c rest ih =>
    rcases List.mem_cons.1 h with rfl | h
    · obtain ⟨b, hb⟩ := Option.isSome_iff_exists.1 hopener
      have hb : Bracket.ofOpener? c = some b := hb
      dsimp only
      split
      · -- the sign is one of two, and only the less-than sign looks like an opening bracket
        rename_i hsign
        simp only [isComparison, Bool.and_eq_true, Bool.or_eq_true, beq_iff_eq] at hsign
        rcases hsign.1.1 with rfl | rfl
        · exact .inr rfl
        · simp [Bracket.ofOpener?] at hb
      · exact .inl ⟨b, by rw [Role.ofChar, hb]⟩
    · exact ih h

/-! ## Which tokens are in brackets -/

/-- A token in its place is a segment of `glyphs` in the same place. -/
private theorem exists_first_glyph {rule : SignRule} {t : Text} {pre post : List Token}
    {token : Token} (h : (tokenize rule t).tokens = pre ++ token :: post) :
    ∃ g ∈ glyphs rule t, token.text.head? = some g.char ∧
      (glyphs rule t)[(pre.map Token.text).flatten.length]? = some g ∧
      (token.isBracketed = true ↔ ∃ b, g.role = .opens b) := by
  obtain ⟨segments, htokens, hglyphs, hbegins⟩ := segmented_tokenize rule t
  rw [h] at htokens
  -- the segment of the token stands behind those of the tokens in front
  obtain ⟨before, later, rfl, hpre, hlater⟩ := List.map_eq_append_iff.1 htokens.symm
  obtain ⟨s, after, rfl, rfl, -⟩ := List.map_eq_cons_iff.1 hlater
  obtain ⟨g, rest, hs, hopens⟩ := hbegins s (by simp)
  -- the tokens in front have as many characters as their segments have glyphs
  have hplace : (pre.map Token.text).flatten.length = (before.flatMap Segment.glyphs).length := by
    simp [← hpre, List.map_map, Function.comp_def, Segment.text_token, List.length_flatten,
      List.length_flatMap]
  have hall : glyphs rule t =
      before.flatMap Segment.glyphs ++ (g :: (rest ++ after.flatMap Segment.glyphs)) := by
    rw [← hglyphs, List.flatMap_append, List.flatMap_cons, hs, List.cons_append]
  refine ⟨g, by simp [hall], ?_, ?_, ?_⟩
  · rw [Segment.text_token, hs]
    rfl
  · rw [hall, hplace, List.getElem?_append_right (Nat.le_refl _), Nat.sub_self]
    rfl
  · rw [Segment.isBracketed_token]
    exact hopens

/-- The kind that a text opens, by its first character. -/
private theorem leading?_of_head? {t : Text} {c : Char} (h : t.head? = some c) :
    Bracket.leading? t = Bracket.ofOpener? c := by
  cases t with
  | nil => simp at h
  | cons d rest =>
    obtain rfl : d = c := by simpa using h
    rfl

/-- A token `isBracketed` just if its first character is an opening bracket and no comparison sign. -/
theorem isBracketed_iff {rule : SignRule} {t : Text} {pre post : List Token} {token : Token}
    (h : (tokenize rule t).tokens = pre ++ token :: post) :
    token.isBracketed = true ↔
      (Bracket.leading? token.text).isSome = true ∧
        (pre.map Token.text).flatten.length ∉ comparisons rule t := by
  obtain ⟨g, -, hhead, hplace, hopens⟩ := exists_first_glyph h
  have hplace : (glyphsFrom (rule t).holds [] t)[(pre.map Token.text).flatten.length]? = some g :=
    hplace
  have hglyph := opens_iff_of_getElem?_glyphsFrom hplace
  rw [List.length_nil, Nat.zero_add] at hglyph
  rw [hopens, hglyph, leading?_of_head? hhead]
  rfl

/-- A token that `isBracketed` starts with a bracket. -/
theorem leading?_of_isBracketed {rule : SignRule} {t : Text} {token : Token}
    (hmem : token ∈ (tokenize rule t).tokens) (h : token.isBracketed = true) :
    (Bracket.leading? token.text).isSome = true := by
  obtain ⟨pre, post, hsplit⟩ := List.append_of_mem hmem
  exact ((isBracketed_iff hsplit).1 h).1

/-- The `tokens` in brackets are some of those that look like arguments. -/
private theorem bracketed_sublist (rule : SignRule) (t : Text) :
    ((tokenize rule t).tokens.filter Token.isBracketed).Sublist
      ((tokenize rule t).tokens.filter fun token => (Bracket.leading? token.text).isSome) := by
  have hboth : (tokenize rule t).tokens.filter Token.isBracketed =
      ((tokenize rule t).tokens.filter fun token =>
        (Bracket.leading? token.text).isSome).filter Token.isBracketed := by
    rw [List.filter_filter]
    refine List.filter_congr fun token hmem => ?_
    cases hb : token.isBracketed with
    | false => rfl
    | true => simp [leading?_of_isBracketed hmem hb]
  rw [hboth]
  exact List.filter_sublist

/-- A literal token that looks like an argument starts with a less-than sign. -/
private theorem head?_of_literal {rule : SignRule} {t u : Text}
    (h : .literal u ∈ (tokenize rule t).tokens) (hleading : (Bracket.leading? u).isSome = true) :
    u.head? = some '<' := by
  obtain ⟨pre, post, hsplit⟩ := List.append_of_mem h
  obtain ⟨g, hmem, hhead, -, hopens⟩ := exists_first_glyph hsplit
  have hhead : u.head? = some g.char := hhead
  rw [leading?_of_head? hhead] at hleading
  rcases opens_or_of_mem_glyphsFrom hmem hleading with hrole | hsign
  · exact absurd (hopens.2 hrole) (by simp [Token.isBracketed])
  · rw [hhead, hsign]

namespace Fragment

/-- The arguments of a fragment are the `texts` of the `tokens` that look like one. -/
private theorem argumentsOf_texts (ts : Tokens) :
    argumentsOf ts.texts =
      (ts.tokens.filter fun token => (Bracket.leading? token.text).isSome).map Token.text := by
  rw [argumentsOf, Tokens.texts, List.filter_map]
  rfl

/-- A token of a text `isBracketed` just if its first character is an opening bracket that is not among the
    `comparisons`. All of these tokens are in `argumentsOf` the texts, and there are no others just if none of
    the literal tokens starts with a less-than sign. -/
theorem argumentsOf_eq_bracketed_iff (rule : SignRule) (t : Text) :
    (∀ pre token post, (tokenize rule t).tokens = pre ++ token :: post →
      (token.isBracketed = true ↔
        (Bracket.leading? token.text).isSome = true ∧
          (pre.map Token.text).flatten.length ∉ comparisons rule t)) ∧
    (((tokenize rule t).tokens.filter Token.isBracketed).map Token.text).Sublist
      (argumentsOf (tokenize rule t).texts) ∧
    (argumentsOf (tokenize rule t).texts =
        ((tokenize rule t).tokens.filter Token.isBracketed).map Token.text ↔
      ∀ u, .literal u ∈ (tokenize rule t).tokens → u.head? ≠ some '<') := by
  have hsub := bracketed_sublist rule t
  refine ⟨fun pre token post h => isBracketed_iff h, ?_, ?_, ?_⟩
  · rw [argumentsOf_texts]
    exact hsub.map _
  · intro hall u hmem hhead
    rw [argumentsOf_texts] at hall
    -- no token looks like an argument without being one, as there are no more of the former
    have hlength := congrArg List.length hall
    rw [List.length_map, List.length_map] at hlength
    have heq := hsub.eq_of_length hlength.symm
    -- a literal token that starts with the sign looks like an argument
    have hlooking : .literal u ∈
        (tokenize rule t).tokens.filter fun token => (Bracket.leading? token.text).isSome := by
      refine List.mem_filter.2 ⟨hmem, ?_⟩
      simp [Token.text, leading?_of_head? hhead, Bracket.ofOpener?]
    rw [← heq] at hlooking
    exact absurd (List.mem_filter.1 hlooking).2 (by simp [Token.isBracketed])
  · intro hliteral
    rw [argumentsOf_texts]
    refine congrArg (List.map Token.text) (List.filter_congr fun token hmem => ?_)
    cases token with
    -- without such a token the two ways to tell arguments agree
    | literal u =>
      rw [Bool.eq_iff_iff]
      constructor
      · exact fun hleading => absurd (head?_of_literal hmem hleading) (hliteral u hmem)
      · exact fun hb => absurd hb (by simp [Token.isBracketed])
    | bracketed u => exact leading?_of_isBracketed hmem rfl

/-- A less-than sign directly behind an argument is taken for an argument itself. -/
theorem argumentsOf_close_sign :
    argumentsOf (tokenize SignRule.none "(6)< (3)".toList).texts ≠
      ((tokenize SignRule.none "(6)< (3)".toList).tokens.filter Token.isBracketed).map Token.text := by
  decide

end Fragment

end BlockScript
