import BlockScript.Block.Render
import BlockScript.Proofs.Token.Structure
import BlockScript.Vocabulary.SignRule

/-!
# The text of an argument

An argument is read again without its brackets, as a text of its own. A character there has other
neighbours than in the whole text: its own brackets are gone, and all that is around them. This makes no
difference as long as no block has a sign in its own text. A sign next to an opening bracket, or to what
closes one, is no comparison, just as a sign at the end of a text. So the same signs are comparisons, and
what is open in the inner text is what is open in the whole one, but for the bracket around.

## Key results

- `Cuts.hasBracketed_iff`: the tokens in brackets are the groups of depth one
- `isComparison_enclosed`: the brackets around a text stand for its ends
- `inner_tokens`: the inner text of an argument has the comparisons of the argument, and its tokens in
  brackets are the groups of depth two there
-/

namespace BlockScript

/-! ## Groups -/

/-- How many brackets are open in front of a position. -/
def depthAt (gs : List Glyph) (k : Nat) : Nat := (openAfter [] (gs.take k)).length

/-- Whether a bracket of the given depth opens with the glyph at `i` and closes with the one before `j`:
    it is open between the two, and not open at the ends. -/
structure IsGroup (depth : Nat) (gs : List Glyph) (i j : Nat) : Prop where
  filled : i + 1 < j
  before : depthAt gs i + 1 = depth
  inside : ∀ k, i < k → k < j → depth ≤ depthAt gs k
  after : depthAt gs j + 1 = depth

/-- Whether a text has a token in brackets from `i` up to `j`. -/
def Tokens.HasBracketed (ts : Tokens) (i j : Nat) : Prop :=
  ∃ pre u post, ts.tokens = pre ++ .bracketed u :: post ∧
    i = (pre.map Token.text).flatten.length ∧ j = i + u.length

/-- What comes later has no effect on the depth. -/
private theorem depthAt_append_left {gs hs : List Glyph} {k : Nat} (hk : k ≤ gs.length) :
    depthAt (gs ++ hs) k = depthAt gs k := by
  rw [depthAt, List.take_append_of_le_length hk, depthAt]

/-- Behind glyphs that leave nothing open, depths are counted anew. -/
private theorem depthAt_append_right {gs hs : List Glyph} (hopen : openAfter [] gs = []) (k : Nat) :
    depthAt (gs ++ hs) (gs.length + k) = depthAt hs k := by
  rw [depthAt, List.take_append, List.take_of_length_le (Nat.le_add_right _ _),
    Nat.add_sub_cancel_left, openAfter_append, hopen, depthAt]

/-- Where no bracket opens, nothing has a depth. -/
private theorem depthAt_of_opens_not {gs : List Glyph} (h : ∀ g ∈ gs, ∀ b, g.role ≠ .opens b) (k : Nat) :
    depthAt gs k = 0 := by
  rw [depthAt, openAfter_of_opens_not fun g hg => h g (List.mem_of_mem_take hg), List.length_nil]

/-- A run that closes at its end is a group by itself. -/
private theorem IsClosed.isGroup {run : List Glyph} (h : IsClosed run) : IsGroup 1 run 0 run.length := by
  obtain ⟨hlength, hclosed, hopen⟩ := isClosed_iff.1 h
  refine ⟨by omega, rfl, fun k hk hk' => List.length_pos_iff.2 (hopen k hk hk'), ?_⟩
  rw [depthAt, List.take_length, hclosed, List.length_nil]

/-- Groups go along with the glyphs, if everything lies deeper by the same number of brackets. -/
private theorem isGroup_shift {gs hs : List Glyph} {start more depth i j : Nat}
    (h : ∀ k ≤ j, depthAt hs (start + k) = depthAt gs k + more) :
    IsGroup (depth + more) hs (start + i) (start + j) ↔ IsGroup depth gs i j := by
  constructor
  · rintro ⟨hfilled, hbefore, hinside, hafter⟩
    rw [h i (by omega)] at hbefore
    rw [h j (Nat.le_refl j)] at hafter
    refine ⟨by omega, by omega, fun k hi hj => ?_, by omega⟩
    have hk := hinside (start + k) (by omega) (by omega)
    rw [h k (Nat.le_of_lt hj)] at hk
    omega
  · rintro ⟨hfilled, hbefore, hinside, hafter⟩
    refine ⟨by omega, by rw [h i (by omega)]; omega, fun k hi hj => ?_, by rw [h j (Nat.le_refl j)]; omega⟩
    -- every place in the shifted range is one of the other, moved
    obtain ⟨k, rfl⟩ := Nat.exists_eq_add_of_le (Nat.le_of_lt (Nat.lt_of_le_of_lt (Nat.le_add_right _ _) hi))
    have hk := hinside k (by omega) (by omega)
    rw [h k (by omega)]
    omega

/-- A group does not reach beyond the glyphs. -/
private theorem IsGroup.le_length {gs : List Glyph} {depth i j : Nat} (h : IsGroup depth gs i j) :
    j ≤ gs.length := by
  by_contra hlong
  have hend : ∀ k, gs.length ≤ k → depthAt gs k = (openAfter [] gs).length := fun k hk => by
    rw [depthAt, List.take_of_length_le hk]
  have hinside := h.inside (j - 1) (by have := h.filled; omega) (by have := h.filled; omega)
  have hafter := h.after
  rw [hend _ (by omega)] at hinside hafter
  omega

/-! ## Tokens in brackets are groups -/

/-- A group lies behind glyphs that leave nothing open, if it does not start among them. -/
private theorem IsGroup.of_append {gs hs : List Glyph} {i j : Nat} (hopen : openAfter [] gs = [])
    (h : IsGroup 1 (gs ++ hs) i j) (hi : gs.length ≤ i) :
    ∃ i' j', i = gs.length + i' ∧ j = gs.length + j' ∧ IsGroup 1 hs i' j' := by
  obtain ⟨i', rfl⟩ := Nat.exists_eq_add_of_le hi
  obtain ⟨j', rfl⟩ := Nat.exists_eq_add_of_le (show gs.length ≤ j by have := h.filled; omega)
  have hshift : ∀ k ≤ j', depthAt (gs ++ hs) (gs.length + k) = depthAt hs k + 0 :=
    fun k _ => depthAt_append_right hopen k
  exact ⟨i', j', rfl, rfl, (isGroup_shift hshift).1 h⟩

private theorem Tokens.HasBracketed.cons {ts : Tokens} {i j : Nat} (token : Token)
    (h : ts.HasBracketed i j) :
    (ts.cons token).HasBracketed (token.text.length + i) (token.text.length + j) := by
  obtain ⟨pre, u, post, htokens, rfl, rfl⟩ := h
  refine ⟨token :: pre, u, post, congrArg (List.cons token) htokens, by simp, by omega⟩

namespace Cuts

variable {gs : List Glyph} {ts : Tokens}

/-- A token in brackets that is closed is a group. -/
private theorem isGroup_of_hasBracketed (h : Cuts gs ts) (hclosed : ts.unclosed = none) {i j : Nat}
    (hbracketed : ts.HasBracketed i j) : IsGroup 1 gs i j := by
  obtain ⟨pre, u, post, htokens, rfl, rfl⟩ := hbracketed
  obtain ⟨front, run, back, rfl, hfront, rfl, hopen, ⟨hrun, -⟩ | ⟨-, -, -, hunclosed⟩⟩ :=
    h.exists_place htokens
  · rw [← hfront, List.length_map, List.length_map]
    have hshift : ∀ k ≤ run.length, depthAt (front ++ (run ++ back)) (front.length + k) =
        depthAt run k + 0 := fun k hk => by
      rw [depthAt_append_right hopen, depthAt_append_left hk, Nat.add_zero]
    simpa using (isGroup_shift hshift).2 hrun.isGroup
  · exact absurd hclosed hunclosed

/-- A group is a token in brackets. -/
private theorem hasBracketed_of_isGroup (h : Cuts gs ts) (hclosed : ts.unclosed = none) {i j : Nat}
    (hgroup : IsGroup 1 gs i j) : ts.HasBracketed i j := by
  -- token by token: a group behind the first token is one of the tokens behind it, and else it is the first
  induction h generalizing i j with
  | nil =>
    have := hgroup.le_length
    have := hgroup.filled
    simp at *
    omega
  | @literal lit rest ts _ plain _ later ih =>
    by_cases hi : lit.length ≤ i
    · obtain ⟨i', j', rfl, rfl, hlater⟩ := hgroup.of_append (openAfter_of_opens_not plain) hi
      simpa [Token.text] using (ih hclosed hlater).cons (.literal (lit.map Glyph.char))
    · -- nothing opens in literal text
      have hnext := hgroup.inside (i + 1) (Nat.lt_succ_self i) hgroup.filled
      rw [depthAt_append_left (by omega), depthAt_of_opens_not plain] at hnext
      omega
  | @bracketed run rest ts closed later ih =>
    obtain ⟨-, hopen, -⟩ := isClosed_iff.1 closed
    obtain ⟨-, -, hinside, hend⟩ := closed.isGroup
    by_cases hi : run.length ≤ i
    · obtain ⟨i', j', rfl, rfl, hlater⟩ := hgroup.of_append hopen hi
      simpa [Token.text] using (ih hclosed hlater).cons (.bracketed (run.map Glyph.char))
    · -- nothing is open at the two ends of the run alone
      have hstart : i = 0 := by
        by_contra hpos
        have hbefore := hgroup.before
        rw [depthAt_append_left (by omega)] at hbefore
        have := hinside i (Nat.pos_of_ne_zero hpos) (by omega)
        omega
      have hle : j ≤ run.length := by
        by_contra hlong
        have := hgroup.inside run.length (by omega) (by omega)
        rw [depthAt_append_left (Nat.le_refl _)] at this
        omega
      have hge : run.length ≤ j := by
        by_contra hshort
        have hafter := hgroup.after
        rw [depthAt_append_left hle] at hafter
        have := hinside j (by have := hgroup.filled; omega) (by omega)
        omega
      exact ⟨[], run.map Glyph.char, ts.tokens, rfl, by rw [hstart]; rfl, by rw [List.length_map]; omega⟩
  | unclosed _ _ => cases hclosed

/-- If no bracket is left open, the tokens by `HasBracketed` are the groups of depth one by `IsGroup`. -/
theorem hasBracketed_iff (h : Cuts gs ts) (hclosed : ts.unclosed = none) {i j : Nat} :
    ts.HasBracketed i j ↔ IsGroup 1 gs i j :=
  ⟨h.isGroup_of_hasBracketed hclosed, h.hasBracketed_of_isGroup hclosed⟩

end Cuts

/-! ## Inside a bracket -/

/-- Inside a bracket that is not square all that happens is what happens without it. -/
private theorem Role.change_concat {b : Bracket} {nested : List Bracket} {r : Role} (hb : b ≠ .square)
    (hstill : r.change (nested ++ [b]) ≠ []) : r.change (nested ++ [b]) = r.change nested ++ [b] := by
  -- the bracket below is only looked at when nothing else is open
  cases nested with
  | nil =>
    cases r with
    | opens b' => simp [change, hb]
    | closes b' =>
      simp only [change, List.nil_append, List.head?_cons, Option.some.injEq, List.tail_cons] at hstill ⊢
      split at hstill
      · exact absurd rfl hstill
      · rename_i hother
        simp [hother]
    | plain => rfl
  | cons top outer =>
    cases r with
    | opens b' =>
      simp only [change, List.cons_append, List.head?_cons, Option.some.injEq]
      split <;> simp
    | closes b' =>
      simp only [change, List.cons_append, List.head?_cons, Option.some.injEq, List.tail_cons]
      split <;> simp
    | plain => rfl

/-- Inside a bracket that stays open, what is `openAfter` some glyphs is what is open without it, and the
    bracket. -/
theorem openAfter_concat {b : Bracket} {gs : List Glyph} (hb : b ≠ .square)
    (hstays : ∀ front, front <+: gs → openAfter [b] front ≠ []) :
    openAfter [b] gs = openAfter [] gs ++ [b] := by
  induction gs using List.reverseRecOn with
  | nil => rfl
  | append_singleton gs g ih =>
    have hgs := ih fun front hfront => hstays front (hfront.trans (List.prefix_append gs [g]))
    have hlast := hstays (gs ++ [g]) List.prefix_rfl
    rw [openAfter_append, hgs] at hlast
    rw [openAfter_append, openAfter_append, hgs]
    exact Role.change_concat hb hlast

/-- A run that `IsClosed` at its end is a bracket around glyphs that never close it. -/
theorem IsClosed.exists_enclosed {run : List Glyph} (h : IsClosed run) :
    ∃ first middle last b, run = first :: (middle ++ [last]) ∧ first.role = .opens b ∧
      last.role = .closes b ∧ openAfter [b] middle = [b] ∧
      ∀ front, front <+: middle → openAfter [b] front ≠ [] := by
  obtain ⟨front, last, rfl, hstays, hclosed⟩ := h
  obtain ⟨first, middle, b, rfl, hfirst⟩ := hstays.opens
  have hopened : first.role.change [] = [b] := by simp [hfirst, Role.change]
  -- in the middle the first bracket stays open
  have hinside : ∀ front, front <+: middle → openAfter [b] front ≠ [] := fun front hfront => by
    have hbegins : first :: front <+: first :: middle := List.cons_prefix_cons.2 ⟨rfl, hfront⟩
    simpa [hopened] using hstays.stays _ (List.cons_ne_nil first front) hbegins
  -- the last glyph takes off all that is open, so this is one bracket, which is the first one
  have hlast : last.role.change (openAfter [b] middle) = [] := by
    simpa [hopened] using hclosed
  have houter : (openAfter [b] middle).getLast? = some b := by
    simpa [hopened] using hstays.getLast?_openAfter hfirst
  obtain ⟨top, outer, hopen⟩ := List.exists_cons_of_ne_nil (hinside middle List.prefix_rfl)
  rw [hopen] at hlast houter
  obtain ⟨hrole, rfl⟩ : last.role = .closes top ∧ outer = [] := by
    cases hrole : last.role with
    | opens b' =>
      simp only [hrole, Role.change] at hlast
      split at hlast <;> simp at hlast
    | closes b' =>
      simp only [hrole, Role.change, List.head?_cons, Option.some.injEq, List.tail_cons] at hlast
      split at hlast
      · rename_i htop
        exact ⟨by rw [htop], hlast⟩
      · simp at hlast
    | plain => simp [hrole, Role.change] at hlast
  obtain rfl : top = b := by simpa using houter
  exact ⟨first, middle, last, top, rfl, hfirst, hrole, hopen, hinside⟩

/-! ## Comparison signs inside a bracket -/

/-- `opensNext` finds no opening bracket behind a closing one, so it need not look there. -/
private theorem opensNext_append_closer (t : Text) (b : Bracket) (after : Text) :
    opensNext (t ++ b.closer :: after) = opensNext t := by
  induction t with
  | nil => cases b <;> rfl
  | cons c t ih =>
    by_cases hc : c = ' '
    · simpa [opensNext, hc] using ih
    · simp [opensNext, hc]

/-- Nor does `closesLast` look in front of an opening one. -/
private theorem closesLast_append_opener (t : Text) (b : Bracket) (before : Text) :
    closesLast (t ++ b.opener :: before) = closesLast t := by
  induction t with
  | nil => cases b <;> rfl
  | cons c t ih =>
    by_cases hc : c = ' '
    · simpa [closesLast, hc] using ih
    · simp [closesLast, hc]

/-- For `isComparison` the brackets around a text stand for its ends. -/
theorem isComparison_enclosed {verbal verbal' : Nat → Bool} (hverbal : ∀ n, verbal n = false)
    (hverbal' : ∀ n, verbal' n = false) (b b' : Bracket) (before s after rest : Text) (c : Char) :
    isComparison verbal (s ++ b.opener :: before) c (rest ++ b'.closer :: after) =
      isComparison verbal' s c rest := by
  simp only [isComparison, opensNext_append_closer, closesLast_append_opener, hverbal, hverbal',
    Bool.or_false]
  cases s with
  | nil => simp [closesLast]
  | cons d s => simp

section Enclosed

variable {verbal verbal' : Nat → Bool} (hverbal : ∀ n, verbal n = false)
  (hverbal' : ∀ n, verbal' n = false) (b b' : Bracket) (before after : Text)

include hverbal hverbal'

/-- So `glyphsFrom` gives a text the same glyphs between brackets as by itself. -/
theorem glyphsFrom_enclosed (s t : Text) :
    glyphsFrom verbal (s ++ b.opener :: before) (t ++ b'.closer :: after) =
      glyphsFrom verbal' s t ++ glyphsFrom verbal (t.reverse ++ (s ++ b.opener :: before)) (b'.closer :: after) := by
  induction t generalizing s with
  | nil => rfl
  | cons c t ih =>
    rw [List.cons_append, glyphsFrom, isComparison_enclosed hverbal hverbal', ← List.cons_append, ih]
    simp [glyphsFrom]

/-- Between brackets the glyphs are those of the inner text. -/
private theorem exists_glyphsFrom_enclosed (s t : Text) :
    ∃ gs, glyphsFrom verbal (s ++ b.opener :: before) (t ++ b'.closer :: after) =
      glyphsFrom verbal' s t ++ gs :=
  ⟨_, glyphsFrom_enclosed hverbal hverbal' b b' before after s t⟩

/-- So the comparisons there are those of the inner text, one bracket further on. -/
private theorem mem_comparisonsFrom_enclosed (s t : Text) {n : Nat} (hn : n < s.length + t.length) :
    before.length + 1 + n ∈ comparisonsFrom verbal (s ++ b.opener :: before) (t ++ b'.closer :: after) ↔
      n ∈ comparisonsFrom verbal' s t := by
  induction t generalizing s with
  | nil =>
    -- nothing is left of the inner text, and signs behind it have greater numbers
    refine iff_of_false (fun hmem => ?_) (by simp [comparisonsFrom])
    have := le_of_mem_comparisonsFrom hmem
    simp at this hn
    omega
  | cons c t ih =>
    -- a character is a comparison by what is around it, and brackets further out are not looked at
    have hlater := ih (c :: s) (by simp at hn ⊢; omega)
    have hlength : (s ++ b.opener :: before).length = before.length + 1 + s.length := by
      simp
      omega
    rw [List.cons_append, comparisonsFrom, comparisonsFrom,
      isComparison_enclosed hverbal hverbal', ← List.cons_append, hlength]
    split
    · rw [List.mem_cons, List.mem_cons, hlater, Nat.add_left_cancel_iff]
    · exact hlater

end Enclosed

/-- The signs behind some text, as they are counted from its start. -/
private theorem mem_comparisonsFrom_append {verbal : Nat → Bool} {before s t : Text} {n : Nat}
    (hn : before.length + s.length ≤ n) :
    n ∈ comparisonsFrom verbal before (s ++ t) ↔
      n ∈ comparisonsFrom verbal (s.reverse ++ before) t := by
  induction s generalizing before with
  | nil => rfl
  | cons c s ih =>
    rw [List.length_cons] at hn
    -- a sign at the front has a smaller number than `n`
    have hlater : n ∈ comparisonsFrom verbal (c :: before) (s ++ t) ↔
        n ∈ comparisonsFrom verbal (s.reverse ++ c :: before) t :=
      ih (by rw [List.length_cons]; omega)
    rw [List.reverse_cons, List.append_assoc, List.singleton_append, ← hlater, List.cons_append,
      comparisonsFrom]
    split
    · rw [List.mem_cons]
      exact or_iff_right (by omega)
    · rfl

/-- The glyphs of a text that follow some others are its glyphs behind their characters. -/
private theorem eq_glyphsFrom_of_append {verbal : Nat → Bool} {before t : Text} {gs hs : List Glyph}
    (h : glyphsFrom verbal before t = gs ++ hs) :
    hs = glyphsFrom verbal ((gs.map Glyph.char).reverse ++ before) (hs.map Glyph.char) := by
  induction gs generalizing before t with
  | nil =>
    have hchars := map_char_glyphsFrom verbal before t
    rw [h] at hchars
    rw [List.nil_append] at h hchars
    rw [hchars]
    exact h.symm
  | cons g gs ih =>
    -- each glyph is that of one character, so the texts are taken apart together
    cases t with
    | nil => simp [glyphsFrom] at h
    | cons c t =>
      rw [glyphsFrom, List.cons_append, List.cons.injEq] at h
      obtain ⟨rfl, h⟩ := h
      simpa using ih h

/-- Without `signPhrases` the `signRule` takes no sign for a part of a block. -/
theorem Vocabulary.signRule_of_signPhrases_nil {v : Vocabulary} (hv : v.signPhrases = []) (t : Text)
    (n : Nat) : (v.signRule t).holds n = false := by
  rw [signRule_eq_takesSigns, takesSigns, startsWithPhrase, hv, List.any_nil]

/-! ## The inner text -/

/-- An argument in brackets that are not square and are closed, in its place. -/
private theorem exists_inner {rule : SignRule} {t p : Text} {pre post : List Token}
    (h : (tokenize rule t).tokens = pre ++ .bracketed p :: post)
    (hterminated : post ≠ [] ∨ (tokenize rule t).unclosed = none) (hopener : p.head? ≠ some '[') :
    ∃ front first middle last back b, glyphs rule t = front ++ (first :: middle ++ last :: back) ∧
      front.map Glyph.char = (pre.map Token.text).flatten ∧
      p = Bracket.enclose b (middle.map Glyph.char) ∧ b ≠ .square ∧
      first = ⟨b.opener, .opens b⟩ ∧ last.char = b.closer ∧ openAfter [] front = [] ∧
      openAfter [b] middle = [b] ∧ ∀ inside, inside <+: middle → openAfter [b] inside ≠ [] := by
  obtain ⟨front, run, back, hglyphs, hfront, rfl, hopen, hplace⟩ := (cuts_tokenize rule t).exists_place h
  -- a bracket that stays open is the last token
  have hrun : IsClosed run := by
    rcases hplace with ⟨hrun, -⟩ | ⟨-, -, hpost, hunclosed⟩
    · exact hrun
    · exact absurd hterminated (not_or.2 ⟨not_not.2 hpost, hunclosed⟩)
  obtain ⟨⟨c, role⟩, middle, last, b, rfl, hfirst, hlast, hmiddle, hstays⟩ := hrun.exists_enclosed
  obtain rfl : role = .opens b := hfirst
  -- the roles of the brackets tell their characters
  obtain rfl : c = b.opener := by
    have hmem : (⟨c, .opens b⟩ : Glyph) ∈ glyphs rule t := by simp [hglyphs]
    exact char_of_opens hmem rfl
  have hlast' : last.char = b.closer := by
    have hmem : last ∈ glyphs rule t := by simp [hglyphs]
    exact char_of_closes hmem hlast
  refine ⟨front, _, middle, last, back, b, by simp [hglyphs], hfront, by simp [Bracket.enclose, hlast'],
    ?_, rfl, hlast', hopen, hmiddle, hstays⟩
  rintro rfl
  exact hopener rfl

/-- The inner text has the same `glyphs` by itself as in its place. -/
private theorem glyphs_inner {rule : SignRule} (hsilent : ∀ t n, (rule t).holds n = false) {t : Text}
    {front middle back : List Glyph} {first last : Glyph} {b b' : Bracket}
    (h : glyphs rule t = front ++ (first :: middle ++ last :: back)) (hfirst : first.char = b.opener)
    (hlast : last.char = b'.closer) : glyphs rule (middle.map Glyph.char) = middle := by
  have hsplit : glyphsFrom (rule t).holds [] t = (front ++ [first]) ++ (middle ++ last :: back) := by
    rw [← glyphs, h]
    simp
  have hplaced : middle ++ last :: back =
      glyphsFrom (rule t).holds (b.opener :: (front.map Glyph.char).reverse)
        (middle.map Glyph.char ++ b'.closer :: back.map Glyph.char) := by
    simpa [hfirst, hlast] using eq_glyphsFrom_of_append hsplit
  obtain ⟨gs, hgs⟩ := exists_glyphsFrom_enclosed (hsilent t) (hsilent (middle.map Glyph.char)) b b'
    (front.map Glyph.char).reverse (back.map Glyph.char) [] (middle.map Glyph.char)
  rw [List.nil_append, ← hplaced] at hgs
  -- both are the glyphs of the same characters, so they can be compared by length
  have hlength : middle.length = (glyphs rule (middle.map Glyph.char)).length := by
    rw [← List.length_map Glyph.char, ← List.length_map Glyph.char, glyphs, map_char_glyphsFrom]
  exact (List.append_inj hgs hlength).1.symm

/-- Under a rule that knows no block with signs in its own text, take an argument in brackets that are not
    square and are closed. Its inner text has the same `comparisons` by itself as in its place. To `tokenize`
    it leaves no bracket open, and it `HasBracketed` just the tokens that are the groups of depth two in that
    place, by `IsGroup`. -/
theorem inner_tokens {rule : SignRule} {t p : Text} {pre post : List Token}
    (hrule : rule = SignRule.none ∨ ∃ v : Vocabulary, v.signPhrases = [] ∧ rule = v.signRule)
    (h : (tokenize rule t).tokens = pre ++ .bracketed p :: post)
    (hterminated : post ≠ [] ∨ (tokenize rule t).unclosed = none) (hopener : p.head? ≠ some '[') :
    ∃ b inner, p = Bracket.enclose b inner ∧
      (∀ i < inner.length, i ∈ comparisons rule inner ↔
        (pre.map Token.text).flatten.length + 1 + i ∈ comparisons rule t) ∧
      (tokenize rule inner).unclosed = none ∧
      ∀ i j, (tokenize rule inner).HasBracketed i j ↔
        j ≤ inner.length ∧ IsGroup 2 (glyphs rule t) ((pre.map Token.text).flatten.length + 1 + i)
          ((pre.map Token.text).flatten.length + 1 + j) := by
  -- without words that take signs, brackets alone tell comparisons
  have hsilent : ∀ t n, (rule t).holds n = false := by
    rcases hrule with rfl | ⟨v, hv, rfl⟩
    · exact fun _ _ => rfl
    · exact fun t n => v.signRule_of_signPhrases_nil hv t n
  obtain ⟨front, first, middle, last, back, b, hglyphs, hfront, hp, hb, rfl, hlast, hopen, hmiddle, hstays⟩ :=
    exists_inner h hterminated hopener
  have hinner := glyphs_inner hsilent hglyphs rfl hlast
  have hcuts := cuts_tokenize rule (middle.map Glyph.char)
  rw [hinner] at hcuts
  -- nothing is open at the end of the inner text, as the bracket around it still is
  have hend := openAfter_concat hb hstays
  rw [hmiddle] at hend
  have hclosed := hcuts.unclosed_eq_none_iff.2 (by simpa using hend)
  have hstart : (pre.map Token.text).flatten.length = front.length := by
    rw [← hfront, List.length_map]
  rw [hstart]
  refine ⟨b, middle.map Glyph.char, hp, fun i hi => ?_, hclosed, fun i j => ?_⟩
  · -- the text is cut where the inner one begins
    have htext : t = (front.map Glyph.char ++ [b.opener]) ++
        (middle.map Glyph.char ++ b.closer :: back.map Glyph.char) := by
      have hchars := map_char_glyphsFrom (rule t).holds [] t
      rw [← glyphs, hglyphs] at hchars
      simpa [hlast] using hchars.symm
    have hplaced := mem_comparisonsFrom_enclosed (hsilent t) (hsilent (middle.map Glyph.char)) b b
      (front.map Glyph.char).reverse (back.map Glyph.char) [] (middle.map Glyph.char) (n := i)
      (by simpa using hi)
    have hbehind : front.length + 1 + i ∈ comparisonsFrom (rule t).holds []
          ((front.map Glyph.char ++ [b.opener]) ++
            (middle.map Glyph.char ++ b.closer :: back.map Glyph.char)) ↔
        front.length + 1 + i ∈ comparisonsFrom (rule t).holds (b.opener :: (front.map Glyph.char).reverse)
          (middle.map Glyph.char ++ b.closer :: back.map Glyph.char) := by
      rw [mem_comparisonsFrom_append (by simp)]
      simp
    rw [← htext] at hbehind
    rw [List.length_reverse, List.length_map] at hplaced
    exact (hbehind.trans hplaced).symm
  · -- inside the bracket everything is one level deeper
    have hdeeper : ∀ k ≤ middle.length, depthAt (glyphs rule t) (front.length + 1 + k) =
        depthAt middle k + 1 := fun k hk => by
      have hinside := openAfter_concat hb fun inside hbegins =>
        hstays inside (hbegins.trans (List.take_prefix k middle))
      have hopened : Role.change [] (.opens b) = [b] := rfl
      rw [hglyphs, Nat.add_assoc, depthAt_append_right hopen, Nat.add_comm 1 k, depthAt, List.cons_append,
        List.take_succ_cons, openAfter_cons, hopened, List.take_append_of_le_length hk, hinside,
        List.length_append, List.length_singleton, depthAt]
    rw [hcuts.hasBracketed_iff hclosed, List.length_map]
    constructor
    · intro hgroup
      have hj := hgroup.le_length
      exact ⟨hj, (isGroup_shift fun k hk => hdeeper k (hk.trans hj)).2 hgroup⟩
    · rintro ⟨hj, hgroup⟩
      exact (isGroup_shift fun k hk => hdeeper k (hk.trans hj)).1 hgroup

/-- The condition of a block: in its inner text a sign is a comparison between two arguments. -/
theorem inner_tokens_condition :
    ∃ b inner, "<(6) < (3)>".toList = Bracket.enclose b inner ∧
      (∀ i < inner.length, i ∈ comparisons SignRule.none inner ↔
        4 + i ∈ comparisons SignRule.none "if <(6) < (3)> then".toList) ∧
      (tokenize SignRule.none inner).unclosed = none ∧
      ∀ i j, (tokenize SignRule.none inner).HasBracketed i j ↔
        j ≤ inner.length ∧ IsGroup 2 (glyphs SignRule.none "if <(6) < (3)> then".toList) (4 + i) (4 + j) := by
  have htokens : (tokenize SignRule.none "if <(6) < (3)> then".toList).tokens =
      [.literal "if ".toList] ++ .bracketed "<(6) < (3)>".toList :: [.literal " then".toList] := by
    decide
  exact inner_tokens (.inl rfl) htokens (.inl (List.cons_ne_nil _ _)) (by decide)

end BlockScript
