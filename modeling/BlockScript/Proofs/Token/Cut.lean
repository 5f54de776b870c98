import Mathlib.Data.List.Induction
import BlockScript.Token

/-!
# How brackets nest, and how a text is cut by them

Which brackets are open after some characters can be said without a word on tokens: each opening bracket
is put on a stack, and the one that matches the innermost bracket takes it off again. A text is cut where
nothing is open. So its tokens are runs of glyphs in which no bracket opens, and runs that close exactly
at their end; only the last one can be left open.

## Key results

- `cuts_tokenize`: the tokens of a text are cut by these rules
- `Cuts.exists_place`: what is known of a token in brackets in its place
- `Cuts.unclosed_eq_none_iff`: when a bracket is left open
-/

namespace BlockScript

/-! ## Open brackets -/

/-- The open brackets after a character of the given role, innermost first, when `nested` are open before
    it. In square brackets nothing opens, and a bracket closes nothing but the one that it matches, if that
    is the innermost. -/
def Role.change (nested : List Bracket) : Role → List Bracket
  | .opens b => if nested.head? = some .square then nested else b :: nested
  | .closes b => if nested.head? = some b then nested.tail else nested
  | .plain => nested

/-- The open brackets after some glyphs, innermost first, when `nested` are open before them. -/
def openAfter (nested : List Bracket) (gs : List Glyph) : List Bracket :=
  gs.foldl (fun nested g => g.role.change nested) nested

@[simp] theorem openAfter_nil (nested : List Bracket) : openAfter nested [] = nested := rfl

@[simp] theorem openAfter_cons (nested : List Bracket) (g : Glyph) (gs : List Glyph) :
    openAfter nested (g :: gs) = openAfter (g.role.change nested) gs := rfl

@[simp] theorem openAfter_append (nested : List Bracket) (gs hs : List Glyph) :
    openAfter nested (gs ++ hs) = openAfter (openAfter nested gs) hs := List.foldl_append

/-- Inside brackets `nest` is what a character does to the brackets of a token. -/
theorem Role.nest_eq_change (top : Bracket) (outer : List Bracket) (r : Role) :
    r.nest top outer = r.change (top :: outer) := by
  cases r with
  | opens b => simp only [nest, change, List.head?_cons, Option.some.injEq]
  | closes b =>
    simp only [nest, change, List.head?_cons, Option.some.injEq, List.tail_cons, eq_comm (a := b)]
  | plain => rfl

/-- The outermost bracket stays as long as anything is open. -/
private theorem Role.getLast?_change {nested : List Bracket} {r : Role} (h : nested ≠ [])
    (hstill : r.change nested ≠ []) : (r.change nested).getLast? = nested.getLast? := by
  obtain ⟨top, outer, rfl⟩ := List.exists_cons_of_ne_nil h
  cases r with
  | opens b =>
    simp only [change]
    split
    · rfl
    · rw [List.getLast?_cons_cons]
  | closes b =>
    -- if the only bracket is closed nothing is open any more
    simp only [change] at hstill ⊢
    split
    · rename_i hcloses
      rw [if_pos hcloses, List.tail_cons] at hstill
      obtain ⟨next, outer, rfl⟩ := List.exists_cons_of_ne_nil hstill
      rw [List.tail_cons, List.getLast?_cons_cons]
    · rfl
  | plain => rfl

/-- Where nothing is open, nothing can be closed, so nothing is `openAfter` glyphs that open nothing. -/
theorem openAfter_of_opens_not {gs : List Glyph} (h : ∀ g ∈ gs, ∀ b, g.role ≠ .opens b) :
    openAfter [] gs = [] := by
  induction gs with
  | nil => rfl
  | cons g gs ih =>
    obtain ⟨hg, hgs⟩ := List.forall_mem_cons.1 h
    -- what closes has nothing to match
    have hchange : g.role.change [] = [] := by
      cases hrole : g.role with
      | opens b => exact absurd hrole (hg b)
      | closes b => rfl
      | plain => rfl
    rw [openAfter_cons, hchange, ih hgs]

/-! ## Runs of glyphs -/

/-- Whether a bracket opens with the first of some glyphs, and something is open after each of them. -/
structure StaysOpen (gs : List Glyph) : Prop where
  opens : ∃ g rest b, gs = g :: rest ∧ g.role = .opens b
  stays : ∀ front, front ≠ [] → front <+: gs → openAfter [] front ≠ []

/-- Whether a bracket opens with the first of some glyphs, and nothing is open for the first time after the
    last of them. -/
def IsClosed (gs : List Glyph) : Prop :=
  ∃ front g, gs = front ++ [g] ∧ StaysOpen front ∧ openAfter [] gs = []

/-- For `StaysOpen` there is at least the glyph with which the bracket opens. -/
theorem StaysOpen.ne_nil {gs : List Glyph} (h : StaysOpen gs) : gs ≠ [] := by
  obtain ⟨g, rest, b, rfl, -⟩ := h.opens
  exact List.cons_ne_nil g rest

/-- After the bracket that opens it is open. -/
private theorem staysOpen_singleton {g : Glyph} {b : Bracket} (h : g.role = .opens b) : StaysOpen [g] := by
  refine ⟨⟨g, [], b, rfl, h⟩, fun front hfront hbegins => ?_⟩
  obtain rfl : front = [g] :=
    (List.prefix_cons_iff.1 hbegins).elim (fun hnil => absurd hnil hfront)
      fun ⟨rest, hrest, hnil⟩ => by rw [hrest, List.prefix_nil.1 hnil]
  simp [h, Role.change]

/-- One more glyph, and something is open still. -/
theorem StaysOpen.concat {gs : List Glyph} {g : Glyph} (h : StaysOpen gs)
    (hg : openAfter [] (gs ++ [g]) ≠ []) : StaysOpen (gs ++ [g]) := by
  obtain ⟨first, rest, b, rfl, hfirst⟩ := h.opens
  refine ⟨⟨first, rest ++ [g], b, rfl, hfirst⟩, fun front hfront hbegins => ?_⟩
  rcases List.prefix_concat_iff.1 hbegins with rfl | hbegins
  · exact hg
  · exact h.stays front hfront hbegins

/-- One glyph less, and it was open before. -/
theorem StaysOpen.of_concat {gs : List Glyph} {g : Glyph} (h : StaysOpen (gs ++ [g])) (hgs : gs ≠ []) :
    StaysOpen gs := by
  obtain ⟨first, rest, b, hfirst, hrole⟩ := h.opens
  obtain ⟨first', rest', rfl⟩ := List.exists_cons_of_ne_nil hgs
  obtain ⟨rfl, -⟩ := List.cons.inj hfirst
  exact ⟨⟨first', rest', b, rfl, hrole⟩, fun front hfront hbegins =>
    h.stays front hfront (hbegins.trans (List.prefix_append _ [g]))⟩

/-- The bracket that opens with the first glyph is the outermost one that is open still, as it `StaysOpen`. -/
theorem StaysOpen.getLast?_openAfter {g : Glyph} {rest : List Glyph} {b : Bracket}
    (h : StaysOpen (g :: rest)) (hg : g.role = .opens b) :
    (openAfter [] (g :: rest)).getLast? = some b := by
  induction rest using List.reverseRecOn with
  | nil => simp [hg, Role.change]
  | append_singleton rest g' ih =>
    rw [← List.cons_append] at h ⊢
    have hrest := h.of_concat (List.cons_ne_nil g rest)
    -- before and after the last glyph something is open, so the outermost bracket is the same
    have hopen := hrest.stays _ hrest.ne_nil List.prefix_rfl
    have hstill := h.stays _ h.ne_nil List.prefix_rfl
    rw [openAfter_append] at hstill ⊢
    rw [← ih hrest]
    exact Role.getLast?_change hopen hstill

/-- What `IsClosed` is told by what is open at each place. -/
theorem isClosed_iff {gs : List Glyph} :
    IsClosed gs ↔ 1 < gs.length ∧ openAfter [] gs = [] ∧
      ∀ k, 0 < k → k < gs.length → openAfter [] (gs.take k) ≠ [] := by
  constructor
  · rintro ⟨front, g, rfl, hstays, hclosed⟩
    have hfilled := List.length_pos_iff.2 hstays.ne_nil
    rw [List.length_append, List.length_singleton]
    refine ⟨by omega, hclosed, fun k hk hk' => ?_⟩
    rw [List.take_append_of_le_length (by omega)]
    refine hstays.stays _ (fun hnil => ?_) (List.take_prefix k front)
    rw [List.take_eq_nil_iff] at hnil
    exact hnil.elim (by omega) hstays.ne_nil
  · -- the last glyph is the one that closes, and nothing is closed before it
    rintro ⟨hlength, hclosed, hopen⟩
    obtain ⟨front, g, rfl⟩ : ∃ front g, gs = front ++ [g] :=
      ⟨gs.dropLast, gs.getLast (List.ne_nil_of_length_pos (Nat.lt_of_succ_lt hlength)),
        (List.dropLast_concat_getLast _).symm⟩
    rw [List.length_append, List.length_singleton] at hlength hopen
    have hstays : ∀ front', front' ≠ [] → front' <+: front → openAfter [] front' ≠ [] := by
      intro front' hfilled hbegins
      have hopen := hopen front'.length (List.length_pos_iff.2 hfilled)
        (Nat.lt_succ_of_le hbegins.length_le)
      rwa [List.take_append_of_le_length hbegins.length_le, ← List.prefix_iff_eq_take.1 hbegins] at hopen
    refine ⟨front, g, rfl, ⟨?_, hstays⟩, hclosed⟩
    obtain ⟨first, rest, rfl⟩ := List.exists_cons_of_ne_nil
      (List.ne_nil_of_length_pos (Nat.lt_of_succ_lt_succ hlength))
    -- a first glyph that opens nothing leaves nothing open
    cases hrole : first.role with
    | opens b => exact ⟨first, rest, b, rfl, hrole⟩
    | closes b =>
      exact absurd (by simp [hrole, Role.change])
        (hstays [first] (List.cons_ne_nil _ _) (List.prefix_append [first] rest))
    | plain =>
      exact absurd (by simp [hrole, Role.change])
        (hstays [first] (List.cons_ne_nil _ _) (List.prefix_append [first] rest))

/-! ## Cutting -/

/-- How glyphs are cut into tokens: into runs in which no bracket opens, no two of them in a row, and runs
    that close exactly at their end. The last run may be one that is left open. -/
inductive Cuts : List Glyph → Tokens → Prop
  | nil : Cuts [] ⟨[], none⟩
  | literal {gs rest : List Glyph} {ts : Tokens} (filled : gs ≠ [])
      (plain : ∀ g ∈ gs, ∀ b, g.role ≠ .opens b) (alone : ∀ u, ts.tokens.head? ≠ some (.literal u))
      (later : Cuts rest ts) : Cuts (gs ++ rest) (ts.cons (.literal (gs.map Glyph.char)))
  | bracketed {gs rest : List Glyph} {ts : Tokens} (closed : IsClosed gs) (later : Cuts rest ts) :
      Cuts (gs ++ rest) (ts.cons (.bracketed (gs.map Glyph.char)))
  | unclosed {g : Glyph} {rest : List Glyph} {b : Bracket} (first : g.role = .opens b)
      (stays : StaysOpen (g :: rest)) :
      Cuts (g :: rest) ⟨[.bracketed ((g :: rest).map Glyph.char)], some b⟩

/-- What has been read of the present token inside the given open brackets. -/
inductive Reads : List Bracket → List Glyph → Prop
  | outside {gs : List Glyph} (plain : ∀ g ∈ gs, ∀ b, g.role ≠ .opens b) : Reads [] gs
  | inside {top : Bracket} {outer : List Bracket} {gs : List Glyph} (stays : StaysOpen gs)
      (nested : openAfter [] gs = top :: outer) : Reads (top :: outer) gs

/-- Inside brackets the present token is one in brackets. -/
private theorem exists_cut_eq_bracketed (top : Bracket) (outer : List Bracket) (read : Text)
    (gs : List Glyph) : ∃ u ts, (cut (top :: outer) read gs).tokens = .bracketed u :: ts := by
  induction gs generalizing top outer read with
  | nil => exact ⟨_, _, rfl⟩
  | cons g gs ih =>
    rw [cut]
    split
    · exact ⟨_, _, rfl⟩
    · rename_i hnested
      obtain ⟨top', outer', hnested'⟩ := List.exists_cons_of_ne_nil hnested
      rw [hnested']
      exact ih top' outer' _

/-- Literal text that has been read is a run of its own, if there is any. -/
private theorem Cuts.consLiteral {gs rest : List Glyph} {ts : Tokens}
    (plain : ∀ g ∈ gs, ∀ b, g.role ≠ .opens b) (alone : ∀ u, ts.tokens.head? ≠ some (.literal u))
    (later : Cuts rest ts) : Cuts (gs ++ rest) (ts.consLiteral (gs.map Glyph.char).reverse) := by
  by_cases hfilled : gs = []
  · subst hfilled
    exact later
  · have hcons := Cuts.literal hfilled plain alone later
    simpa [Tokens.consLiteral, hfilled] using hcons

/-- Glyphs are cut as they should be, whatever `cut` has read of the first token. -/
private theorem cuts_cut {nested : List Bracket} {read : List Glyph} (gs : List Glyph)
    (h : Reads nested read) : Cuts (read ++ gs) (cut nested (read.map Glyph.char).reverse gs) := by
  -- the invariant is that the glyphs in read are either plain or a bracket that is still open
  induction gs generalizing nested read with
  | nil =>
    cases h with
    | outside plain =>
      rw [cut]
      exact Cuts.nil.consLiteral plain (by simp)
    -- at the end of the text the bracket is left open
    | inside stays hnested =>
      obtain ⟨g, rest, b, rfl, hg⟩ := stays.opens
      have hlast := stays.getLast?_openAfter hg
      rw [hnested] at hlast
      rw [cut, hlast, List.reverse_reverse, List.append_nil]
      exact .unclosed hg stays
  | cons g gs ih =>
    cases h with
    | outside plain =>
      rw [cut]
      split
      · -- a bracket opens behind literal text
        rename_i b hrole
        have hopened : Reads [b] [g] :=
          .inside (staysOpen_singleton hrole) (by simp [hrole, Role.change])
        obtain ⟨u, ts, htokens⟩ := exists_cut_eq_bracketed b [] [g.char] gs
        exact (ih hopened).consLiteral plain (by simp [htokens])
      · rename_i hrole
        have hgoes : Reads [] (read ++ [g]) := by
          refine .outside (List.forall_mem_append.2 ⟨plain, ?_⟩)
          simpa using hrole
        simpa using ih hgoes
    | inside stays hnested =>
      rename_i top outer
      have hstep : openAfter [] (read ++ [g]) = g.role.nest top outer := by
        rw [openAfter_append, hnested, Role.nest_eq_change]
        rfl
      rw [cut]
      split
      · -- the outermost bracket closes
        rename_i hclosed
        have hrun : IsClosed (read ++ [g]) := ⟨read, g, rfl, stays, by rw [hstep, hclosed]⟩
        have hnothing : Reads [] [] := .outside (by simp)
        simpa using Cuts.bracketed hrun (ih hnothing)
      · -- some bracket is still open
        rename_i hopen
        obtain ⟨top', outer', hnested'⟩ := List.exists_cons_of_ne_nil hopen
        have hstill : Reads (g.role.nest top outer) (read ++ [g]) := by
          rw [hnested'] at hstep ⊢
          exact .inside (stays.concat (by simp [hstep])) hstep
        simpa using ih hstill

/-- `tokenize` cuts the glyphs of a text as they should be. -/
theorem cuts_tokenize (rule : SignRule) (t : Text) : Cuts (glyphs rule t) (tokenize rule t) :=
  cuts_cut (glyphs rule t) (.outside (by simp) : Reads [] [])

/-! ## Tokens in their places -/

namespace Cuts

variable {gs : List Glyph} {ts : Tokens}

/-- No token that glyphs are `Cuts` into is empty. -/
theorem text_ne_nil (h : Cuts gs ts) : ∀ token ∈ ts.tokens, token.text ≠ [] := by
  induction h with
  | nil => simp
  | literal filled _ _ _ ih => exact List.forall_mem_cons.2 ⟨by simpa [Token.text] using filled, ih⟩
  | bracketed closed _ ih =>
    obtain ⟨front, g, rfl, -⟩ := closed
    exact List.forall_mem_cons.2 ⟨by simp [Token.text], ih⟩
  | unclosed _ _ => simp [Token.text]

/-- A bracket is left `unclosed` just if one is open after the last glyph. -/
theorem unclosed_eq_none_iff (h : Cuts gs ts) : ts.unclosed = none ↔ openAfter [] gs = [] := by
  induction h with
  | nil => simp
  -- literal text opens nothing, and a closed run leaves nothing open
  | literal _ plain _ _ ih =>
    rw [openAfter_append, openAfter_of_opens_not plain]
    exact ih
  | bracketed closed _ ih =>
    obtain ⟨-, -, -, -, hclosed⟩ := closed
    rw [openAfter_append, hclosed]
    exact ih
  | unclosed _ stays =>
    simpa using stays.stays _ (List.cons_ne_nil _ _) List.prefix_rfl

/-- A bracket that is left `unclosed` is the first glyph of the last token, which stays open to the end. -/
theorem exists_last_of_unclosed {b : Bracket} (h : Cuts gs ts) (hb : ts.unclosed = some b) :
    ∃ pre g u, ts.tokens = pre ++ [.bracketed (g.char :: u)] ∧ g ∈ gs ∧ g.role = .opens b := by
  induction h with
  | nil => cases hb
  | literal _ _ _ _ ih =>
    obtain ⟨pre, g, u, htokens, hg, hrole⟩ := ih hb
    exact ⟨_ :: pre, g, u, congrArg (List.cons _) htokens, List.mem_append_right _ hg, hrole⟩
  | bracketed _ _ ih =>
    obtain ⟨pre, g, u, htokens, hg, hrole⟩ := ih hb
    exact ⟨_ :: pre, g, u, congrArg (List.cons _) htokens, List.mem_append_right _ hg, hrole⟩
  | @unclosed g rest b' first _ =>
    obtain rfl : b' = b := Option.some.inj hb
    exact ⟨[], g, rest.map Glyph.char, rfl, List.mem_cons_self, first⟩

/-- A token in brackets in its place: nothing is open in front of it, and either it is a run of glyphs that
    closes exactly at its end, or it is the last token and stays open. -/
theorem exists_place {pre post : List Token} {u : Text} (h : Cuts gs ts)
    (htokens : ts.tokens = pre ++ .bracketed u :: post) :
    ∃ front run back, gs = front ++ (run ++ back) ∧
      front.map Glyph.char = (pre.map Token.text).flatten ∧ run.map Glyph.char = u ∧
      openAfter [] front = [] ∧
      (IsClosed run ∧ (post ≠ [] ∨ ts.unclosed = none) ∨
        StaysOpen run ∧ back = [] ∧ post = [] ∧ ts.unclosed ≠ none) := by
  induction h generalizing pre with
  | nil => simp at htokens
  | @literal lit rest ts filled plain _ later ih =>
    -- the token in brackets is a later one
    obtain ⟨pre', rfl, hlater⟩ : ∃ pre', pre = .literal (lit.map Glyph.char) :: pre' ∧
        ts.tokens = pre' ++ .bracketed u :: post := by
      rcases List.append_eq_cons_iff.1 htokens.symm with ⟨-, hcons⟩ | ⟨pre', hpre, hrest⟩
      · simp at hcons
      · exact ⟨pre', hpre, hrest⟩
    -- the literal text goes in front, and opens nothing
    obtain ⟨front, run, back, rfl, hfront, hrun, hopen, hplace⟩ := ih hlater
    refine ⟨lit ++ front, run, back, by simp, ?_, hrun, ?_, hplace⟩
    · simp [hfront, Token.text]
    · rw [openAfter_append, openAfter_of_opens_not plain, hopen]
  | @bracketed closed' rest ts closed later ih =>
    rcases List.append_eq_cons_iff.1 htokens.symm with ⟨rfl, hcons⟩ | ⟨pre', rfl, hlater⟩
    · simp only [List.cons.injEq, Token.bracketed.injEq] at hcons
      obtain ⟨rfl, rfl⟩ := hcons
      refine ⟨[], closed', rest, rfl, rfl, rfl, rfl, .inl ⟨closed, ?_⟩⟩
      -- if no token follows, nothing is left of the text
      cases later with
      | nil => exact .inr rfl
      | literal => exact .inl (List.cons_ne_nil _ _)
      | bracketed => exact .inl (List.cons_ne_nil _ _)
      | unclosed => exact .inl (List.cons_ne_nil _ _)
    · obtain ⟨front, run, back, rfl, hfront, hrun, hopen, hplace⟩ := ih hlater
      obtain ⟨-, -, -, -, hclosed⟩ := closed
      refine ⟨closed' ++ front, run, back, by simp, ?_, hrun, ?_, hplace⟩
      · simp [hfront, Token.text]
      · rw [openAfter_append, hclosed, hopen]
  | @unclosed g rest b first stays =>
    rcases List.append_eq_cons_iff.1 htokens.symm with ⟨rfl, hcons⟩ | ⟨pre', rfl, hnil⟩
    · simp only [List.cons.injEq, Token.bracketed.injEq] at hcons
      obtain ⟨rfl, rfl⟩ := hcons
      exact ⟨[], g :: rest, [], by simp, rfl, rfl, rfl, .inr ⟨stays, rfl, rfl, by simp⟩⟩
    · simp at hnil

end Cuts

end BlockScript
