import BlockScript.Proofs.Text.Weave
import BlockScript.Proofs.Token.Inner
import BlockScript.Proofs.Token.Plain

/-!
# Tokens of a text with arguments

A text that is woven from runs and arguments has the arguments for its tokens in brackets, and the runs
between them for its literal tokens. For this the runs must not open a bracket: they have none, or the
less-than signs in them are comparisons. The arguments must be closed, wherever they stand. As a sign in
an argument is a bracket in one place and a comparison in another, signs have to be in square brackets,
in which they mean nothing.

## Key results

- `IsEnclosed.exists_glyphs`: an argument is a closed run of glyphs wherever it stands
- `tokenize_weave`: the tokens of a woven text
- `texts_cut_open`: the pieces of a woven text with an open bracket behind it
-/

namespace BlockScript

/-! ## Cutting runs of glyphs -/

/-- Where nothing opens, `cut` reads on the present token. -/
theorem cut_append_of_opens_not {gs : List Glyph} (h : ∀ g ∈ gs, ∀ b, g.role ≠ .opens b) (read : Text)
    (rest : List Glyph) :
    cut [] read (gs ++ rest) = cut [] ((gs.map Glyph.char).reverse ++ read) rest := by
  induction gs generalizing read with
  | nil => rfl
  | cons g gs ih =>
    obtain ⟨hg, hgs⟩ := List.forall_mem_cons.1 h
    have hstep : cut [] read (g :: (gs ++ rest)) = cut [] (g.char :: read) (gs ++ rest) := by
      rw [cut]
      split
      · -- only a bracket that opens ends a token here
        rename_i b hrole
        exact absurd hrole (hg b)
      · rfl
    rw [List.cons_append, hstep, ih hgs]
    simp

/-- As long as a bracket `StaysOpen`, `cut` reads on the token in brackets. -/
private theorem cut_append_of_staysOpen {gs : List Glyph} (h : StaysOpen gs) (read : Text)
    (rest : List Glyph) :
    cut [] read (gs ++ rest) =
      .consLiteral read (cut (openAfter [] gs) (gs.map Glyph.char).reverse rest) := by
  induction gs using List.reverseRecOn generalizing rest with
  | nil => exact absurd rfl h.ne_nil
  | append_singleton gs g ih =>
    by_cases hgs : gs = []
    · -- the bracket that opens
      subst hgs
      obtain ⟨first, rest', b, hfirst, hrole⟩ := h.opens
      obtain ⟨rfl, -⟩ := List.cons.inj hfirst
      simp [cut, hrole, Role.change]
    · -- before the last glyph the bracket has been open, and this glyph does not close it
      have hfront := h.of_concat hgs
      -- some brackets are open then, and the glyph changes them
      obtain ⟨top, outer, hnested⟩ :=
        List.exists_cons_of_ne_nil (hfront.stays gs hgs List.prefix_rfl)
      have hstep : openAfter [] (gs ++ [g]) = g.role.nest top outer := by
        rw [openAfter_append, hnested, Role.nest_eq_change]
        rfl
      have hopen := h.stays _ h.ne_nil List.prefix_rfl
      rw [hstep] at hopen
      rw [List.append_assoc, ih hfront, hnested, hstep, List.singleton_append, cut]
      simp

/-- A token in brackets ends where its bracket `IsClosed`. -/
theorem cut_append_of_isClosed {gs : List Glyph} (h : IsClosed gs) (read : Text) (rest : List Glyph) :
    cut [] read (gs ++ rest) =
      .consLiteral read ((cut [] [] rest).cons (.bracketed (gs.map Glyph.char))) := by
  obtain ⟨front, g, rfl, hstays, hclosed⟩ := h
  obtain ⟨top, outer, hnested⟩ :=
    List.exists_cons_of_ne_nil (hstays.stays front hstays.ne_nil List.prefix_rfl)
  -- the last glyph closes the one bracket that is open
  have hstep : g.role.nest top outer = [] := by
    rw [openAfter_append, hnested] at hclosed
    rw [Role.nest_eq_change]
    exact hclosed
  rw [List.append_assoc, cut_append_of_staysOpen hstays, hnested, List.singleton_append, cut]
  simp [hstep]

/-- A text is one token in brackets just if its glyphs are `IsClosed`. -/
theorem tokenize_eq_bracketed_iff {rule : SignRule} {t : Text} :
    tokenize rule t = ⟨[.bracketed t], none⟩ ↔ IsClosed (glyphs rule t) := by
  constructor
  · intro h
    have htokens : (tokenize rule t).tokens = [] ++ .bracketed t :: [] := by
      rw [h]
      rfl
    -- the one token has nothing in front and no bracket left open, so its place is the whole text
    have hclosed := (isClosed_iff_of_bracketed htokens).2 (.inr (by rw [h]))
    have hlength : (glyphs rule t).length = t.length := by
      rw [← List.length_map Glyph.char, glyphs, map_char_glyphsFrom]
    rwa [← hlength, List.map_nil, List.flatten_nil, List.length_nil, List.drop_zero,
      List.take_length] at hclosed
  · intro h
    have hcut := cut_append_of_isClosed h [] []
    rw [List.append_nil, glyphs, map_char_glyphsFrom] at hcut
    rw [tokenize, glyphs, hcut]
    rfl

/-- Glyphs of a text that close exactly at their end are those of a text between two brackets of a kind. -/
private theorem IsClosed.exists_enclosed_text {rule : SignRule} {t : Text} {run : List Glyph}
    (h : IsClosed run)
    (hrun : ∀ g ∈ run, g ∈ glyphs rule t) : ∃ b inner, run.map Glyph.char = Bracket.enclose b inner := by
  obtain ⟨first, middle, last, b, rfl, hfirst, hlast, -⟩ := h.exists_enclosed
  have hfirst' : first.char = b.opener := char_of_opens (hrun _ (by simp)) hfirst
  have hlast' : last.char = b.closer := char_of_closes (hrun _ (by simp)) hlast
  exact ⟨b, middle.map Glyph.char, by simp [Bracket.enclose, hfirst', hlast']⟩

/-- So a text whose glyphs are closed, by `IsClosed`, is a text between two brackets of a kind. -/
theorem exists_enclosed_of_isClosed {rule : SignRule} {t : Text} (h : IsClosed (glyphs rule t)) :
    ∃ b inner, t = Bracket.enclose b inner := by
  obtain ⟨b, inner, hinner⟩ := h.exists_enclosed_text fun g hg => hg
  exact ⟨b, inner, by rw [← hinner, glyphs, map_char_glyphsFrom]⟩

/-- So is each token that `tokenize` finds in brackets if no bracket is left open. -/
theorem exists_enclosed_of_mem {rule : SignRule} {t u : Text} (h : .bracketed u ∈ (tokenize rule t).tokens)
    (hclosed : (tokenize rule t).unclosed = none) : ∃ b inner, u = Bracket.enclose b inner := by
  obtain ⟨pre, post, htokens⟩ := List.append_of_mem h
  obtain ⟨front, run, back, hglyphs, -, rfl, -, hplace⟩ := (cuts_tokenize rule t).exists_place htokens
  rcases hplace with ⟨hrun, -⟩ | ⟨-, -, -, hopen⟩
  · have hsub : ∀ g ∈ run, g ∈ glyphs rule t := by
      intro g hg
      rw [hglyphs]
      simp [hg]
    exact hrun.exists_enclosed_text hsub
  · -- the other case is that of a bracket that is left open
    exact absurd hclosed hopen

/-! ## Arguments -/

/-- Whether a character is a less-than or greater-than sign. -/
def IsSign (c : Char) : Prop := c = '<' ∨ c = '>'

instance (c : Char) : Decidable (IsSign c) := inferInstanceAs (Decidable (_ ∨ _))

/-- A text in brackets ends with the bracket that closes. -/
theorem Bracket.getLast?_enclose (b : Bracket) (t : Text) : (b.enclose t).getLast? = some b.closer :=
  List.getLast?_concat

/-- Blanks open no bracket. -/
theorem Bracket.ofOpener?_of_isBlank {c : Char} (h : Text.isBlank c = true) : ofOpener? c = none := by
  rw [Option.eq_none_iff_forall_ne_some]
  intro b hb
  obtain rfl := ofOpener?_eq_some_iff.1 hb
  revert h
  cases b <;> decide

/-- A text in brackets `IsTight`, for there are no blanks at its ends. -/
theorem Bracket.isTight_enclose (b : Bracket) (t : Text) : Text.IsTight (b.enclose t) := by
  have hfirst : Text.isBlank b.opener = false := by cases b <;> decide
  have hlast : Text.isBlank b.closer = false := by cases b <;> decide
  exact ⟨List.cons_ne_nil _ _, hfirst, by rw [getLast?_enclose]; exact hlast⟩

/-- Whether a text is one token wherever it stands: it is in round or square brackets that are closed, and
    signs are in square brackets. -/
structure IsEnclosed (rule : SignRule) (t : Text) : Prop where
  opens : t.head? = some '(' ∨ t.head? = some '['
  single : tokenize rule t = ⟨[.bracketed t], none⟩
  quoted : ∀ front g back, glyphs rule t = front ++ g :: back → IsSign g.char →
    (openAfter [] front).head? = some .square

/-- Whether a text is an argument that can stand anywhere in a line: it is one token, and no comment starts
    in it. -/
structure IsArgument (rule : SignRule) (t : Text) : Prop extends IsEnclosed rule t where
  unslashed : ¬ "//".toList <:+: t

/-- Whether signs are in square brackets, when some brackets are open before them. -/
def AreQuoted (nested : List Bracket) (gs : List Glyph) : Prop :=
  ∀ front g back, gs = front ++ g :: back → IsSign g.char → (openAfter nested front).head? = some .square

/-- `AreQuoted` can be checked place by place. -/
private theorem areQuoted_iff {nested : List Bracket} {gs : List Glyph} :
    AreQuoted nested gs ↔ ∀ k, ∀ hk : k < gs.length, IsSign gs[k].char →
      (openAfter nested (gs.take k)).head? = some .square := by
  constructor
  · intro h k hk hsign
    refine h (gs.take k) gs[k] (gs.drop (k + 1)) ?_ hsign
    rw [List.getElem_cons_drop, List.take_append_drop]
  · rintro h front g back rfl hsign
    simpa [hsign] using h front.length (by simp)

instance (rule : SignRule) (t : Text) : Decidable (IsEnclosed rule t) :=
  decidable_of_iff
    ((t.head? = some '(' ∨ t.head? = some '[') ∧ tokenize rule t = ⟨[.bracketed t], none⟩ ∧
      ∀ k, ∀ hk : k < (glyphs rule t).length, IsSign (glyphs rule t)[k].char →
        (openAfter [] ((glyphs rule t).take k)).head? = some .square)
    ⟨fun ⟨h₁, h₂, h₃⟩ => ⟨h₁, h₂, areQuoted_iff.2 h₃⟩, fun ⟨h₁, h₂, h₃⟩ => ⟨h₁, h₂, areQuoted_iff.1 h₃⟩⟩

instance (rule : SignRule) (t : Text) : Decidable (IsArgument rule t) :=
  decidable_of_iff (IsEnclosed rule t ∧ ¬ "//".toList <:+: t)
    ⟨fun ⟨h₁, h₂⟩ => ⟨h₁, h₂⟩, fun ⟨h₁, h₂⟩ => ⟨h₁, h₂⟩⟩

/-- In square brackets a sign is no change of nesting. -/
private theorem change_of_isSign {nested : List Bracket} {c : Char} {comparison : Bool}
    (hsquare : nested.head? = some .square) (hc : IsSign c) :
    (if comparison then Role.plain else .ofChar c).change nested = nested := by
  cases comparison with
  | true => rfl
  | false =>
    rcases hc with rfl | rfl
    · have hrole : Role.ofChar '<' = .opens .angle := rfl
      simp [hrole, Role.change, hsquare]
    · have hrole : Role.ofChar '>' = .closes .angle := rfl
      simp [hrole, Role.change, hsquare]

/-- No other character is a comparison sign, so `isComparison` does not look at what is around it. -/
private theorem isComparison_eq_false {verbal : Nat → Bool} {before after : Text} {c : Char}
    (hc : ¬ IsSign c) : isComparison verbal before c after = false := by
  rw [IsSign, not_or] at hc
  simp [isComparison, hc.1, hc.2]

/-- `glyphsFrom` gives a character that is no sign the role that it looks like. -/
theorem glyphsFrom_cons_of_not_isSign {c : Char} (hc : ¬ IsSign c) (verbal : Nat → Bool) (before rest : Text) :
    glyphsFrom verbal before (c :: rest) = ⟨c, .ofChar c⟩ :: glyphsFrom verbal (c :: before) rest := by
  rw [glyphsFrom, isComparison_eq_false hc]
  rfl

/-- If signs are in square brackets, what is open at each place does not depend on what is around. -/
private theorem exists_glyphs_of_quoted {verbal verbal' : Nat → Bool} {before before' t : Text}
    (nested : List Bracket) (rest : Text)
    (h : ∀ front g back, glyphsFrom verbal before t = front ++ g :: back → IsSign g.char →
      (openAfter nested front).head? = some .square) :
    ∃ gs, glyphsFrom verbal' before' (t ++ rest) =
        gs ++ glyphsFrom verbal' (t.reverse ++ before') rest ∧ gs.map Glyph.char = t ∧
      ∀ k, openAfter nested (gs.take k) = openAfter nested ((glyphsFrom verbal before t).take k) := by
  induction t generalizing before before' nested with
  | nil => exact ⟨[], rfl, rfl, fun k => by simp [glyphsFrom]⟩
  | cons c t ih =>
    -- the character has the same effect in both places
    have hchange : (if isComparison verbal' before' c (t ++ rest) then Role.plain else .ofChar c).change
        nested = (if isComparison verbal before c t then Role.plain else .ofChar c).change nested := by
      by_cases hc : IsSign c
      · have hsquare : nested.head? = some .square := h [] _ _ rfl hc
        rw [change_of_isSign hsquare hc, change_of_isSign hsquare hc]
      · rw [isComparison_eq_false hc, isComparison_eq_false hc]
    -- what follows is in the same brackets in both places
    have hlater : ∀ front g back, glyphsFrom verbal (c :: before) t = front ++ g :: back →
        IsSign g.char → (openAfter ((if isComparison verbal before c t then Role.plain
          else .ofChar c).change nested) front).head? = some .square :=
      fun front g back hglyphs hg => h (_ :: front) g back (congrArg (List.cons _) hglyphs) hg
    obtain ⟨gs, hgs, hchars, hopen⟩ := @ih (c :: before) (c :: before') _ hlater
    refine ⟨⟨c, if isComparison verbal' before' c (t ++ rest) then .plain else .ofChar c⟩ :: gs,
      ?_, ?_, fun k => ?_⟩
    · rw [List.cons_append, glyphsFrom, hgs, List.reverse_cons, List.append_assoc]
      rfl
    · rw [List.map_cons, hchars]
    · cases k with
      | zero => rfl
      | succ k =>
        rw [List.take_succ_cons, openAfter_cons, hchange, hopen, glyphsFrom, List.take_succ_cons,
          openAfter_cons]

namespace IsEnclosed

variable {rule : SignRule} {t : Text}

/-- A text that `IsEnclosed` is not empty. -/
theorem ne_nil (h : IsEnclosed rule t) : t ≠ [] := by
  rintro rfl
  simpa using h.opens

/-- A text that `IsEnclosed` starts with a bracket. -/
theorem leading?_isSome (h : IsEnclosed rule t) : (Bracket.leading? t).isSome = true := by
  cases t with
  | nil => exact absurd rfl h.ne_nil
  | cons c rest =>
    rcases h.opens with hc | hc <;>
    · obtain rfl := Option.some.inj hc
      rfl

/-- Its `glyphs` are closed. -/
private theorem isClosed_glyphs (h : IsEnclosed rule t) : IsClosed (glyphs rule t) :=
  tokenize_eq_bracketed_iff.1 h.single

/-- A text that `IsEnclosed` is a text between two brackets of a kind. -/
theorem exists_enclosed (h : IsEnclosed rule t) : ∃ b inner, t = Bracket.enclose b inner :=
  exists_enclosed_of_isClosed h.isClosed_glyphs

/-- Wherever a text that `IsEnclosed` stands its glyphs close exactly at its end, and signs are in square
    brackets. -/
theorem exists_glyphs (h : IsEnclosed rule t) (verbal : Nat → Bool) (before rest : Text) :
    ∃ gs, glyphsFrom verbal before (t ++ rest) =
        gs ++ glyphsFrom verbal (t.reverse ++ before) rest ∧ gs.map Glyph.char = t ∧ IsClosed gs ∧
      AreQuoted [] gs := by
  obtain ⟨gs, hgs, hchars, hopen⟩ := exists_glyphs_of_quoted [] rest h.quoted
  have hsame : gs.map Glyph.char = (glyphs rule t).map Glyph.char := by
    rw [hchars, glyphs, map_char_glyphsFrom]
  -- prefix by prefix the same is open in both, whatever the text around says about signs
  have hlength : gs.length = (glyphs rule t).length := by
    rw [← List.length_map Glyph.char, hsame, List.length_map]
  refine ⟨gs, hgs, hchars, ?_, areQuoted_iff.2 fun k hk hsign => ?_⟩
  · -- so they close where the argument closes by itself
    obtain ⟨hlong, hclosed, hinside⟩ := isClosed_iff.1 h.isClosed_glyphs
    rw [isClosed_iff, hlength]
    refine ⟨hlong, ?_, fun k hk hk' => ?_⟩
    · have hend := hopen gs.length
      rwa [List.take_length, hlength, ← glyphs, List.take_length, hclosed] at hend
    · rw [hopen]
      exact hinside k hk hk'
  · -- and a sign is in the brackets in which it is there
    have hk' : k < (glyphs rule t).length := hlength ▸ hk
    have hchar : gs[k].char = (glyphs rule t)[k].char := by
      simpa [hk, hk'] using congrArg (·[k]?) hsame
    rw [hopen]
    exact areQuoted_iff.1 h.quoted k hk' (hchar ▸ hsign)

end IsEnclosed

/-! ## Runs -/

/-- Whether no bracket opens in a run, between a text that is given backwards and another one. -/
def IsBare (verbal : Nat → Bool) (before run after : Text) : Prop :=
  ∀ s c s', run = s ++ c :: s' → (Bracket.ofOpener? c).isSome = true →
    isComparison verbal (s.reverse ++ before) c (s' ++ after) = true

/-- Whether no bracket opens in the runs of a woven text. -/
def AreBare (verbal : Nat → Bool) : Text → List Text → List Text → Prop
  | _, [], _ => True
  | before, run :: _, [] => IsBare verbal before run []
  | before, run :: runs, arg :: args =>
    IsBare verbal before run (arg ++ Text.weave runs args) ∧
      AreBare verbal (arg.reverse ++ (run.reverse ++ before)) runs args

/-- A run without brackets `IsBare`, whatever is around it. -/
theorem isBare_of_ofOpener?_eq_none {run : Text} (h : ∀ c ∈ run, Bracket.ofOpener? c = none)
    (verbal : Nat → Bool) (before after : Text) : IsBare verbal before run after := by
  rintro s c s' rfl hc
  rw [h c (by simp)] at hc
  cases hc

/-- So all runs of a text `AreBare` if they have no brackets. -/
theorem areBare_of_ofOpener?_eq_none {runs : List Text}
    (h : ∀ run ∈ runs, ∀ c ∈ run, Bracket.ofOpener? c = none) (verbal : Nat → Bool) (before : Text)
    (args : List Text) : AreBare verbal before runs args := by
  induction runs generalizing before args with
  | nil => exact trivial
  | cons run runs ih =>
    obtain ⟨hrun, hruns⟩ := List.forall_mem_cons.1 h
    cases args with
    | nil => exact isBare_of_ofOpener?_eq_none hrun verbal before []
    | cons arg args => exact ⟨isBare_of_ofOpener?_eq_none hrun verbal before _, ih hruns _ _⟩

/-- The glyphs of a run that `IsBare` open nothing. -/
theorem IsBare.exists_glyphs {verbal : Nat → Bool} {before run after : Text}
    (h : IsBare verbal before run after) :
    ∃ gs, glyphsFrom verbal before (run ++ after) =
        gs ++ glyphsFrom verbal (run.reverse ++ before) after ∧ gs.map Glyph.char = run ∧
      ∀ g ∈ gs, ∀ b, g.role ≠ .opens b := by
  -- character by character; what has been read moves to the text before
  induction run generalizing before with
  | nil => exact ⟨[], rfl, rfl, by simp⟩
  | cons c run ih =>
    have hrun : IsBare verbal (c :: before) run after := by
      intro s d s' hrun hd
      simpa [hrun] using h (c :: s) d s' (by rw [hrun]; rfl) hd
    obtain ⟨gs, hgs, hchars, hplain⟩ := ih hrun
    refine ⟨⟨c, if isComparison verbal before c (run ++ after) then .plain else .ofChar c⟩ :: gs,
      ?_, ?_, List.forall_mem_cons.2 ⟨fun b => ?_, hplain⟩⟩
    · rw [List.cons_append, glyphsFrom, hgs, List.reverse_cons, List.append_assoc]
      rfl
    · rw [List.map_cons, hchars]
    · dsimp only
      -- a sign between arguments is plain, and any other opener would open
      split
      · simp
      · rename_i hsign
        rw [Role.ofChar]
        cases hopener : Bracket.ofOpener? c with
        | some b' => exact absurd (h [] c run rfl (by simp [hopener])) hsign
        | none => cases Bracket.ofCloser? c <;> simp

/-! ## Woven texts -/

/-- The tokens of a woven text: the runs that are not empty, and the arguments. -/
def wovenTokens : List Text → List Text → Tokens
  | [], _ => ⟨[], none⟩
  | run :: _, [] => .consLiteral run.reverse ⟨[], none⟩
  | run :: runs, arg :: args => .consLiteral run.reverse ((wovenTokens runs args).cons (.bracketed arg))

private theorem Tokens.texts_consLiteral (run : Text) (ts : Tokens) :
    (ts.consLiteral run.reverse).texts = [run].filter (· ≠ []) ++ ts.texts := by
  cases run with
  | nil => rfl
  | cons c run => simp [consLiteral, texts, cons, Token.text]

theorem texts_wovenTokens (runs : List Text) {args : List Text} (hargs : ∀ arg ∈ args, arg ≠ []) :
    (wovenTokens runs args).texts = (Text.interleave runs args).filter (· ≠ []) := by
  induction runs generalizing args with
  | nil => rfl
  | cons run runs ih =>
    cases args with
    | nil =>
      rw [wovenTokens, Tokens.texts_consLiteral]
      exact List.append_nil _
    | cons arg args =>
      obtain ⟨harg, hargs⟩ := List.forall_mem_cons.1 hargs
      -- an argument is never empty, so only runs can be left out
      have hlater : (arg :: Text.interleave runs args).filter (· ≠ []) =
          arg :: (Text.interleave runs args).filter (· ≠ []) :=
        List.filter_cons_of_pos (by simpa using harg)
      rw [wovenTokens, Tokens.texts_consLiteral, Tokens.texts_cons, ih hargs, Text.interleave,
        List.filter_cons, List.filter_cons, hlater]
      split <;> rfl

/-- Whether the glyphs of a text close exactly at its end, wherever it stands. -/
def ClosesAnywhere (verbal : Nat → Bool) (t : Text) : Prop :=
  ∀ before rest, ∃ gs, glyphsFrom verbal before (t ++ rest) =
    gs ++ glyphsFrom verbal (t.reverse ++ before) rest ∧ gs.map Glyph.char = t ∧ IsClosed gs

/-- An enclosed text closes anywhere. -/
private theorem IsEnclosed.closesAnywhere {rule : SignRule} {t : Text} (h : IsEnclosed rule t)
    (verbal : Nat → Bool) :
    ClosesAnywhere verbal t := by
  intro before rest
  obtain ⟨gs, hgs, hchars, hclosed, -⟩ := h.exists_glyphs verbal before rest
  exact ⟨gs, hgs, hchars, hclosed⟩

/-- `cut` takes a bare run and an argument off, wherever they stand. -/
private theorem cut_run_argument {verbal : Nat → Bool} {before run arg rest : Text}
    (hrun : IsBare verbal before run (arg ++ rest)) (harg : ClosesAnywhere verbal arg) :
    cut [] [] (glyphsFrom verbal before (run ++ (arg ++ rest))) =
      .consLiteral run.reverse
        ((cut [] [] (glyphsFrom verbal (arg.reverse ++ (run.reverse ++ before)) rest)).cons
          (.bracketed arg)) := by
  obtain ⟨gs, hgs, hchars, hplain⟩ := hrun.exists_glyphs
  obtain ⟨hs, hhs, hchars', hclosed⟩ := harg (run.reverse ++ before) rest
  rw [hgs, hhs, cut_append_of_opens_not hplain, cut_append_of_isClosed hclosed, hchars, hchars',
    List.append_nil]

/-- A bare run at the end is the last token. -/
private theorem cut_run {verbal : Nat → Bool} {before run : Text} (hrun : IsBare verbal before run []) :
    cut [] [] (glyphsFrom verbal before run) = .consLiteral run.reverse ⟨[], none⟩ := by
  obtain ⟨gs, hgs, hchars, hplain⟩ := hrun.exists_glyphs
  rw [List.append_nil] at hgs
  rw [hgs, cut_append_of_opens_not hplain, hchars, List.append_nil]
  rfl

/-- Run and argument by run and argument, `cut` gives the `wovenTokens`. -/
theorem cut_weave {verbal : Nat → Bool} {before : Text} {runs args : List Text}
    (hfits : Text.Fits runs args) (hruns : AreBare verbal before runs args)
    (hargs : ∀ arg ∈ args, ClosesAnywhere verbal arg) :
    cut [] [] (glyphsFrom verbal before (Text.weave runs args)) = wovenTokens runs args := by
  induction hfits generalizing before with
  -- the last run is literal to the end
  | last run =>
    rw [Text.weave_last, cut_run hruns]
    rfl
  | step run arg _ ih =>
    obtain ⟨hrun, hruns⟩ := hruns
    obtain ⟨harg, hargs⟩ := List.forall_mem_cons.1 hargs
    rw [Text.weave_cons, cut_run_argument hrun harg, ih hruns hargs]
    rfl

/-- The tokens of a woven text are the `wovenTokens`, its runs and its arguments. -/
theorem tokenize_weave {rule rule' : SignRule} {runs args : List Text} (hfits : Text.Fits runs args)
    (hruns : AreBare (rule (Text.weave runs args)).holds [] runs args)
    (hargs : ∀ arg ∈ args, IsEnclosed rule' arg) :
    tokenize rule (Text.weave runs args) = wovenTokens runs args :=
  cut_weave hfits hruns fun arg harg => (hargs arg harg).closesAnywhere _

/-- No comment starts in what `weave` makes if none starts in the runs and arguments. -/
theorem not_slashes_weave {rule : SignRule} {runs args : List Text} (hfits : Text.Fits runs args)
    (hruns : ∀ run ∈ runs, ¬ "//".toList <:+: run) (hargs : ∀ arg ∈ args, IsArgument rule arg) :
    ¬ "//".toList <:+: Text.weave runs args := by
  refine Text.not_isInfix_weave (c := '/') hfits hruns fun arg harg => ?_
  have hargument := hargs arg harg
  refine ⟨hargument.ne_nil, hargument.unslashed, ?_⟩
  obtain ⟨b, inner, rfl⟩ := hargument.exists_enclosed
  rw [Bracket.getLast?_enclose]
  cases b <;> simp [Bracket.enclose, Bracket.opener, Bracket.closer]

/-- A bracket that is left open behind a woven text takes all that follows into one token. -/
theorem texts_cut_open {rule : SignRule} {verbal : Nat → Bool} {before : Text} {runs args : List Text}
    {t : Text} (hfits : Text.Fits runs args)
    (hruns : ∀ run ∈ runs, ∀ c ∈ run, Bracket.ofOpener? c = none)
    (hargs : ∀ arg ∈ args, IsEnclosed rule arg) (ht : ∀ c ∈ t, Bracket.isPlain c = true) :
    (cut [] [] (glyphsFrom verbal before (Text.weave runs args ++ '(' :: t))).texts =
      (Text.interleave runs args).filter (· ≠ []) ++ ['(' :: t] := by
  -- run and argument by run and argument, until the bracket that is left open
  induction hfits generalizing before with
  | last run =>
    have hrun := isBare_of_ofOpener?_eq_none (hruns run List.mem_cons_self) verbal before ('(' :: t)
    obtain ⟨gs, hgs, hchars, hplain⟩ := hrun.exists_glyphs
    rw [Text.weave_last, hgs, cut_append_of_opens_not hplain, hchars, cut_round_open _ _ _ ht,
      List.append_nil, Tokens.texts_consLiteral]
    rfl
  | @step run arg runs args _ ih =>
    obtain ⟨hrun, hruns⟩ := List.forall_mem_cons.1 hruns
    obtain ⟨harg, hargs⟩ := List.forall_mem_cons.1 hargs
    -- no argument is empty, so none is left out
    have hlater : (arg :: Text.interleave runs args).filter (· ≠ []) =
        arg :: (Text.interleave runs args).filter (· ≠ []) :=
      List.filter_cons_of_pos (by simpa using harg.ne_nil)
    rw [Text.weave_cons, List.append_assoc, List.append_assoc,
      cut_run_argument (isBare_of_ofOpener?_eq_none hrun verbal before _) (harg.closesAnywhere verbal),
      Tokens.texts_consLiteral, Tokens.texts_cons, ih hruns hargs, Text.interleave, List.filter_cons,
      List.filter_cons, hlater]
    split <;> rfl

end BlockScript
