import BlockScript.Proofs.Token.Woven

/-!
# Texts in brackets

What is written between two round brackets makes an argument of them if its own arguments are arguments: it
opens no bracket that it does not close, and closes none that it has not opened. Between square brackets
anything may stand but the closing one, for nothing opens there.

## Key results

- `isEnclosed_square`: a quoted text is an argument
- `isEnclosed_weave`: so is a woven text in round brackets
-/

namespace BlockScript

/-! ## Signs -/

/-- A glyph that is no sign need not be quoted. -/
private theorem areQuoted_singleton {nested : List Bracket} {g : Glyph} (h : ¬ IsSign g.char) :
    AreQuoted nested [g] := by
  intro front g' back hsplit hsign
  obtain rfl : g = g' := by
    rcases List.append_eq_singleton_iff.1 hsplit.symm with ⟨-, hcons⟩ | ⟨-, hnil⟩
    · exact (List.cons.inj hcons).1.symm
    · cases hnil
  exact absurd hsign h

/-- Glyphs `AreQuoted` if the first ones are, and the others with what these leave open. -/
theorem AreQuoted.append {nested : List Bracket} {gs hs : List Glyph} (hgs : AreQuoted nested gs)
    (hhs : AreQuoted (openAfter nested gs) hs) : AreQuoted nested (gs ++ hs) := by
  intro front g back hsplit hsign
  -- a sign is among the first glyphs or among the others
  rcases List.append_eq_append_iff.1 hsplit with ⟨front', rfl, hback⟩ | ⟨back', rfl, hback⟩
  · rw [openAfter_append]
    exact hhs front' g back hback hsign
  · cases back' with
    | nil => simpa using hhs [] g back hback.symm hsign
    | cons g' back' =>
      obtain ⟨rfl, -⟩ := List.cons.inj hback
      exact hgs front g back' rfl hsign

/-! ## Brackets that are open around -/

/-- What a character changes inside a bracket has no effect on those around it. -/
private theorem Role.change_append {inner nested : List Bracket} (h : inner ≠ []) (r : Role) :
    r.change (inner ++ nested) = r.change inner ++ nested := by
  have hhead : (inner ++ nested).head? = inner.head? := List.head?_append_of_ne_nil _ h
  have htail : (inner ++ nested).tail = inner.tail ++ nested := List.tail_append_of_ne_nil h
  cases r with
  | opens b =>
    simp only [change, hhead]
    split <;> rfl
  | closes b =>
    simp only [change, hhead, htail]
    split <;> rfl
  | plain => rfl

/-- Glyphs that close exactly at their end leave the brackets around them alone, unless these are square. -/
private theorem IsClosed.openAfter_of_isPrefix {gs front : List Glyph} {nested : List Bracket}
    (h : IsClosed gs)
    (hnested : nested.head? ≠ some .square) (hfront : front <+: gs) :
    openAfter nested front = openAfter [] front ++ nested := by
  induction front using List.reverseRecOn with
  | nil => rfl
  | append_singleton front g ih =>
    have hbegins : front <+: gs := (List.prefix_append front [g]).trans hfront
    by_cases hfilled : front = []
    · -- the first glyph opens a bracket
      subst hfilled
      obtain ⟨first, middle, last, b, rfl, hfirst, -⟩ := h.exists_enclosed
      obtain ⟨rfl, -⟩ := List.cons_prefix_cons.1 hfront
      simp [Role.change, hfirst, hnested]
    · -- later glyphs are inside the bracket that has been opened
      have hopen : openAfter [] front ≠ [] := by
        have hlength := hfront.length_le
        rw [List.length_append, List.length_singleton] at hlength
        rw [List.prefix_iff_eq_take.1 hbegins]
        exact (isClosed_iff.1 h).2.2 _ (List.length_pos_iff.2 hfilled) hlength
      rw [openAfter_append, openAfter_append, ih hbegins]
      exact Role.change_append hopen g.role

/-! ## Glyphs inside brackets -/

/-- Whether glyphs keep to themselves between two brackets of a kind: the first one stays open, and whatever
    else they open they close. -/
structure Nests (b : Bracket) (gs : List Glyph) : Prop where
  stays : ∀ front, front <+: gs → openAfter [b] front ≠ []
  ends : openAfter [b] gs = [b]

namespace Nests

variable {b : Bracket} {gs hs : List Glyph}

/-- What keeps to itself, by `Nests`, can be followed by more of it. -/
theorem append (hgs : Nests b gs) (hhs : Nests b hs) : Nests b (gs ++ hs) where
  stays := by
    rintro front ⟨back, hsplit⟩
    rcases List.append_eq_append_iff.1 hsplit with ⟨back', hgs', -⟩ | ⟨front', rfl, hhs'⟩
    · exact hgs.stays front ⟨back', hgs'.symm⟩
    · rw [openAfter_append, hgs.ends]
      exact hhs.stays front' ⟨back, hhs'.symm⟩
  ends := by rw [openAfter_append, hgs.ends, hhs.ends]

/-- Glyphs that have no effect leave what is open alone. -/
private theorem openAfter_of_change_eq (h : ∀ g ∈ gs, g.role.change [b] = [b]) {front : List Glyph}
    (hfront : front <+: gs) : openAfter [b] front = [b] := by
  have hall : ∀ g ∈ front, g.role.change [b] = [b] := fun g hg => h g (hfront.subset hg)
  clear hfront
  induction front with
  | nil => rfl
  | cons g front ih =>
    obtain ⟨hg, hlater⟩ := List.forall_mem_cons.1 hall
    rw [openAfter_cons, hg, ih hlater]

/-- Glyphs that have no effect keep to themselves, by `Nests`. -/
theorem of_change_eq (h : ∀ g ∈ gs, g.role.change [b] = [b]) : Nests b gs := by
  refine ⟨fun front hfront => ?_, openAfter_of_change_eq h List.prefix_rfl⟩
  rw [openAfter_of_change_eq h hfront]
  exact List.cons_ne_nil b []

/-- By `Nests`, an argument can stand in brackets that are not square. -/
theorem of_isClosed (hb : b ≠ .square) (hclosed : IsClosed gs) : Nests b gs := by
  have hnested : [b].head? ≠ some .square := fun h => hb (Option.some.inj h)
  refine ⟨fun front hfront => ?_, ?_⟩
  · rw [hclosed.openAfter_of_isPrefix hnested hfront]
    simp
  · rw [hclosed.openAfter_of_isPrefix hnested List.prefix_rfl, (isClosed_iff.1 hclosed).2.1, List.nil_append]

/-- With the brackets around them glyphs are `IsClosed` exactly at their end. -/
theorem isClosed_enclosed {first last : Glyph} (h : Nests b gs) (hfirst : first.role = .opens b)
    (hlast : last.role = .closes b) : IsClosed (first :: gs ++ [last]) := by
  have hopened : first.role.change [] = [b] := by
    rw [hfirst]
    rfl
  refine ⟨first :: gs, last, rfl, ⟨⟨first, gs, b, rfl, hfirst⟩, fun front hfilled hfront => ?_⟩, ?_⟩
  · obtain ⟨g, front, rfl⟩ := List.exists_cons_of_ne_nil hfilled
    obtain ⟨rfl, hinner⟩ := List.cons_prefix_cons.1 hfront
    rw [openAfter_cons, hopened]
    exact h.stays front hinner
  · -- behind the inner glyphs the first bracket is the only one that is open
    have hinner : openAfter [] (first :: gs) = [b] := by rw [openAfter_cons, hopened, h.ends]
    rw [openAfter_append, hinner]
    simp [hlast, Role.change]

end Nests

/-- Whether glyphs can stand between two brackets of a kind wherever these are: they keep to themselves, and
    signs are in square brackets. -/
structure IsInside (b : Bracket) (gs : List Glyph) : Prop extends Nests b gs where
  quoted : AreQuoted [b] gs

namespace IsInside

variable {b : Bracket} {gs hs : List Glyph}

/-- What can stand in brackets, by `IsInside`, can be followed by more of it. -/
theorem append (hgs : IsInside b gs) (hhs : IsInside b hs) : IsInside b (gs ++ hs) :=
  ⟨hgs.toNests.append hhs.toNests, hgs.quoted.append (hgs.ends.symm ▸ hhs.quoted)⟩

/-- Glyphs that have no effect are `IsInside` brackets, and signs among them square ones. -/
theorem of_change_eq (h : ∀ g ∈ gs, g.role.change [b] = [b])
    (hsigns : ∀ g ∈ gs, IsSign g.char → b = .square) : IsInside b gs := by
  refine ⟨.of_change_eq h, ?_⟩
  rintro front g back rfl hsign
  rw [Nests.openAfter_of_change_eq h (List.prefix_append _ _), hsigns g (by simp) hsign]
  rfl

/-- By `IsInside`, an argument can stand in brackets that are not square. -/
theorem of_isClosed (hb : b ≠ .square) (hclosed : IsClosed gs) (hquoted : AreQuoted [] gs) :
    IsInside b gs := by
  have hnested : [b].head? ≠ some .square := fun h => hb (Option.some.inj h)
  refine ⟨.of_isClosed hb hclosed, ?_⟩
  rintro front g back rfl hsign
  rw [hclosed.openAfter_of_isPrefix hnested (List.prefix_append _ _), List.head?_append,
    hquoted front g back rfl hsign]
  rfl

/-- With brackets around them that are no signs, signs are in square brackets as before. -/
private theorem areQuoted_enclosed {first last : Glyph} (h : IsInside b gs) (hfirst : first.role = .opens b)
    (hfirst' : ¬ IsSign first.char) (hlast' : ¬ IsSign last.char) : AreQuoted [] (first :: gs ++ [last]) := by
  have hopened : openAfter [] [first] = [b] := by simp [hfirst, Role.change]
  have hgs : AreQuoted [] ([first] ++ gs) := (areQuoted_singleton hfirst').append (hopened.symm ▸ h.quoted)
  exact hgs.append (areQuoted_singleton hlast')

end IsInside

/-! ## Texts inside brackets -/

/-- Whether a text can stand between two brackets of a kind, wherever these are. -/
def Fills (b : Bracket) (t : Text) : Prop :=
  ∀ verbal before rest, ∃ gs,
    glyphsFrom verbal before (t ++ rest) = gs ++ glyphsFrom verbal (t.reverse ++ before) rest ∧ IsInside b gs

/-- Two texts that `Fills` brackets do so together. -/
theorem Fills.append {b : Bracket} {s t : Text} (hs : Fills b s) (ht : Fills b t) : Fills b (s ++ t) := by
  intro verbal before rest
  obtain ⟨gs, hgs, hinside⟩ := hs verbal before (t ++ rest)
  obtain ⟨hs, hhs, hinside'⟩ := ht verbal (s.reverse ++ before) rest
  exact ⟨gs ++ hs, by simp [hgs, hhs], hinside.append hinside'⟩

/-- Text without brackets `Fills` brackets of any kind. -/
private theorem fills_of_plain (b : Bracket) {t : Text} (h : ∀ c ∈ t, Bracket.isPlain c = true) :
    Fills b t := by
  refine fun verbal before rest => ⟨plainGlyphs t, glyphsFrom_append h verbal before rest, ?_⟩
  refine IsInside.of_change_eq (fun g hg => ?_) fun g hg hsign => ?_
  · obtain ⟨c, -, rfl⟩ := List.mem_map.1 hg
    rfl
  · -- a sign is a bracket, so there is none
    obtain ⟨c, hc, rfl⟩ := List.mem_map.1 hg
    have hplain := h c hc
    rcases hsign with rfl | rfl
    · exact absurd hplain (by decide)
    · exact absurd hplain (by decide)

/-- By `Fills`, an argument can stand in brackets that are not square. -/
theorem IsEnclosed.fills {rule : SignRule} {b : Bracket} {t : Text} (h : IsEnclosed rule t)
    (hb : b ≠ .square) : Fills b t := by
  intro verbal before rest
  obtain ⟨gs, hgs, -, hclosed, hquoted⟩ := h.exists_glyphs verbal before rest
  exact ⟨gs, hgs, .of_isClosed hb hclosed hquoted⟩

/-- A woven text fills a pair of brackets too, if they are not square. -/
private theorem fills_weave {rule : SignRule} {b : Bracket} (hb : b ≠ .square) {runs args : List Text}
    (hfits : Text.Fits runs args) (hruns : ∀ run ∈ runs, ∀ c ∈ run, Bracket.isPlain c = true)
    (hargs : ∀ arg ∈ args, IsEnclosed rule arg) : Fills b (Text.weave runs args) := by
  induction hfits with
  | last run =>
    rw [Text.weave_last]
    exact fills_of_plain b (hruns run List.mem_cons_self)
  | step run arg _ ih =>
    obtain ⟨hrun, hruns⟩ := List.forall_mem_cons.1 hruns
    obtain ⟨harg, hargs⟩ := List.forall_mem_cons.1 hargs
    rw [Text.weave_cons]
    exact (fills_of_plain b hrun).append ((harg.fills hb).append (ih hruns hargs))

/-- The glyphs of a text in front of others are glyphs of its characters. -/
private theorem exists_glyphsFrom_append (verbal : Nat → Bool) (before t rest : Text) :
    ∃ gs, glyphsFrom verbal before (t ++ rest) = gs ++ glyphsFrom verbal (t.reverse ++ before) rest ∧
      gs.map Glyph.char = t := by
  induction t generalizing before with
  | nil => exact ⟨[], rfl, rfl⟩
  | cons c t ih =>
    obtain ⟨gs, hgs, hchars⟩ := ih (c :: before)
    refine ⟨⟨c, if isComparison verbal before c (t ++ rest) then .plain else .ofChar c⟩ :: gs, ?_, ?_⟩
    · rw [List.cons_append, glyphsFrom, hgs, List.reverse_cons, List.append_assoc]
      rfl
    · rw [List.map_cons, hchars]

/-- Inside square brackets nothing has an effect but what closes them. -/
private theorem fills_square {t : Text} (h : ']' ∉ t) : Fills .square t := by
  intro verbal before rest
  obtain ⟨gs, hgs, hchars⟩ := exists_glyphsFrom_append verbal before t rest
  refine ⟨gs, hgs, IsInside.of_change_eq (fun g hg => ?_) fun _ _ _ => rfl⟩
  have hmem : g ∈ glyphsFrom verbal before (t ++ rest) := by
    rw [hgs]
    exact List.mem_append_left _ hg
  cases hrole : g.role with
  -- in square brackets nothing opens
  | opens b => rfl
  | closes b =>
    -- what closes a square bracket would be in the text
    have hb : b ≠ .square := by
      rintro rfl
      have hchar := char_of_closes hmem hrole
      exact h (hchars ▸ List.mem_map.2 ⟨g, hg, hchar⟩)
    simp [Role.change, hb.symm]
  | plain => rfl

/-! ## Arguments -/

/-- A text that `Fills` two brackets is an argument with them. -/
theorem Fills.isEnclosed {b : Bracket} {t : Text} (h : Fills b t) (hb : b = .round ∨ b = .square)
    (rule : SignRule) : IsEnclosed rule (b.enclose t) := by
  have hplain : ¬ IsSign b.opener ∧ ¬ IsSign b.closer := by
    rcases hb with rfl | rfl <;> decide
  have hroles : Role.ofChar b.opener = .opens b ∧ Role.ofChar b.closer = .closes b := by
    rcases hb with rfl | rfl <;> decide
  obtain ⟨gs, hgs, hinside⟩ := h (rule (b.enclose t)).holds [b.opener] [b.closer]
  -- the brackets around are no signs, so they open and close
  have hglyphs : glyphs rule (b.enclose t) = ⟨b.opener, .opens b⟩ :: gs ++ [⟨b.closer, .closes b⟩] := by
    rw [glyphsFrom_cons_of_not_isSign hplain.2, hroles.2] at hgs
    have hwhole := glyphsFrom_cons_of_not_isSign hplain.1 (rule (b.enclose t)).holds [] (t ++ [b.closer])
    rw [hgs, hroles.1] at hwhole
    exact hwhole
  refine ⟨?_, ?_, ?_⟩
  · rcases hb with rfl | rfl
    · exact .inl rfl
    · exact .inr rfl
  · exact tokenize_eq_bracketed_iff.2 (hglyphs ▸ hinside.isClosed_enclosed rfl rfl)
  · have hquoted : AreQuoted [] (glyphs rule (b.enclose t)) :=
      hglyphs ▸ hinside.areQuoted_enclosed rfl hplain.1 hplain.2
    exact hquoted

/-- A text in square brackets `IsEnclosed` wherever it stands, if it does not close them. -/
theorem isEnclosed_square (rule : SignRule) {t : Text} (h : ']' ∉ t) :
    IsEnclosed rule (Bracket.square.enclose t) :=
  (fills_square h).isEnclosed (.inr rfl) rule

/-- A woven text in round brackets `IsEnclosed` wherever it stands. -/
theorem isEnclosed_weave {rule rule' : SignRule} {runs args : List Text} (hfits : Text.Fits runs args)
    (hruns : ∀ run ∈ runs, ∀ c ∈ run, Bracket.isPlain c = true)
    (hargs : ∀ arg ∈ args, IsEnclosed rule' arg) :
    IsEnclosed rule (Bracket.round.enclose (Text.weave runs args)) :=
  (fills_weave (by decide) hfits hruns hargs).isEnclosed (.inl rfl) rule

/-- A text without brackets, in round ones, `IsEnclosed`. -/
theorem isEnclosed_of_plain (rule : SignRule) {t : Text} (h : ∀ c ∈ t, Bracket.isPlain c = true) :
    IsEnclosed rule (Bracket.round.enclose t) :=
  (fills_of_plain .round h).isEnclosed (.inl rfl) rule

end BlockScript
