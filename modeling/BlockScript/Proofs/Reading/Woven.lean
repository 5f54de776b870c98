import BlockScript.Proofs.Reading.Name
import BlockScript.Proofs.Reading.Success
import BlockScript.Proofs.Token.Woven

/-!
# Lines with arguments

A line that is woven from runs and arguments is read as the block that has the runs with slots between them
for its spec, and its arguments are read into the slots. So the spec of the block that comes out of it is
the spec by which it has been looked up.

## Key results

- `Fragment.form_of_isWoven`: what a woven line is taken for
- `Line.readLine_ok_of_isWoven`: a woven line gives the block that it is taken for
- `Fragment.spec_of_fillSlots`: filling slots leaves the spec of a block alone
- `Fragment.read_succ_eq_of_ok`: what can be read with some levels is read in the same way with more
-/

namespace BlockScript

/-! ## Trimming -/

namespace Text

/-- The blanks at the end of a woven text are those at the end of its last run. -/
private theorem trimRight_weave {runs args : List Text} (hfits : Fits runs args)
    (hargs : ∀ arg ∈ args, IsTight arg) :
    trimRight (weave runs args) = weave (Fragment.trimEnds.trimLast runs) args := by
  induction hfits with
  | last run => simp [Fragment.trimEnds.trimLast]
  | @step run arg runs args later ih =>
    obtain ⟨harg, hargs⟩ := List.forall_mem_cons.1 hargs
    obtain ⟨next, runs, rfl⟩ := later.exists_cons
    -- an argument ends in no blank, so trimming stops in what follows it
    have hlast : (run ++ arg).getLast?.any isBlank = false := by
      rw [List.getLast?_append_of_ne_nil _ harg.filled]
      exact harg.last
    have htrim : Fragment.trimEnds.trimLast (run :: next :: runs) =
        run :: Fragment.trimEnds.trimLast (next :: runs) := rfl
    rw [weave_cons, ← List.append_assoc, trimRight_append hlast (by simp [harg.filled]), ih hargs,
      htrim, weave_cons, List.append_assoc]

/-- The blanks that `trim` drops of a woven text are those at the ends of its outer runs. -/
theorem trim_weave {runs args : List Text} (hfits : Fits runs args) (hargs : ∀ arg ∈ args, IsTight arg) :
    trim (weave runs args) = weave (Fragment.trimEnds runs) args := by
  -- an argument keeps the blanks behind it, so only the first run is trimmed at the left
  cases hfits with
  | last run => simp [Fragment.trimEnds]
  | @step run arg runs args later =>
    obtain ⟨harg, hargs'⟩ := List.forall_mem_cons.1 hargs
    obtain ⟨next, runs, rfl⟩ := later.exists_cons
    have hfirst : (arg ++ weave (next :: runs) args).head?.any isBlank = false := by
      rw [List.head?_append_of_ne_nil _ harg.filled]
      exact harg.first
    rw [weave_cons, trim, trimLeft_append hfirst (by simp [harg.filled]), ← weave_cons,
      trimRight_weave (.step (trimLeft run) arg later) hargs]
    rfl

end Text

namespace Fragment

/-! ## The pieces of a woven line -/

private theorem trimLast_eq_self {pieces : List Text} (hfilled : ∀ p ∈ pieces, p ≠ [])
    (hlast : pieces.flatten.getLast?.any Text.isBlank = false) : trimEnds.trimLast pieces = pieces := by
  induction pieces with
  | nil => rfl
  | cons t ts ih =>
    obtain ⟨ht, hts⟩ := List.forall_mem_cons.1 hfilled
    cases ts with
    | nil =>
      have hright := Text.trimRight_append (t := []) (by simpa using hlast) ht
      rw [List.append_nil] at hright
      rw [trimEnds.trimLast, hright]
      exact congrArg (· :: []) (List.append_nil t)
    | cons u us =>
      -- the last character is that of the last piece
      have hrest : (u :: us).flatten ≠ [] := by simp [hts u List.mem_cons_self]
      rw [List.flatten_cons, List.getLast?_append_of_ne_nil _ hrest] at hlast
      exact congrArg (List.cons t) (ih hts hlast)

/-- Pieces that make up a trimmed text have no blanks at their ends. -/
private theorem trimEnds_eq_self {pieces : List Text} (hfilled : ∀ p ∈ pieces, p ≠ [])
    (htrim : Text.trim pieces.flatten = pieces.flatten) : trimEnds pieces = pieces := by
  obtain ⟨hfirst, hlast⟩ := Text.isBlank_of_trim_eq_self htrim
  cases pieces with
  | nil => rfl
  | cons t ts =>
    obtain ⟨ht, hts⟩ := List.forall_mem_cons.1 hfilled
    cases ts with
    | nil => simpa [trimEnds] using htrim
    | cons u us =>
      -- the first character is that of the first piece, the last one that of the last
      have hrest : (u :: us).flatten ≠ [] := by simp [hts u List.mem_cons_self]
      rw [List.flatten_cons, List.head?_append_of_ne_nil _ ht] at hfirst
      rw [List.flatten_cons, List.getLast?_append_of_ne_nil _ hrest] at hlast
      have hleft : Text.trimLeft t = t := Text.trimLeft_append (s := []) hfirst ht
      have hends : trimEnds (t :: u :: us) = Text.trimLeft t :: trimEnds.trimLast (u :: us) := rfl
      rw [hends, hleft, trimLast_eq_self hts hlast]

/-- Pieces that are empty are nothing in `specOf`. -/
theorem specOf_filter (pieces : List Text) : specOf (pieces.filter (· ≠ [])) = specOf pieces := by
  rw [specOf, specOf, Piece.spec, Piece.spec, List.flatMap_map, List.flatMap_map]
  congr 1
  refine Lists.flatMap_filter_of_nil fun t ht => ?_
  obtain rfl : t = [] := by simpa using ht
  rfl

section

variable {runs args : List Text} (hfits : Text.Fits runs args)
  (hruns : ∀ run ∈ runs, Bracket.leading? run = none)
  (hargs : ∀ arg ∈ args, (Bracket.leading? arg).isSome = true)

include hfits hruns hargs

/-- `argumentsOf` finds among the pieces those arguments that have been put there. -/
theorem argumentsOf_interleave : argumentsOf ((Text.interleave runs args).filter (· ≠ [])) = args := by
  -- dropping empty pieces drops no argument
  have hall : argumentsOf ((Text.interleave runs args).filter (· ≠ [])) =
      argumentsOf (Text.interleave runs args) := by
    rw [argumentsOf, argumentsOf, List.filter_filter]
    refine List.filter_congr fun t _ => ?_
    cases t <;> simp [Bracket.leading?]
  rw [hall]
  clear hall
  induction hfits with
  | last run => simp [Text.interleave, argumentsOf, hruns run List.mem_cons_self]
  | step run arg _ ih =>
    obtain ⟨hrun, hruns⟩ := List.forall_mem_cons.1 hruns
    obtain ⟨harg, hargs⟩ := List.forall_mem_cons.1 hargs
    have hlater := ih hruns hargs
    rw [argumentsOf] at hlater
    simp [Text.interleave, argumentsOf, hrun, harg, hlater]

/-- The spec of the pieces has the `runs`, and slots between them. -/
theorem specOf_interleave :
    specOf ((Text.interleave runs args).filter (· ≠ [])) = Text.padSlots (Text.slotted runs) := by
  rw [specOf_filter, specOf, Piece.spec, hfits.slotted_eq_weave]
  congr 1
  induction hfits with
  | last run => simp [Text.interleave, Piece.inSpec, hruns run List.mem_cons_self]
  | step run arg _ ih =>
    obtain ⟨hrun, hruns⟩ := List.forall_mem_cons.1 hruns
    obtain ⟨harg, hargs⟩ := List.forall_mem_cons.1 hargs
    simpa [Text.interleave, Piece.inSpec, hrun, harg] using ih hruns hargs

end

/-! ## Slots -/

/-- `partsAt` cuts a text, and drops nothing. -/
theorem flatten_partsAt (isMark : Char → Bool) (t : Text) : (partsAt isMark t).flatten = t := by
  induction t with
  | nil => rfl
  | cons c rest ih =>
    rw [partsAt]
    split
    · simp [ih]
    · split
      · rename_i d part parts hparts
        rw [hparts] at ih
        split <;> simp [← ih]
      · simp [ih]

/-- In `partsAt` each underscore of a text is a part of its own. -/
theorem count_partsAt (adds : Bool) (t : Text) : (partsAt (isMark adds) t).count ['_'] = t.count '_' := by
  have hslot : isMark adds '_' = true := by
    cases adds <;> decide
  induction t with
  | nil => rfl
  | cons c rest ih =>
    rw [partsAt]
    by_cases hc : c = '_'
    · subst hc
      rw [if_pos hslot, List.count_cons_self, List.count_cons_self, ih]
    · -- a part that starts with another character is no slot
      have hne : ∀ part, c :: part ≠ ['_'] := fun part hpart => hc (List.cons.inj hpart).1
      rw [List.count_cons_of_ne hc, ← ih]
      split
      · rw [List.count_cons_of_ne (hne [])]
      · rename_i hmark
        split
        · rename_i d part parts hparts
          rw [hparts]
          split
          · rw [List.count_cons_of_ne (hne [])]
          · rename_i hd
            -- what is no mark is no slot either
            have hd' : d :: part ≠ ['_'] := fun hpart => hd (by rw [(List.cons.inj hpart).1, hslot])
            rw [List.count_cons_of_ne (hne _), List.count_cons_of_ne hd']
        · rw [List.count_cons_of_ne (hne [])]

/-- The blocks in the slots leave the `spec` as it is, if nothing else of the text is taken for one. -/
theorem spec_of_fillSlots {nested : Text → Outcome Block} {parts args : List Text} {ps : List Piece}
    (h : (fillSlots nested parts args).result = .ok ps)
    (hparts : ∀ part ∈ parts, Bracket.leading? part = none) :
    Piece.spec ps = Text.padSlots parts.flatten := by
  rw [Piece.spec]
  congr 1
  -- part by part: a block is shown as a slot again, and any other part as it is
  induction parts generalizing args ps with
  | nil =>
    cases h
    rfl
  | cons part parts ih =>
    obtain ⟨hpart, hlater⟩ := List.forall_mem_cons.1 hparts
    unfold fillSlots at h
    split at h
    · rename_i arg args
      -- a slot is filled, and shown as a slot
      obtain ⟨b, qs, -, hqs, rfl⟩ := Outcome.andThen_map_eq_ok h
      rw [List.flatMap_cons, ih hqs hlater]
      rfl
    · obtain ⟨qs, hqs, rfl⟩ := Outcome.map_eq_ok h
      rw [List.flatMap_cons, ih hqs hlater]
      simp [Piece.inSpec, hpart]

/-! ## One more level -/

/-- If every argument that can be read is read in the same way, slots that can be filled are filled in the
    same way too. -/
private theorem fillSlots_congr {nested nested' : Text → Outcome Block} {parts args : List Text}
    {ps : List Piece}
    (hnested : ∀ arg b, (nested arg).result = .ok b → nested' arg = nested arg)
    (h : (fillSlots nested parts args).result = .ok ps) :
    fillSlots nested' parts args = fillSlots nested parts args := by
  induction parts generalizing args ps with
  | nil => rfl
  | cons part parts ih =>
    unfold fillSlots at h ⊢
    split at h
    · rename_i arg args
      obtain ⟨b, qs, hb, hqs, rfl⟩ := Outcome.andThen_map_eq_ok h
      rw [hnested arg b hb, ih hqs]
    · obtain ⟨qs, hqs, rfl⟩ := Outcome.map_eq_ok h
      rw [ih hqs]

/-- What `read` can read with some levels it reads in the same way with more. -/
theorem read_succ_eq_of_ok {v : Vocabulary} {depth : Nat} {isLine : Bool} {code : Text} {b : Block}
    (h : (read v depth isLine code).result = .ok b) :
    read v (depth + 1) isLine code = read v depth isLine code := by
  induction depth generalizing isLine code b with
  | zero => cases h
  | succ depth ih =>
    rw [read_succ_result] at h
    rw [read, read, readWith_eq_form, readWith_eq_form]
    cases hform : form v isLine code with
    | missing id => rfl
    | whole b₀ => rfl
    | block attrs words parts args =>
      rw [hform] at h
      obtain ⟨ps, hps, -⟩ := finish_eq_ok h
      -- an argument is read by a level less, where the induction hypothesis speaks of it
      have hsame : ∀ arg c, (read v depth false arg).result = .ok c →
          read v (depth + 1) false arg = read v depth false arg := fun _ _ => ih
      rw [Form.read, Form.read, fillSlots_congr hsame hps]

/-- So an argument that `readArgument` can read is read in the same way by `Vocabulary.readFragment`. -/
theorem readFragment_eq_of_ok {v : Vocabulary} {arg : Text} {b : Block}
    (h : (readArgument v arg).result = .ok b) : v.readFragment false arg = readArgument v arg := by
  have hlimit : nestingLimit = nestingLimit - 1 + 1 := by
    have := two_le_nestingLimit
    omega
  rw [Vocabulary.readFragment, hlimit]
  exact read_succ_eq_of_ok h

/-- What `readArgument` reads is the same block for `readFragment`. -/
theorem readFragment_of_ok {v : Vocabulary} {arg : Text} {b : Block}
    (h : (readArgument v arg).result = .ok b) : (v.readFragment false arg).result = .ok b := by
  rw [readFragment_eq_of_ok h]
  exact h

end Fragment

/-! ## Woven lines -/

/-- An argument `IsTight`: it has no blanks at its ends. -/
theorem IsEnclosed.isTight {rule : SignRule} {t : Text} (h : IsEnclosed rule t) : Text.IsTight t := by
  obtain ⟨b, inner, rfl⟩ := h.exists_enclosed
  exact b.isTight_enclose inner

/-- Whether a text is woven from runs and arguments, with no blanks at its ends. In the runs no bracket
    opens and no overrides start. -/
structure IsInterwoven (v : Vocabulary) (runs args : List Text) : Prop where
  fits : Text.Fits runs args
  enclosed : ∀ arg ∈ args, IsEnclosed v.signRule arg
  bare : AreBare (v.signRule (Text.weave runs args)).holds [] runs args
  literal : ∀ run ∈ runs, Bracket.leading? run = none
  uncoloned : ∀ run ∈ runs, ¬ "::".toList <:+: run
  trimmed : Text.trim (Text.weave runs args) = Text.weave runs args

namespace IsInterwoven

variable {v : Vocabulary} {runs args : List Text}

/-- The `texts` of the tokens are the `runs` and the arguments, less the empty ones. -/
theorem texts_eq (h : IsInterwoven v runs args) :
    (tokenize v.signRule (Text.weave runs args)).texts = (Text.interleave runs args).filter (· ≠ []) := by
  rw [tokenize_weave h.fits h.bare h.enclosed,
    texts_wovenTokens runs fun arg harg => (h.enclosed arg harg).ne_nil]

/-- `split` finds no overrides in the spec of a text that `IsInterwoven`. -/
theorem split_eq_self (h : IsInterwoven v runs args) :
    Override.split (Text.padSlots (Text.slotted runs)) = (Text.padSlots (Text.slotted runs), []) := by
  refine Override.split_eq_self fun hwithin => ?_
  have hslotted := Text.isInfix_of_isInfix_padSlots (by decide) hwithin
  rw [h.fits.slotted_eq_weave] at hslotted
  refine Text.not_isInfix_weave (c := ':') (h.fits.map_args _) h.uncoloned (fun slot hslot => ?_) hslotted
  obtain ⟨-, -, rfl⟩ := List.mem_map.1 hslot
  exact ⟨by simp, fun hslot => by simpa using hslot.length_le, by simp, by simp⟩

/-- The `form` of a fragment with a text that `IsInterwoven` is the block that is found by its spec, unless it
    is a header or an insert. -/
theorem form_eq (h : IsInterwoven v runs args) {isLine : Bool} {code : Text} {attrs : Attrs} {text : Text}
    (hcode : (if isLine then code else Bracket.strip code) = Text.weave runs args)
    (hheader : v.header? (Text.weave runs args) = none)
    (hinsert : Fragment.insertShape? (Fragment.outerBracket isLine code)
      ((Text.interleave runs args).filter (· ≠ [])) (Text.weave runs args) = none)
    (hidentify : Fragment.identify v (Text.padSlots (Text.slotted runs)) args
      (Fragment.blockShape (Fragment.outerBracket isLine code)
        ((Text.interleave runs args).filter (· ≠ [])) (Text.weave runs args)) = .ok ⟨attrs, text⟩) :
    Fragment.form v isLine code =
      .block attrs [] (Fragment.partsAt (Fragment.isMark (attrs.id == some "_ + _".toList)) text) args := by
  have hleading : ∀ arg ∈ args, (Bracket.leading? arg).isSome = true :=
    fun arg harg => (h.enclosed arg harg).leading?_isSome
  -- the text is trimmed, so its pieces are the runs and arguments as they are
  have htrim : Fragment.trimEnds ((Text.interleave runs args).filter (· ≠ [])) =
      (Text.interleave runs args).filter (· ≠ []) := by
    have hflatten := flatten_texts_tokenize v.signRule (Text.weave runs args)
    rw [h.texts_eq] at hflatten
    refine Fragment.trimEnds_eq_self (fun p hp => by simpa using (List.mem_filter.1 hp).2) ?_
    rw [hflatten, h.trimmed]
  have hspec := Fragment.specOf_interleave h.fits h.literal hleading
  have hargs := Fragment.argumentsOf_interleave h.fits h.literal hleading
  simp only [Fragment.form, hcode, hheader, h.texts_eq, hinsert, htrim, hspec, hargs, h.split_eq_self,
    hidentify]

end IsInterwoven

/-- Whether a line is woven from runs and arguments, and neither a header nor one argument alone. No
    comment and no overrides start in the runs. -/
structure IsWoven (v : Vocabulary) (runs args : List Text) : Prop where
  fits : Text.Fits runs args
  arguments : ∀ arg ∈ args, IsArgument v.signRule arg
  bare : AreBare (v.signRule (Text.weave runs args)).holds [] runs args
  literal : ∀ run ∈ runs, Bracket.leading? run = none
  unslashed : ∀ run ∈ runs, ¬ "//".toList <:+: run
  uncoloned : ∀ run ∈ runs, ¬ "::".toList <:+: run
  filled : ∃ run ∈ runs, run ≠ []
  trimmed : Text.trim (Text.weave runs args) = Text.weave runs args
  unheaded : v.header? (Text.weave runs args) = none

namespace IsWoven

variable {v : Vocabulary} {runs args : List Text}

/-- What is woven from a spec is interwoven. -/
theorem isInterwoven (h : IsWoven v runs args) : IsInterwoven v runs args where
  fits := h.fits
  enclosed := fun arg harg => (h.arguments arg harg).toIsEnclosed
  bare := h.bare
  literal := h.literal
  uncoloned := h.uncoloned
  trimmed := h.trimmed

/-- No comment starts in a line that `IsWoven`. -/
theorem splitComment_eq_none (h : IsWoven v runs args) :
    Line.splitComment [] (Text.weave runs args) = none :=
  Line.splitComment_eq_none (not_slashes_weave h.fits h.unslashed h.arguments) []

/-- A woven line is not an argument alone. -/
private theorem isLoneArgument_eq_false (h : IsWoven v runs args) :
    Line.isLoneArgument v (Text.weave runs args) = false := by
  rw [Line.isLoneArgument, Bool.and_eq_false_iff]
  by_cases hlength : (tokenize v.signRule (Text.weave runs args)).tokens.length = 1
  · -- a single token is the run that is not empty
    left
    obtain ⟨token, htoken⟩ := List.length_eq_one_iff.1 hlength
    obtain ⟨run, hrun, hfilled⟩ := h.filled
    have hmem : run ∈ (tokenize v.signRule (Text.weave runs args)).texts := by
      rw [h.isInterwoven.texts_eq]
      exact List.mem_filter.2 ⟨h.fits.mem_interleave hrun, by simpa using hfilled⟩
    have hflatten := flatten_texts_tokenize v.signRule (Text.weave runs args)
    rw [Tokens.texts, htoken] at hmem hflatten
    obtain rfl : run = token.text := by simpa using hmem
    have hline : token.text = Text.weave runs args := by simpa using hflatten
    rw [← hline, h.literal _ hrun]
    rfl
  · exact .inr (by simpa using hlength)

end IsWoven

namespace Fragment

/-- The `form` of a line that `IsWoven` is the block that is found by its spec. -/
theorem form_of_isWoven {v : Vocabulary} {runs args : List Text} {attrs : Attrs} {text : Text}
    (h : IsWoven v runs args)
    (hidentify : identify v (Text.padSlots (Text.slotted runs)) args .stack = .ok ⟨attrs, text⟩) :
    form v true (Text.weave runs args) =
      .block attrs [] (partsAt (isMark (attrs.id == some "_ + _".toList)) text) args := by
  refine h.isInterwoven.form_eq rfl h.unheaded (insertShape?_none _ _) ?_
  rw [outerBracket, if_pos rfl, blockShape_none, hidentify]

end Fragment

namespace Line

/-- A line that `IsWoven` is read by `readFragment`, as the fragment that it is. -/
theorem readLine_of_isWoven {v : Vocabulary} {runs args : List Text} (h : IsWoven v runs args) :
    v.readLine (Text.weave runs args) =
      withComment v none (v.readFragment true (Text.weave runs args)) := by
  simp only [Vocabulary.readLine, h.trimmed, h.splitComment_eq_none, readBare, h.isLoneArgument_eq_false,
    Bool.false_eq_true, if_false]

/-- Without a comment `withComment` settles the block, and that is all. -/
theorem withComment_none_result (v : Vocabulary) (o : Outcome Block) :
    (withComment v none o).result = o.result.map (settleLine v none) := by
  unfold withComment
  cases o.result with
  | error f => rfl
  | ok b =>
    dsimp only
    unfold applyDirective
    split <;> rfl

/-- A line that `IsWoven` and has the `form` of a block gives the block with its slots filled. -/
theorem readLine_result_of_isWoven {v : Vocabulary} {runs args parts : List Text} {attrs : Attrs}
    (h : IsWoven v runs args)
    (hform : Fragment.form v true (Text.weave runs args) = .block attrs [] parts args) :
    (v.readLine (Text.weave runs args)).result =
      (Fragment.fillSlots (Fragment.readArgument v) parts args).result.map
        fun ps => settleLine v none ⟨attrs, ps⟩ := by
  rw [readLine_of_isWoven h, withComment_none_result, Fragment.readFragment_result, hform,
    Fragment.Form.read, Fragment.finish]
  cases (Fragment.fillSlots (Fragment.readArgument v) parts args).result <;> rfl

/-- If a line that `IsWoven` cannot be read, then one of its arguments cannot. -/
theorem exists_arg_of_isWoven {v : Vocabulary} {runs args parts : List Text} {attrs : Attrs} {f : Fault}
    (h : IsWoven v runs args)
    (hform : Fragment.form v true (Text.weave runs args) = .block attrs [] parts args)
    (hfault : (v.readLine (Text.weave runs args)).result = .error f) :
    ∃ arg ∈ args, (Fragment.readArgument v arg).result = .error f := by
  rw [readLine_result_of_isWoven h hform] at hfault
  refine @Fragment.fillSlots_eq_error _ parts _ _ ?_
  cases hslots : (Fragment.fillSlots (Fragment.readArgument v) parts args).result with
  | error g =>
    rw [hslots] at hfault
    cases hfault
    rfl
  | ok ps =>
    rw [hslots] at hfault
    cases hfault

/-- If the vocabulary is `Drawable`, nothing but nesting can keep it from being read. -/
theorem readLine_ok_of_isWoven {v : Vocabulary} {runs args parts : List Text} {attrs : Attrs}
    (hv : v.Drawable) (h : IsWoven v runs args)
    (hform : Fragment.form v true (Text.weave runs args) = .block attrs [] parts args)
    (hdeep : (v.readLine (Text.weave runs args)).result ≠ .error .tooDeep) :
    ∃ ps, (Fragment.fillSlots (Fragment.readArgument v) parts args).result = .ok ps ∧
      (v.readLine (Text.weave runs args)).result = .ok (settleLine v none ⟨attrs, ps⟩) := by
  have hresult := readLine_result_of_isWoven h hform
  cases hslots : (Fragment.fillSlots (Fragment.readArgument v) parts args).result with
  | error f =>
    rw [hslots] at hresult
    rw [Vocabulary.readLine_eq_error hv hresult] at hresult
    exact absurd hresult hdeep
  | ok ps =>
    rw [hslots] at hresult
    exact ⟨ps, rfl, hresult⟩

end Line

end BlockScript
