import BlockScript.Proofs.Reading.Sighted
import BlockScript.Proofs.Reading.Woven
import BlockScript.Proofs.Token.Enclosed

/-!
# Headers of defined blocks

A header is woven from runs and parameters in round brackets, with a word in front. It defines the key of
its runs with slots between them. If a comment starts in a parameter, all behind the start is cut off; the
parameter is left open then, which makes no difference to its slot.

## Key results

- `Fragment.specOf_outlineTexts`: the outline of a header has the spec of its runs
- `Line.definitions_of_shape_ne`: nothing but a header defines anything
- `Line.exists_slashes`: where the first two slashes of a header are
- `Line.definition_mem_sightings`: a header defines what its runs say, as far as they are shown
-/

namespace BlockScript

/-! ## The spec of an outline -/

namespace Fragment

/-- An outline has the `spec` of the pieces that it is made of. -/
private theorem spec_outline (pieces : List Text) :
    Piece.spec (pieces.filterMap outlinePiece?) = specOf pieces := by
  rw [Piece.spec, specOf, Piece.spec]
  congr 1
  induction pieces with
  | nil => rfl
  | cons t pieces ih =>
    rw [List.map_cons, List.flatMap_cons, ← ih, List.filterMap_cons]
    -- a parameter shows as a slot, as the piece that it comes from does
    by_cases hleading : (Bracket.leading? t).isSome = true
    · simp [outlinePiece?, hleading, Piece.inSpec, Block.toPiece]
    · by_cases ht : t = []
      · subst ht
        rfl
      · simp [outlinePiece?, hleading, ht, Piece.inSpec]

/-- A text without brackets that open has none at its start. -/
theorem leading?_of_ofOpener? {t : Text} (h : ∀ c ∈ t, Bracket.ofOpener? c = none) :
    Bracket.leading? t = none := by
  cases t with
  | nil => rfl
  | cons c rest => exact h c List.mem_cons_self

/-- A header that is cut into runs and parameters has `outlineTexts` with the spec of the runs. -/
theorem specOf_outlineTexts {word u : Text} {runs args : List Text} (hword : word ≠ [])
    (hfits : Text.Fits (u :: runs) args) (hruns : ∀ run ∈ u :: runs, ∀ c ∈ run, Bracket.ofOpener? c = none)
    (hargs : ∀ arg ∈ args, (Bracket.leading? arg).isSome = true) :
    specOf (outlineTexts word ((Text.interleave ((word ++ u) :: runs) args).filter (· ≠ []))) =
      Text.padSlots (Text.slotted (Text.trimLeft u :: runs)) := by
  obtain ⟨rest, hrest⟩ : ∃ rest, ∀ run : Text, Text.interleave (run :: runs) args = run :: rest := by
    cases args <;> exact ⟨_, fun _ => rfl⟩
  have hpieces : outlineTexts word ((Text.interleave ((word ++ u) :: runs) args).filter (· ≠ [])) =
      Text.trimLeft u :: rest.filter (· ≠ []) := by
    rw [hrest, List.filter_cons_of_pos (by simp [hword]), outlineTexts, List.drop_left]
  -- an empty run is no token, but it makes no difference for the spec
  have hfilter : (Text.trimLeft u :: rest.filter (· ≠ [])).filter (· ≠ []) =
      (Text.interleave (Text.trimLeft u :: runs) args).filter (· ≠ []) := by
    rw [hrest, List.filter_cons, List.filter_cons, List.filter_filter]
    simp
  have hliteral : ∀ run ∈ Text.trimLeft u :: runs, Bracket.leading? run = none := by
    obtain ⟨hu, hruns⟩ := List.forall_mem_cons.1 hruns
    refine List.forall_mem_cons.2 ⟨?_, fun run hrun => leading?_of_ofOpener? (hruns run hrun)⟩
    exact leading?_of_ofOpener? fun c hc => hu c (List.dropWhile_subset _ hc)
  have hfits : Text.Fits (Text.trimLeft u :: runs) args := hfits.of_length rfl rfl
  rw [hpieces, ← specOf_filter, hfilter, specOf_interleave hfits hliteral hargs]

end Fragment

namespace Line

/-! ## What a header defines -/

/-- In English a line that starts with `define` and a space is a header. -/
theorem english_header?_define (folded : Bool) {rest : Text} (h : rest.head?.all (· == ' ') = true) :
    (Vocabulary.english folded).header? ("define".toList ++ rest) = some "define".toList := by
  rw [Vocabulary.header?, Vocabulary.english_headerWords, List.find?_cons_of_pos]
  rw [List.drop_left, List.take_left, h, Bool.true_and, beq_self_eq_true]

/-- A header defines the spec of its outline. -/
private theorem definition_mem_of_header {v : Vocabulary} {line word : Text}
    (hheader : v.header? line = some word)
    (hlone : isLoneArgument v line = false) (comment : Option Text) :
    .definition (v.key (Fragment.specOf (Fragment.outlineTexts word (tokenize v.signRule line).texts))) ∈
      (withComment v comment (readBare v line)).sightings := by
  have hform : Fragment.form v true line =
      .whole (Fragment.definition line word (tokenize v.signRule line).texts) := by
    simp only [Fragment.form, if_true, hheader]
  have hresult := Fragment.readFragment_result v true line
  rw [hform] at hresult
  have houtline : outlineOf (Fragment.definition line word (tokenize v.signRule line).texts) =
      (Fragment.outlineTexts word (tokenize v.signRule line).texts).filterMap Fragment.outlinePiece? := rfl
  have hdirective : ∀ pieces, applyDirective comment (Fragment.definition line word pieces) =
      (Fragment.definition line word pieces, comment) := fun _ => rfl
  have hshape : ∀ pieces, (Fragment.definition line word pieces).attrs.shape = some .defineHat :=
    fun _ => rfl
  -- a comment has no say about a header, so the outline is that of the definition
  simp only [readBare, hlone, Bool.false_eq_true, if_false, withComment, hresult,
    Fragment.Form.read, Outcome.done, hdirective, lineSightings, hshape, if_true, headerSightings,
    houtline, Fragment.spec_outline]
  simp

/-- A text that is cut into runs and parameters behind the word for headers defines what the runs say. -/
private theorem definition_mem_of_texts {folded : Bool} {u : Text} {runs args : List Text}
    (hfits : Text.Fits (u :: runs) args) (hruns : ∀ run ∈ u :: runs, ∀ c ∈ run, Bracket.ofOpener? c = none)
    (hargs : ∀ arg ∈ args, (Bracket.leading? arg).isSome = true)
    (hspace : (Text.weave (u :: runs) args).head?.all (· == ' ') = true)
    (htexts : (tokenize (Vocabulary.english folded).signRule
      ("define".toList ++ Text.weave (u :: runs) args)).texts =
        (Text.interleave (("define".toList ++ u) :: runs) args).filter (· ≠ []))
    (comment : Option Text) :
    .definition ((Vocabulary.english folded).key (Text.padSlots (Text.slotted (Text.trimLeft u :: runs)))) ∈
      (withComment (Vocabulary.english folded) comment (readBare (Vocabulary.english folded)
        ("define".toList ++ Text.weave (u :: runs) args))).sightings := by
  have hmem := definition_mem_of_header (english_header?_define folded hspace) rfl comment
  rwa [htexts, Fragment.specOf_outlineTexts (by decide) hfits hruns hargs] at hmem

/-! ## What headers alone define -/

/-- A line that `readLine` takes for no header does not define anything. -/
theorem definitions_of_shape_ne {v : Vocabulary} {line : Text} {b : Block}
    (h : (v.readLine line).result = .ok b) (hshape : b.attrs.shape ≠ some .defineHat) :
    (v.readLine line).sightings.filterMap Sighting.definition? = [] :=
  (Sighting.defines_nothing (isUse_or_call h hshape)).1

/-! ## Headers with a comment -/

/-- The header of a block with the given runs, and with parameters in round brackets between them. -/
def headerLine (runs params : List Text) : Text :=
  "define ".toList ++ Text.weave runs (params.map Bracket.round.enclose)

/-- The runs in front of the first parameter with two slashes in it, and an empty one behind it. -/
def runsBeforeSlashes : List Text → List Text → List Text
  | run :: runs, param :: params =>
    if "//".toList <:+: param then [run, []] else run :: runsBeforeSlashes runs params
  | runs, _ => runs

/-- The runs in front of the slashes are runs of the header, or the rest of one that was empty. -/
private theorem eq_nil_or_mem_of_mem_runsBeforeSlashes {runs params : List Text} {run : Text}
    (h : run ∈ runsBeforeSlashes runs params) : run = [] ∨ run ∈ runs := by
  induction runs generalizing params with
  | nil => simp [runsBeforeSlashes] at h
  | cons first runs ih =>
    cases params with
    | nil => exact .inr h
    | cons param params =>
      rw [runsBeforeSlashes] at h
      -- the runs end with the first parameter that has slashes in it, and an empty one follows
      split at h
      · rcases List.mem_cons.1 h with rfl | h
        · exact .inr List.mem_cons_self
        · exact .inl (List.mem_singleton.1 h)
      · rcases List.mem_cons.1 h with rfl | h
        · exact .inr List.mem_cons_self
        · exact (ih h).imp_right (List.mem_cons_of_mem first)

/-- The runs of a header that are shown: if a comment starts in a parameter, it ends with this one. -/
def shownRuns (runs params : List Text) : List Text :=
  if (splitComment [] (headerLine runs params)).isSome then runsBeforeSlashes runs params else runs

/-- Where the first two slashes of woven runs and parameters are: in a parameter, behind some of them and
    behind the beginning of the parameter. -/
structure SlashesAt (runs params runs' params' : List Text) (t back : Text) : Prop where
  fits : Text.Fits runs' params'
  runs_subset : runs' ⊆ runs
  params_subset : params' ⊆ params
  inside : ∃ param ∈ params, t ⊆ param
  before : runsBeforeSlashes runs params = runs' ++ [[]]
  weave_eq : Text.weave runs (params.map Bracket.round.enclose) =
    (Text.weave runs' (params'.map Bracket.round.enclose) ++ '(' :: t) ++ '/' :: '/' :: back
  first : ¬ "//".toList <:+: (Text.weave runs' (params'.map Bracket.round.enclose) ++ '(' :: t) ++ ['/']

/-- If there are any slashes in a header, the first two are in a parameter, where `SlashesAt` tells. -/
theorem exists_slashes {runs params : List Text} (hfits : Text.Fits runs params)
    (hruns : ∀ run ∈ runs, ¬ "//".toList <:+: run) :
    ¬ "//".toList <:+: Text.weave runs (params.map Bracket.round.enclose) ∨
      ∃ runs' params' t back, SlashesAt runs params runs' params' t back := by
  induction hfits with
  | last run => exact .inl (by simpa using hruns)
  | @step run param runs params later ih =>
    obtain ⟨hrun, hruns⟩ := List.forall_mem_cons.1 hruns
    -- a parameter without two slashes keeps them out of what is in front
    have hapart : ∀ {rest : Text}, ¬ "//".toList <:+: param → ¬ "//".toList <:+: rest →
        ¬ "//".toList <:+: run ++ (Bracket.round.enclose param ++ rest) := by
      intro rest hparam hrest
      have hinner := Text.not_isInfix_append_cons (c := '/') (d := ')') (by decide) hparam hrest
      have houter := Text.not_isInfix_append_cons (c := '/') (d := '(') (by decide) hrun hinner
      simpa [Bracket.enclose, Bracket.opener, Bracket.closer] using houter
    by_cases hparam : "//".toList <:+: param
    · right
      -- the slashes are in this parameter
      obtain ⟨t, back, rfl, hfirst⟩ := exists_first_slashes hparam
      refine ⟨[run], [], t, back ++ ')' :: Text.weave runs (params.map Bracket.round.enclose),
        ⟨.last run, by simp, by simp, ⟨_, List.mem_cons_self, ?_⟩, ?_, ?_, ?_⟩⟩
      · exact List.subset_append_left _ _
      · rw [runsBeforeSlashes, if_pos hparam]
        rfl
      · simp [Bracket.enclose, Bracket.opener, Bracket.closer]
      · simpa using Text.not_isInfix_append_cons (c := '/') (d := '(') (by decide) hrun hfirst
    · rcases ih hruns with hnone | ⟨runs', params', t, back, h⟩
      · -- there are none at all
        left
        rw [List.map_cons, Text.weave_cons]
        exact hapart hparam hnone
      · right
        -- or they are in a later one
        obtain ⟨param', hmem, hinside⟩ := h.inside
        refine ⟨run :: runs', param :: params', t, back, ⟨.step run param h.fits, ?_, ?_, ?_, ?_, ?_, ?_⟩⟩
        · exact List.cons_subset_cons _ h.runs_subset
        · exact List.cons_subset_cons _ h.params_subset
        · exact ⟨param', List.mem_cons_of_mem _ hmem, hinside⟩
        · rw [runsBeforeSlashes, if_neg hparam, h.before]
          rfl
        · rw [List.map_cons, Text.weave_cons, h.weave_eq, List.map_cons, Text.weave_cons]
          simp
        · have hfirst := hapart hparam h.first
          simpa [List.map_cons, Text.weave_cons] using hfirst

/-! ## Trimmed headers -/

/-- Blanks at the ends of a text with the word for headers in front are at its end. -/
theorem trim_define (t : Text) : Text.trim ("define".toList ++ t) = "define".toList ++ Text.trimRight t := by
  have hleft : Text.trimLeft ("define".toList ++ t) = "define".toList ++ t := by
    simp [Text.trimLeft, Text.isBlank]
  have hword : "define".toList.getLast?.any Text.isBlank = false := by simp [Text.isBlank]
  have hfilled : "define".toList ≠ [] := by decide
  rw [Text.trim, hleft, Text.trimRight_append hword hfilled]

/-- The word of a `headerLine` stands in front of its first run. -/
theorem headerLine_cons (run : Text) (runs params : List Text) :
    headerLine (run :: runs) params =
      "define".toList ++ Text.weave ((' ' :: run) :: runs) (params.map Bracket.round.enclose) := by
  have hword : "define ".toList = "define".toList ++ [' '] := by decide
  unfold headerLine
  rw [hword, List.append_assoc, Text.append_weave [' '], List.singleton_append]

/-- What is left of a header when its ends are trimmed. -/
private theorem trim_headerLine {runs params : List Text} (hfits : Text.Fits runs params)
    (hparams : ∀ arg ∈ params.map Bracket.round.enclose, Text.IsTight arg) :
    ∃ u later, Text.trim (headerLine runs params) =
        "define".toList ++ Text.weave (u :: later) (params.map Bracket.round.enclose) ∧
      Text.trimLeft u :: later = Fragment.trimEnds runs ∧
      (Text.weave (u :: later) (params.map Bracket.round.enclose)).head?.all (· == ' ') = true := by
  cases hfits with
  -- a header without parameters is trimmed at both ends of its one run
  | last run =>
    refine ⟨Text.trimRight (' ' :: run), [], ?_, ?_, ?_⟩
    · rw [headerLine_cons, trim_define, List.map_nil, Text.weave_last, Text.weave_last]
    · have hblank : ∀ c ∈ [' '], Text.isBlank c = true := by simp [Text.isBlank]
      rw [Text.trimLeft_trimRight]
      exact congrArg (· :: []) (Text.trim_append_left [' '] run hblank)
    · rw [List.map_nil, Text.weave_last]
      have hbegins := Text.trimRight_isPrefix_self (' ' :: run)
      cases hright : Text.trimRight (' ' :: run) with
      | nil => rfl
      | cons c rest =>
        rw [hright] at hbegins
        obtain ⟨rfl, -⟩ := List.cons_prefix_cons.1 hbegins
        rfl
  -- else the word stands in front of the first run, and only the last one is trimmed
  | @step run param runs params later =>
    obtain ⟨next, runs, rfl⟩ := later.exists_cons
    refine ⟨' ' :: run, Fragment.trimEnds.trimLast (next :: runs), ?_, rfl, rfl⟩
    -- there is nothing to trim in front of the word
    have hleft : Text.trimLeft ("define".toList ++ ' ' :: run) = "define".toList ++ ' ' :: run := by
      simp [Text.trimLeft, Text.isBlank]
    have hfits : Text.Fits (("define".toList ++ ' ' :: run) :: next :: runs)
        ((param :: params).map Bracket.round.enclose) :=
      (Text.Fits.step _ param later).map_args _
    rw [headerLine_cons, Text.append_weave, Text.trim_weave hfits hparams, Text.append_weave, ← hleft]
    rfl

/-- No comment starts in the word. -/
private theorem not_isInfix_append_define {t : Text} (h : ¬ "//".toList <:+: t) :
    ¬ "//".toList <:+: "define ".toList ++ t := by
  intro hwithin
  rcases (Text.isInfix_append_iff (c := '/')).1 hwithin with hword | ht | ⟨hlast, -⟩
  · have hnone : '/' ∉ "define ".toList := by decide
    exact hnone (hword.subset List.mem_cons_self)
  · exact h ht
  · exact absurd hlast (by simp)

/-- The front of a header that is cut in a parameter. -/
def frontOf (runs params : List Text) (t : Text) : Text := headerLine runs params ++ '(' :: t

/-- What is in front of the slashes has the word in front of its first run, too. -/
private theorem frontOf_cons (run : Text) (runs params : List Text) (t : Text) :
    frontOf (run :: runs) params t = "define".toList ++
      (Text.weave ((' ' :: run) :: runs) (params.map Bracket.round.enclose) ++ '(' :: t) := by
  rw [frontOf, headerLine_cons, List.append_assoc]

/-- Blanks at the end of the parameter are dropped, as nothing closes it. -/
private theorem trim_frontOf {run : Text} {later params : List Text}
    (hfits : Text.Fits (run :: later) params)
    (t : Text) :
    Text.trim (frontOf (run :: later) params t) = "define".toList ++
      Text.weave ((' ' :: run) :: (later ++ [[]]))
        (params.map Bracket.round.enclose ++ ['(' :: Text.trimRight t]) := by
  have hlast : ∀ s : Text, (s ++ ['(']).getLast?.any Text.isBlank = false := by
    simp [Text.isBlank]
  have hbracket : ∀ s t : Text, s ++ '(' :: t = s ++ ['('] ++ t := by simp
  have hfits : Text.Fits ((' ' :: run) :: later) (params.map Bracket.round.enclose) :=
    hfits.of_length rfl (List.length_map _)
  rw [frontOf_cons, trim_define, hbracket, Text.trimRight_append (hlast _) (by simp), ← hbracket,
    ← List.cons_append, hfits.weave_concat, List.append_nil]

namespace SlashesAt

variable {runs params runs' params' : List Text} {t back : Text}

/-- The line is what is in front of the slashes, the slashes and the comment. -/
private theorem headerLine_eq (h : SlashesAt runs params runs' params' t back) :
    headerLine runs params = frontOf runs' params' t ++ '/' :: '/' :: back := by
  unfold frontOf headerLine
  rw [h.weave_eq, List.append_assoc, List.append_assoc, List.append_assoc]

/-- A comment starts there, unless a colon stands in front. -/
private theorem splitComment_eq (h : SlashesAt runs params runs' params' t back) (back' : Text) :
    splitComment [] (frontOf runs' params' t ++ '/' :: '/' :: back') =
      if (frontOf runs' params' t).getLast? = some ':' then none
      else some (frontOf runs' params' t, back') := by
  have hfirst : ¬ "//".toList <:+: frontOf runs' params' t ++ ['/'] := by
    have hline := not_isInfix_append_define h.first
    unfold frontOf headerLine
    rwa [List.append_assoc, List.append_assoc, ← List.append_assoc _ _ ['/']]
  rw [splitComment_first hfirst, List.append_nil, List.head?_reverse]
  rfl

/-- The blanks at the end of the line are in the comment. -/
private theorem trim_headerLine_eq (h : SlashesAt runs params runs' params' t back) :
    Text.trim (headerLine runs params) = frontOf runs' params' t ++ '/' :: '/' :: Text.trimRight back := by
  obtain ⟨run, later, rfl⟩ := h.fits.exists_cons
  have hlast : ∀ s : Text, (s ++ ['/', '/']).getLast?.any Text.isBlank = false := by
    simp [Text.isBlank]
  have hslashes : ∀ s t : Text, s ++ '/' :: '/' :: t = s ++ ['/', '/'] ++ t := by simp
  rw [h.headerLine_eq, frontOf_cons, List.append_assoc, trim_define, hslashes,
    Text.trimRight_append (hlast _) (by simp), ← hslashes]
  simp only [List.append_assoc]

/-- If the slashes start a comment the header is what stands in front of them. -/
private theorem readLine_eq (h : SlashesAt runs params runs' params' t back)
    (hcolon : (frontOf runs' params' t).getLast? ≠ some ':') (v : Vocabulary) :
    ∃ comment, v.readLine (headerLine runs params) =
      withComment v comment (readBare v (Text.trim (frontOf runs' params' t))) := by
  have hfilled : Text.trim (frontOf runs' params' t) ≠ [] := by
    obtain ⟨run, later, rfl⟩ := h.fits.exists_cons
    rw [trim_frontOf h.fits]
    exact List.append_ne_nil_of_left_ne_nil (by decide) _
  simp only [Vocabulary.readLine, h.trim_headerLine_eq, h.splitComment_eq, if_neg hcolon]
  generalize Text.trim (frontOf runs' params' t) = front at hfilled ⊢
  cases front with
  | nil => exact absurd rfl hfilled
  | cons c front => exact ⟨_, rfl⟩

end SlashesAt

/-! ## Definitions -/

/-- The spec of a call of the block whose header has the given runs. -/
def callSpec (runs : List Text) : Text := Text.padSlots (Text.slotted (Fragment.trimEnds runs))

/-- Whether a text stands for itself in a header and in the calls of what it defines. -/
structure IsLiteral (run : Text) : Prop where
  plain : ∀ c ∈ run, Bracket.isPlain c = true
  unslashed : ¬ "//".toList <:+: run
  uncoloned : ¬ "::".toList <:+: run

/-- Whether runs and parameters make up the header of a defined block. -/
structure IsHeader (runs params : List Text) : Prop where
  fits : Text.Fits runs params
  literal : ∀ run ∈ runs, IsLiteral run
  plain : ∀ param ∈ params, ∀ c ∈ param, Bracket.isPlain c = true

instance (run : Text) : Decidable (IsLiteral run) :=
  decidable_of_iff (run.all Bracket.isPlain = true ∧ ¬ "//".toList <:+: run ∧ ¬ "::".toList <:+: run)
    ⟨fun ⟨h₁, h₂, h₃⟩ => ⟨List.all_eq_true.1 h₁, h₂, h₃⟩, fun ⟨h₁, h₂, h₃⟩ => ⟨List.all_eq_true.2 h₁, h₂, h₃⟩⟩

instance (runs params : List Text) : Decidable (IsHeader runs params) :=
  decidable_of_iff (runs.length = params.length + 1 ∧ (∀ run ∈ runs, IsLiteral run) ∧
      ∀ param ∈ params, param.all Bracket.isPlain = true)
    ⟨fun ⟨h₁, h₂, h₃⟩ => ⟨Text.fits_iff.2 h₁, h₂, fun param hparam => List.all_eq_true.1 (h₃ param hparam)⟩,
      fun ⟨h₁, h₂, h₃⟩ => ⟨Text.fits_iff.1 h₁, h₂, fun param hparam => List.all_eq_true.2 (h₃ param hparam)⟩⟩

/-- The `shownRuns` are literal too: what there is beside the runs of the header is an empty run. -/
theorem forall_mem_shownRuns {runs : List Text} (h : ∀ run ∈ runs, IsLiteral run) (params : List Text) :
    ∀ run ∈ shownRuns runs params, IsLiteral run := by
  intro run hrun
  unfold shownRuns at hrun
  split at hrun
  · rcases eq_nil_or_mem_of_mem_runsBeforeSlashes hrun with rfl | hrun
    · exact ⟨by simp, by decide, by decide⟩
    · exact h run hrun
  · exact h run hrun

/-- `trimEnds` leaves literal runs. -/
theorem forall_mem_trimEnds {runs : List Text} (h : ∀ run ∈ runs, IsLiteral run) :
    ∀ run ∈ Fragment.trimEnds runs, IsLiteral run := by
  have hends := (List.forall₂_and_left runs _).2 ⟨h, Fragment.forall₂_trimEnds runs⟩
  refine Lists.forall_right_of_forall₂ hends ?_
  rintro run run' ⟨hrun, hwithin, -⟩
  exact ⟨fun c hc => hrun.plain c (hwithin.subset hc), fun h => hrun.unslashed (h.trans hwithin),
    fun h => hrun.uncoloned (h.trans hwithin)⟩

/-- Blanks open no bracket, so neither does a text if it does not without the blanks in front. -/
private theorem ofOpener?_of_trimLeft {t : Text} (h : ∀ c ∈ Text.trimLeft t, Bracket.ofOpener? c = none) :
    ∀ c ∈ t, Bracket.ofOpener? c = none := by
  intro c hc
  rw [← List.takeWhile_append_dropWhile (p := Text.isBlank) (l := t)] at hc
  rcases List.mem_append.1 hc with hblank | hc
  · exact Bracket.ofOpener?_of_isBlank (List.mem_takeWhile_imp hblank)
  · exact h c hc

/-- The word for headers opens no bracket. -/
private theorem ofOpener?_define {u : Text} {later : List Text}
    (h : ∀ run ∈ u :: later, ∀ c ∈ run, Bracket.ofOpener? c = none) :
    ∀ run ∈ ("define".toList ++ u) :: later, ∀ c ∈ run, Bracket.ofOpener? c = none := by
  obtain ⟨hu, hlater⟩ := List.forall_mem_cons.1 h
  have hword : ∀ c ∈ "define".toList, Bracket.ofOpener? c = none := by simp [Bracket.ofOpener?]
  exact List.forall_mem_cons.2 ⟨List.forall_mem_append.2 ⟨hword, hu⟩, hlater⟩

/-- A header of which the last parameter is left open has its word, its runs and its parameters as tokens. -/
private theorem texts_tokenize_open {rule : SignRule} {run t : Text} {later args : List Text}
    (hfits : Text.Fits (run :: later) args) (hplain : ∀ r ∈ run :: later, ∀ c ∈ r, Bracket.ofOpener? c = none)
    (henclosed : ∀ arg ∈ args, IsEnclosed rule arg) (hopen : ∀ c ∈ t, Bracket.isPlain c = true) :
    (tokenize rule ("define".toList ++ Text.weave (run :: (later ++ [[]])) (args ++ ['(' :: t]))).texts =
      (Text.interleave (("define".toList ++ run) :: (later ++ [[]])) (args ++ ['(' :: t])).filter (· ≠ []) := by
  have hword : Text.Fits (("define".toList ++ run) :: later) args := hfits.of_length rfl rfl
  rw [Text.append_weave, ← List.cons_append, hword.weave_concat, hword.interleave_concat, List.append_nil,
    tokenize, glyphs, texts_cut_open hword (ofOpener?_define hplain) henclosed hopen, List.filter_append]
  simp

section Header

variable {folded : Bool} {runs params : List Text} (h : IsHeader runs params)

include h

/-- Parameters in round brackets are arguments, by `IsEnclosed`. -/
theorem IsHeader.isEnclosed (rule : SignRule) {params' : List Text} (hsubset : params' ⊆ params) :
    ∀ arg ∈ params'.map Bracket.round.enclose, IsEnclosed rule arg := by
  rw [List.forall_mem_map]
  exact fun param hparam => isEnclosed_of_plain _ (h.plain param (hsubset hparam))

/-- A header in which no comment starts defines what its `runs` say. -/
private theorem definition_mem_of_splitComment_eq_none
    (hsplit : splitComment [] (Text.trim (headerLine runs params)) = none) :
    .definition ((Vocabulary.english folded).key (callSpec runs)) ∈
      ((Vocabulary.english folded).readLine (headerLine runs params)).sightings := by
  have henclosed := h.isEnclosed (Vocabulary.english folded).signRule (List.Subset.refl params)
  obtain ⟨u, later, htrim, hends, hspace⟩ :=
    trim_headerLine h.fits fun arg harg => (henclosed arg harg).isTight
  have hplain : ∀ run ∈ u :: later, ∀ c ∈ run, Bracket.ofOpener? c = none := by
    obtain ⟨hu, hlater⟩ := List.forall_mem_cons.1 (hends ▸ forall_mem_trimEnds h.literal)
    refine List.forall_mem_cons.2 ⟨ofOpener?_of_trimLeft fun c hc => ?_, fun run hrun c hc => ?_⟩
    · exact Bracket.ofOpener?_of_isPlain (hu.plain c hc)
    · exact Bracket.ofOpener?_of_isPlain ((hlater run hrun).plain c hc)
  -- trimming leaves as many runs as there were, so that the parameters still fit
  have hlength : (u :: later).length = runs.length :=
    (congrArg List.length hends).trans (Fragment.length_trimEnds runs)
  -- the line is woven, with the word in its first run
  have htexts : (tokenize (Vocabulary.english folded).signRule ("define".toList ++
      Text.weave (u :: later) (params.map Bracket.round.enclose))).texts =
        (Text.interleave (("define".toList ++ u) :: later)
          (params.map Bracket.round.enclose)).filter (· ≠ []) := by
    have hfits : Text.Fits (("define".toList ++ u) :: later) (params.map Bracket.round.enclose) :=
      h.fits.of_length hlength (List.length_map _)
    rw [Text.append_weave, tokenize_weave hfits
      (areBare_of_ofOpener?_eq_none (ofOpener?_define hplain) _ _ _) henclosed,
      texts_wovenTokens _ fun arg harg => (henclosed arg harg).ne_nil]
  -- there is no comment, so all of the line is read
  have hline : (Vocabulary.english folded).readLine (headerLine runs params) =
      withComment (Vocabulary.english folded) none (readBare (Vocabulary.english folded)
        (Text.trim (headerLine runs params))) := by
    simp only [Vocabulary.readLine, hsplit]
  rw [hline, htrim, callSpec, ← hends]
  exact definition_mem_of_texts (h.fits.of_length hlength (List.length_map _)) hplain
    (fun arg harg => (henclosed arg harg).leading?_isSome) hspace htexts none

/-- A header in whose parameter a comment starts defines what its `runs` up to there say. -/
private theorem definition_mem_of_slashesAt {runs' params' : List Text} {t back : Text}
    (hat : SlashesAt runs params runs' params' t back)
    (hcolon : (frontOf runs' params' t).getLast? ≠ some ':') :
    .definition ((Vocabulary.english folded).key (callSpec (runs' ++ [[]]))) ∈
      ((Vocabulary.english folded).readLine (headerLine runs params)).sightings := by
  have henclosed := h.isEnclosed (Vocabulary.english folded).signRule hat.params_subset
  -- the parameter is left open
  have hopen : ∀ c ∈ Text.trimRight t, Bracket.isPlain c = true := by
    obtain ⟨param, hparam, hinside⟩ := hat.inside
    obtain ⟨trail, ht, -⟩ := Text.exists_eq_trimRight t
    intro c hc
    refine h.plain param hparam c (hinside ?_)
    rw [ht]
    exact List.mem_append_left _ hc
  have hplain : ∀ run ∈ runs', ∀ c ∈ run, Bracket.ofOpener? c = none :=
    fun run hrun c hc => Bracket.ofOpener?_of_isPlain ((h.literal run (hat.runs_subset hrun)).plain c hc)
  -- what is in front of the slashes is read, with the rest for a comment
  obtain ⟨comment, hline⟩ := hat.readLine_eq hcolon (Vocabulary.english folded)
  obtain ⟨run, later, rfl⟩ := hat.fits.exists_cons
  have hplain : ∀ r ∈ (' ' :: run) :: later, ∀ c ∈ r, Bracket.ofOpener? c = none := by
    obtain ⟨hrun, hlater⟩ := List.forall_mem_cons.1 hplain
    exact List.forall_mem_cons.2 ⟨List.forall_mem_cons.2 ⟨rfl, hrun⟩, hlater⟩
  -- the word goes with the first run again
  have hfits : Text.Fits ((' ' :: run) :: later) (params'.map Bracket.round.enclose) :=
    hat.fits.of_length rfl (List.length_map _)
  have hblank : Text.trimLeft (' ' :: run) = Text.trimLeft run := rfl
  have hempty : Text.trimRight [] = [] := rfl
  rw [hline, trim_frontOf hat.fits, callSpec, Fragment.trimEnds_concat, hempty, ← hblank]
  -- behind the open parameter there is an empty run, as behind any parameter at the end of a header
  refine definition_mem_of_texts ?_ ?_ ?_ ?_ (texts_tokenize_open hfits hplain henclosed hopen) comment
  · rw [← List.cons_append]
    exact hfits.concat _ _
  · rw [← List.cons_append]
    exact List.forall_mem_append.2 ⟨hplain, by simp⟩
  · refine List.forall_mem_append.2 ⟨fun arg harg => (henclosed arg harg).leading?_isSome, ?_⟩
    simp [Bracket.leading?, Bracket.ofOpener?]
  · rw [← List.cons_append, hfits.weave_concat]
    cases params'.map Bracket.round.enclose <;> rfl

/-- A header defines what its `runs` say, as far as they are shown. -/
theorem definition_mem_sightings :
    .definition ((Vocabulary.english folded).key (callSpec (shownRuns runs params))) ∈
      ((Vocabulary.english folded).readLine (headerLine runs params)).sightings := by
  rcases exists_slashes h.fits fun run hrun => (h.literal run hrun).unslashed with
    hnone | ⟨runs', params', t, back, hat⟩
  · -- no parameter has slashes, and there are none in the word
    have hline : ¬ "//".toList <:+: headerLine runs params := not_isInfix_append_define hnone
    have hshown : shownRuns runs params = runs := by
      rw [shownRuns, splitComment_eq_none hline]
      rfl
    rw [hshown]
    refine definition_mem_of_splitComment_eq_none h (splitComment_eq_none ?_ [])
    exact fun hwithin => hline (hwithin.trans (Text.trim_isInfix _))
  · by_cases hcolon : (frontOf runs' params' t).getLast? = some ':'
    · -- the slashes start no comment, and no others are looked at
      have hshown : shownRuns runs params = runs := by
        rw [shownRuns, hat.headerLine_eq, hat.splitComment_eq, if_pos hcolon]
        rfl
      rw [hshown]
      refine definition_mem_of_splitComment_eq_none h ?_
      rw [hat.trim_headerLine_eq, hat.splitComment_eq, if_pos hcolon]
    · -- the comment takes the rest of the header away
      have hshown : shownRuns runs params = runs' ++ [[]] := by
        rw [shownRuns, hat.headerLine_eq, hat.splitComment_eq, if_neg hcolon]
        exact hat.before
      rw [hshown]
      exact definition_mem_of_slashesAt h hat hcolon

end Header

end Line

end BlockScript
