import BlockScript.Proofs.Reading.Comparison
import BlockScript.Proofs.Reading.Header
import BlockScript.Proofs.Reading.Mark
import BlockScript.Proofs.Reading.Rendered

/-!
# Headers as they are written

A header is read into its word and an outline, which has the runs for its pieces and a block for each parameter.
Rendering puts them together again. An outline without parameters is a single text in a block without a
category, though, and that is what an insert looks like: it is drawn in round brackets. And of a header with a
comment in one of its parameters only what is in front of the comment is drawn.

## Key results

- `closesAnywhere_parameter`: a parameter is one token wherever it stands
- `Fragment.render_definition`: what is written of a header, token by token
- `Vocabulary.render_header_iff`: which headers are written as they have been typed
-/

namespace BlockScript

/-! ## Parameters -/

section Parameter

variable {p : Text} (htrim : Text.trim p = p) (hplain : ∀ c ∈ p, Bracket.isPlain c = true)

include htrim hplain

/-- Behind the bracket that opens a parameter, `opensNext` finds a name, or the bracket that closes it. -/
private theorem opensNext_parameter (b : Bracket) (rest : Text) :
    opensNext (p ++ b.closer :: rest) = false := by
  cases p with
  | nil => cases b <;> rfl
  | cons c p =>
    have hfilled : Text.isBlank c = false := (Text.isBlank_of_trim_eq_self htrim).1
    have hspace : c ≠ ' ' := by
      rintro rfl
      exact absurd hfilled (by decide)
    have hopener := Bracket.ofOpener?_of_isPlain (hplain c List.mem_cons_self)
    simp [opensNext, hspace, hopener]

/-- In front of the bracket that closes it, `closesLast` finds the name, or the bracket that opens it. -/
private theorem closesLast_parameter (b : Bracket) (before : Text) :
    closesLast (p.reverse ++ b.opener :: before) = false := by
  cases p using List.reverseRecOn with
  | nil => cases b <;> rfl
  | append_singleton p c =>
    -- a trimmed name has no space at its end, and a plain one no bracket
    have hfilled : (p ++ [c]).getLast?.any Text.isBlank = false := (Text.isBlank_of_trim_eq_self htrim).2
    have hspace : c ≠ ' ' := by
      rintro rfl
      rw [List.getLast?_concat] at hfilled
      exact absurd hfilled (by decide)
    have hcloser : Bracket.ofCloser? c = none := by
      have hc := hplain c (by simp)
      rw [Bracket.isPlain, Bool.and_eq_true, Option.isNone_iff_eq_none, Option.isNone_iff_eq_none] at hc
      exact hc.2
    simp [closesLast, hspace, hcloser]

/-- A parameter `ClosesAnywhere`: it is one token wherever it stands, if no text in front of a sign takes it,
    as what is between its brackets keeps them from being signs. -/
theorem closesAnywhere_parameter {verbal : Nat → Bool} (hverbal : ∀ n, verbal n = false) (b : Bracket) :
    ClosesAnywhere verbal (b.enclose p) := by
  intro before rest
  -- a comparison stands between two arguments, and on its inner side neither bracket has one next to it
  have hopener : ∀ before, isComparison verbal before b.opener (p ++ b.closer :: rest) = false := by
    simp [isComparison, hverbal, opensNext_parameter htrim hplain]
  have hcloser : ∀ rest, isComparison verbal (p.reverse ++ b.opener :: before) b.closer rest = false := by
    simp [isComparison, hverbal, closesLast_parameter htrim hplain]
  have hroles : Role.ofChar b.opener = .opens b ∧ Role.ofChar b.closer = .closes b := by
    cases b <;> exact ⟨rfl, rfl⟩
  refine ⟨⟨b.opener, .opens b⟩ :: plainGlyphs p ++ [⟨b.closer, .closes b⟩], ?_, ?_, ?_⟩
  · -- the glyphs of the text in its brackets
    have htext : b.enclose p ++ rest = b.opener :: (p ++ b.closer :: rest) := by simp [Bracket.enclose]
    have hreverse : (b.enclose p).reverse ++ before = b.closer :: (p.reverse ++ b.opener :: before) := by
      simp [Bracket.enclose]
    rw [htext, glyphsFrom, hopener, glyphsFrom_append hplain, glyphsFrom, hcloser, hreverse]
    simp [hroles]
  · -- their characters
    have hchars : (plainGlyphs p).map Glyph.char = p := by
      rw [plainGlyphs, List.map_map]
      exact List.map_id p
    simp [hchars, Bracket.enclose]
  · -- and nothing opens between the brackets
    refine (Nests.of_change_eq fun g hg => ?_).isClosed_enclosed rfl rfl
    obtain ⟨c, -, rfl⟩ := List.mem_map.1 hg
    rfl

end Parameter

/-! ## What is written of a header -/

/-- `strip` takes characters away, and puts none in. -/
private theorem Bracket.strip_sublist (t : Text) : (strip t).Sublist t := by
  unfold strip
  split
  · exact .slnil
  · split
    · split
      · exact (List.dropLast_sublist _).cons _
      · exact List.sublist_cons_self _ _
    · exact List.Sublist.refl _

namespace Fragment

/-- What is written of a piece of a header. -/
def writtenPiece (piece : Text) : Text :=
  match Bracket.leading? piece with
  | some b => (if b = .angle then Bracket.angle else .round).enclose (Text.trim (Bracket.strip piece))
  | none => piece

/-- What is written of the pieces of a header together. A single text is taken for that of an insert. -/
def writtenOutline (pieces : List Text) : Text :=
  match pieces.filterMap outlinePiece? with
  | [.text t] => Bracket.round.enclose t
  | _ => pieces.flatMap writtenPiece

/-- A `parameter` is rendered in its brackets, which become round ones unless they are angle brackets. -/
private theorem render_parameter {piece : Text} {b : Bracket} (h : Bracket.leading? piece = some b) :
    Piece.render none (parameter piece).toPiece = .ok (writtenPiece piece) := by
  have hjoin : Written.join (Piece.renderList none [.text (Text.trim (Bracket.strip piece))]) =
      .ok (Text.trim (Bracket.strip piece)) := by
    simp [Piece.renderList, Piece.render, renderLiteral, Written.join, Except.map]
  have hcategory : (parameter piece).attrs.category ≠ none := by simp [parameter]
  have hshape : (parameter piece).attrs.shape ≠ some .defineHat := by
    simp only [parameter, h]
    cases b <;> simp [Shape.ofParameter]
  rw [Block.toPiece, Piece.render]
  refine (Block.render_of_join hcategory hshape hjoin).trans ?_
  simp only [parameter, writtenPiece, h]
  cases b <;> rfl

/-- The pieces of an outline are rendered one by one, each as its `writtenPiece`. -/
private theorem join_renderList_outline (pieces : List Text) :
    Written.join (Piece.renderList none (pieces.filterMap outlinePiece?)) = .ok (pieces.flatMap writtenPiece) := by
  -- piece by piece: a parameter is written in its brackets, text as it is, and empty text not at all
  induction pieces with
  | nil => rfl
  | cons piece pieces ih =>
    rw [List.filterMap_cons, List.flatMap_cons, outlinePiece?]
    cases h : Bracket.leading? piece with
    | some b =>
      simp only [Option.isSome_some, if_true, Piece.renderList]
      rw [render_parameter h, Written.join, ih]
      rfl
    | none =>
      have hself : writtenPiece piece = piece := by rw [writtenPiece, h]
      -- an empty piece gives no piece of the outline
      by_cases hnil : piece = []
      · subst hnil
        exact ih
      · simp only [Option.isSome_none, Bool.false_eq_true, if_false, if_neg hnil, Piece.renderList, Piece.render,
          renderLiteral]
        rw [Written.join, ih, hself]
        rfl

/-- An outline is rendered as `writtenOutline` says, with the round brackets of an insert around a single
    text. -/
private theorem render_outline (pieces : List Text) :
    Piece.render none (.block { shape := some .outline } (pieces.filterMap outlinePiece?)) =
      .ok (writtenOutline pieces) := by
  have hjoin := join_renderList_outline pieces
  rw [Piece.render]
  unfold writtenOutline
  split
  · rename_i t htext
    rw [htext]
    rfl
  · rename_i hother
    rw [renderWith.eq_2 _ _ _ fun t _ htext => hother t htext, if_neg (by simp), hjoin]
    rfl

/-- `render` writes a header as its word, a space and its `writtenOutline`. -/
theorem render_definition (code word : Text) (pieces : List Text) :
    (definition code word pieces).render =
      .ok (code.take word.length ++ ' ' :: writtenOutline (outlineTexts word pieces)) := by
  have houtline := render_outline (outlineTexts word pieces)
  rw [Block.render, definition, renderWith.eq_2 _ _ _ (by simp), if_pos rfl]
  simp only [Piece.renderList, renderHeader]
  rw [houtline]
  rfl

/-! ### Nothing is made up -/

/-- A `writtenPiece` has no slashes that are not in the piece. -/
private theorem count_writtenPiece_le (piece : Text) :
    (writtenPiece piece).count '/' ≤ piece.count '/' := by
  have henclose : ∀ (b : Bracket) (t : Text), (b.enclose t).count '/' = t.count '/' := by
    intro b t
    cases b <;> simp [Bracket.enclose, Bracket.opener, Bracket.closer]
  unfold writtenPiece
  split
  · rw [henclose, Text.count_trim (by decide)]
    exact (Bracket.strip_sublist piece).count_le '/'
  · exact le_rfl

/-- `writtenPiece` adds no slashes to the pieces of a header. -/
private theorem count_flatMap_writtenPiece_le (pieces : List Text) :
    (pieces.flatMap writtenPiece).count '/' ≤ pieces.flatten.count '/' := by
  induction pieces with
  | nil => exact le_rfl
  | cons piece pieces ih =>
    rw [List.flatMap_cons, List.flatten_cons, List.count_append, List.count_append]
    exact Nat.add_le_add (count_writtenPiece_le piece) ih

/-- The brackets of a `writtenOutline` are no slashes either. -/
private theorem count_writtenOutline_le (pieces : List Text) :
    (writtenOutline pieces).count '/' ≤ pieces.flatten.count '/' := by
  have hpieces := count_flatMap_writtenPiece_le pieces
  unfold writtenOutline
  split
  · rename_i t htext
    have hjoin := join_renderList_outline pieces
    rw [htext] at hjoin
    have hsame : t = pieces.flatMap writtenPiece := by
      simpa [Piece.renderList, Piece.render, renderLiteral, Written.join, Except.map] using hjoin
    rw [← hsame] at hpieces
    simpa [Bracket.enclose, Bracket.opener, Bracket.closer] using hpieces
  · exact hpieces

/-- No slash is written of the `outlineTexts` that is not in the line. -/
private theorem count_outlineTexts_le (word : Text) (pieces : List Text) :
    (writtenOutline (outlineTexts word pieces)).count '/' ≤ pieces.flatten.count '/' := by
  refine (count_writtenOutline_le _).trans ?_
  cases pieces with
  | nil => exact le_rfl
  | cons piece pieces =>
    have hfirst : (Text.trimLeft (piece.drop word.length)).Sublist piece :=
      (List.dropWhile_sublist _).trans (List.drop_sublist _ _)
    rw [outlineTexts, List.flatten_cons, List.flatten_cons]
    exact (hfirst.append_right _).count_le '/'

end Fragment

/-! ## Lines -/

namespace Line

open Fragment

/-- A line that is a header without its comment is written as its word, a space and its `writtenOutline`. -/
private theorem exists_render_of_header? {v : Vocabulary} {line word : Text} (hbare : bareText line ≠ [])
    (hheader : v.header? (bareText line) = some word) (hlone : isLoneArgument v (bareText line) = false) :
    ∃ b, (v.readLine line).result = .ok b ∧
      b.render = .ok ((bareText line).take word.length ++
        ' ' :: writtenOutline (outlineTexts word (tokenize v.signRule (bareText line)).texts)) := by
  have hform : form v true (bareText line) =
      .whole (definition (bareText line) word (tokenize v.signRule (bareText line)).texts) :=
    form_of_header hheader
  have hread : (readBare v (bareText line)).result =
      .ok (definition (bareText line) word (tokenize v.signRule (bareText line)).texts) := by
    rw [readBare, hlone, if_neg (by simp), readFragment_result, hform]
    rfl
  have hrender := render_definition (bareText line) word (tokenize v.signRule (bareText line)).texts
  exact ⟨settleLine v (commentText? line)
      (definition (bareText line) word (tokenize v.signRule (bareText line)).texts),
    by rw [readLine_of_bareText v hbare, withComment_of_plain hread (.inl rfl)], hrender⟩

/-- In English this is so if the word is followed by a space, or by nothing. -/
private theorem exists_render_of_define (folded : Bool) {line rest : Text}
    (hbare : bareText line = "define".toList ++ rest)
    (hspace : rest.head?.all (· == ' ') = true) :
    ∃ b, ((Vocabulary.english folded).readLine line).result = .ok b ∧
      b.render = .ok ("define".toList ++ ' ' :: writtenOutline (outlineTexts "define".toList
        (tokenize (Vocabulary.english folded).signRule (bareText line)).texts)) := by
  have hheader : (Vocabulary.english folded).header? (bareText line) = some "define".toList := by
    rw [hbare]
    exact english_header?_define folded hspace
  -- it starts with a letter, so it is no argument that stands alone
  have hleading : Bracket.leading? (bareText line) = none := by
    rw [hbare]
    rfl
  have hlone : isLoneArgument (Vocabulary.english folded) (bareText line) = false := by
    rw [isLoneArgument, hleading, Option.isSome_none, Bool.false_and]
  have hfilled : bareText line ≠ [] := by
    rw [hbare]
    exact List.cons_ne_nil _ _
  obtain ⟨b, hread, hrender⟩ := exists_render_of_header? hfilled hheader hlone
  have htake : (bareText line).take "define".toList.length = "define".toList := by rw [hbare, List.take_left]
  rw [htake] at hrender
  exact ⟨b, hread, hrender⟩

end Line

/-! ## Written headers -/

/-- The texts of parameters, each between its brackets. -/
def paramTexts (params : List (Bracket × Text)) : List Text := params.map fun p => p.1.enclose p.2

/-- A header as it is written: runs, and parameters in round or angle brackets between them. There are no other
    brackets, and no blanks at the ends of a parameter or of the whole, which is not empty. -/
structure WrittenHeader where
  runs : List Text
  params : List (Bracket × Text)
  fits : runs.length = params.length + 1
  plain : ∀ run ∈ runs, run.all Bracket.isPlain = true
  brackets : ∀ p ∈ params, p.1 = .round ∨ p.1 = .angle
  inner : ∀ p ∈ params, Text.trim p.2 = p.2 ∧ p.2.all Bracket.isPlain = true
  trimmed : Text.trim (Text.weave runs (paramTexts params)) = Text.weave runs (paramTexts params)
  filled : Text.weave runs (paramTexts params) ≠ []

namespace WrittenHeader

open Fragment Line

/-- What the header says. -/
def body (h : WrittenHeader) : Text := Text.weave h.runs (paramTexts h.params)

/-- The line of the header. -/
def line (h : WrittenHeader) : Text := "define ".toList ++ h.body

variable (h : WrittenHeader) (folded : Bool)

/-- There is one run more than there are parameters, so the two sides `Fits`. -/
private theorem fits_paramTexts : Text.Fits h.runs (paramTexts h.params) := by
  rw [Text.fits_iff, paramTexts, List.length_map]
  exact h.fits

/-- A parameter with its brackets is its own `writtenPiece`. -/
private theorem writtenPiece_of_mem_paramTexts {arg : Text} (harg : arg ∈ paramTexts h.params) :
    (Bracket.leading? arg).isSome = true ∧ writtenPiece arg = arg := by
  obtain ⟨⟨b, p⟩, hp, rfl⟩ := List.mem_map.1 harg
  have hleading : Bracket.leading? (b.enclose p) = some b := Bracket.ofOpener?_opener b
  refine ⟨by rw [hleading]; rfl, ?_⟩
  simp only [writtenPiece, hleading, Bracket.strip_enclose, (h.inner _ hp).1]
  rcases h.brackets _ hp with hb | hb <;> (dsimp only at hb; subst hb; rfl)

/-- No bracket opens in a run. -/
private theorem ofOpener?_of_mem_runs {run : Text} (hrun : run ∈ h.runs) :
    ∀ c ∈ run, Bracket.ofOpener? c = none :=
  fun c hc => Bracket.ofOpener?_of_isPlain (List.all_eq_true.1 (h.plain run hrun) c hc)

/-- A run of a written header has no bracket at its start. -/
private theorem leading?_of_mem_runs {run : Text} (hrun : run ∈ h.runs) : Bracket.leading? run = none :=
  leading?_of_ofOpener? (h.ofOpener?_of_mem_runs hrun)

/-- So `writtenPiece` writes a run as it stands. -/
private theorem writtenPiece_of_mem_runs {run : Text} (hrun : run ∈ h.runs) : writtenPiece run = run := by
  rw [writtenPiece, h.leading?_of_mem_runs hrun]

/-- The word in the `line` of a header goes with its first run. -/
private theorem line_eq_weave {run : Text} {later : List Text} (hruns : h.runs = run :: later) :
    h.line = Text.weave (("define ".toList ++ run) :: later) (paramTexts h.params) := by
  have hbody : h.body = Text.weave (run :: later) (paramTexts h.params) := by
    unfold body
    rw [hruns]
  unfold line
  rw [hbody]
  exact Text.append_weave _ _ _ _

/-- The tokens of a header are its `runs`, the first one behind its word, and its parameters. -/
private theorem texts_line {run : Text} {later : List Text} (hruns : h.runs = run :: later) :
    (tokenize (Vocabulary.english folded).signRule h.line).texts =
      (Text.interleave (("define ".toList ++ run) :: later) (paramTexts h.params)).filter (· ≠ []) := by
  have hkept : 'Σ' ∉ ['d'] ∧ Text.bareKey folded ['d'] = ['d'] := by cases folded <;> decide
  have hline : h.line = 'd' :: ("efine ".toList ++ h.body) := rfl
  -- the line starts with a letter, so no sign in it is a word of a block
  have hverbal : ∀ n, ((Vocabulary.english folded).signRule h.line).holds n = false := by
    intro n
    rw [hline]
    exact Vocabulary.english_signRule_eq_false hkept (by decide) _ n
  have hweave := h.line_eq_weave hruns
  -- no bracket opens in a run, and each parameter closes where it ends
  have hopeners : ∀ r ∈ ("define ".toList ++ run) :: later, ∀ c ∈ r, Bracket.ofOpener? c = none := by
    have hplain : ∀ r ∈ run :: later, ∀ c ∈ r, Bracket.ofOpener? c = none := fun r hr =>
      h.ofOpener?_of_mem_runs (hruns ▸ hr)
    obtain ⟨hrun, hlater⟩ := List.forall_mem_cons.1 hplain
    have hword : ∀ c ∈ "define ".toList, Bracket.isPlain c = true := List.all_eq_true.1 (by decide)
    exact List.forall_mem_cons.2 ⟨List.forall_mem_append.2
      ⟨fun c hc => Bracket.ofOpener?_of_isPlain (hword c hc), hrun⟩, hlater⟩
  -- a parameter has no brackets in it but its own
  have hargs : ∀ arg ∈ paramTexts h.params,
      ClosesAnywhere ((Vocabulary.english folded).signRule h.line).holds arg := by
    intro arg harg
    obtain ⟨p, hp, rfl⟩ := List.mem_map.1 harg
    exact closesAnywhere_parameter (h.inner p hp).1 (List.all_eq_true.1 (h.inner p hp).2) hverbal p.1
  have hfits : Text.Fits (("define ".toList ++ run) :: later) (paramTexts h.params) :=
    (hruns ▸ h.fits_paramTexts).of_length rfl rfl
  have hcut := cut_weave hfits (areBare_of_ofOpener?_eq_none hopeners _ [] _) hargs
  rw [← hweave] at hcut
  rw [tokenize, glyphs, hcut, texts_wovenTokens]
  intro arg harg
  obtain ⟨p, -, rfl⟩ := List.mem_map.1 harg
  exact List.cons_ne_nil _ _

/-- The first run of the `body` starts behind the space that follows the word. -/
private theorem trimLeft_drop_word {run rest : Text} (hbody : h.body = run ++ rest) :
    Text.trimLeft (("define ".toList ++ run).drop "define".toList.length) = run := by
  have hdrop : ("define ".toList ++ run).drop "define".toList.length = ' ' :: run := rfl
  have hspace : Text.trimLeft (' ' :: run) = Text.trimLeft run := List.dropWhile_cons_of_pos (by decide)
  rw [hdrop, hspace]
  cases run with
  | nil => rfl
  | cons c run =>
    have hhead : h.body.head?.any Text.isBlank = false := (Text.isBlank_of_trim_eq_self h.trimmed).1
    rw [hbody] at hhead
    have hc : Text.isBlank c = false := hhead
    exact List.dropWhile_cons_of_neg (by simp [hc])

/-- Behind its word a header has for `outlineTexts` its first run, and then the other runs and the
    parameters. -/
private theorem exists_outlineTexts_line :
    ∃ run rest, h.body = run ++ rest.flatten ∧ (∀ t ∈ run :: rest, writtenPiece t = t) ∧
      Bracket.leading? run = none ∧ (h.params = [] → rest = []) ∧
      (h.params ≠ [] → ∃ arg ∈ rest, (Bracket.leading? arg).isSome = true) ∧
      outlineTexts "define".toList (tokenize (Vocabulary.english folded).signRule h.line).texts =
        run :: rest.filter (· ≠ []) := by
  obtain ⟨run, later, hruns⟩ := h.fits_paramTexts.exists_cons
  -- what follows the first run does not depend on it
  obtain ⟨rest, hrest⟩ : ∃ rest, ∀ run : Text,
      Text.interleave (run :: later) (paramTexts h.params) = run :: rest := by
    cases paramTexts h.params <;> exact ⟨_, fun _ => rfl⟩
  have hbody : h.body = run ++ rest.flatten := by
    unfold body
    rw [hruns, Text.weave, hrest, List.flatten_cons]
  have hrun : run ∈ h.runs := hruns ▸ List.mem_cons_self
  refine ⟨run, rest, hbody, fun t ht => ?_, h.leading?_of_mem_runs hrun, fun hnone => ?_, fun hsome => ?_, ?_⟩
  · rw [← hrest, ← hruns] at ht
    exact (Text.mem_of_mem_interleave ht).elim h.writtenPiece_of_mem_runs
      fun harg => (h.writtenPiece_of_mem_paramTexts harg).2
  · -- without parameters there is a single run
    have hsingle := hrest run
    rw [hnone] at hsingle
    exact (List.cons.inj hsingle).2.symm
  · -- the first parameter stands behind the first run
    obtain ⟨p, params, hparams⟩ := List.exists_cons_of_ne_nil hsome
    have harg : p.1.enclose p.2 ∈ paramTexts h.params := by simp [paramTexts, hparams]
    have hmem := hrest run
    rw [hparams] at hmem
    refine ⟨p.1.enclose p.2, ?_, (h.writtenPiece_of_mem_paramTexts harg).1⟩
    rw [← (List.cons.inj hmem).2]
    exact List.mem_cons_self
  · rw [h.texts_line folded hruns, hrest, List.filter_cons_of_pos (by simp), outlineTexts,
      h.trimLeft_drop_word hbody]

/-- The `writtenOutline` of a header is its `body` as it stands if there is a parameter in it. -/
private theorem writtenOutline_line :
    writtenOutline (outlineTexts "define".toList (tokenize (Vocabulary.english folded).signRule h.line).texts) =
      if h.params = [] then Bracket.round.enclose h.body else h.body := by
  obtain ⟨run, rest, hbody, hpieces, hrun, hnone, hsome, htexts⟩ := h.exists_outlineTexts_line folded
  rw [htexts]
  split
  · -- the outline is one text, which is written in brackets
    rename_i hparams
    have hfilled : run ≠ [] := by
      intro hnil
      rw [hnone hparams, hnil] at hbody
      exact h.filled hbody
    have hsingle : [run].filterMap outlinePiece? = [.text run] := by simp [outlinePiece?, hrun, hfilled]
    rw [hbody, hnone hparams, List.filter_nil, writtenOutline, hsingle]
    simp
  · -- a parameter in it makes it an outline of several pieces, or of none that is text
    rename_i hparams
    obtain ⟨arg, harg, hleading⟩ := hsome hparams
    have hfilled : arg ≠ [] := by
      rintro rfl
      cases hleading
    have hmem : (parameter arg).toPiece ∈ (run :: rest.filter (· ≠ [])).filterMap outlinePiece? :=
      List.mem_filterMap.2 ⟨arg, List.mem_cons_of_mem run (List.mem_filter.2 ⟨harg, by simpa using hfilled⟩),
        by simp [outlinePiece?, hleading]⟩
    have hpieces' : ∀ t ∈ run :: rest.filter (· ≠ []), writtenPiece t = id t := by
      intro t ht
      refine hpieces t ?_
      rcases List.mem_cons.1 ht with rfl | ht
      · exact List.mem_cons_self
      · exact List.mem_cons_of_mem run (List.mem_filter.1 ht).1
    unfold writtenOutline
    split
    · rename_i t htext
      rw [htext, List.mem_singleton] at hmem
      cases hmem
    · rw [List.flatMap_congr hpieces', List.flatMap_id, List.flatten_cons, List.flatten_filter_ne_nil, hbody]

/-! ### Lines -/

/-- There are no blanks at the ends of the `line`. -/
private theorem trim_line : Text.trim h.line = h.line := by
  have hbody : Text.trim h.body = h.body := h.trimmed
  have htight : Text.IsTight h.body := hbody ▸ Text.isTight_trim (hbody.symm ▸ h.filled)
  refine Text.IsTight.trim_eq_self ⟨List.cons_ne_nil _ _, rfl, ?_⟩
  unfold line
  rw [List.getLast?_append_of_ne_nil _ htight.filled]
  exact htight.last

/-- A header without a comment is written as it has been typed, but for the brackets around a header without
    parameters. -/
private theorem exists_render_of_no_comment (hnone : commentText? h.line = none) :
    ∃ b, ((Vocabulary.english folded).readLine h.line).result = .ok b ∧
      (h.params = [] → b.render = .ok ("define ".toList ++ Bracket.round.enclose h.body)) ∧
      (h.params ≠ [] → b.render = .ok h.line) := by
  have hbare : bareText h.line = h.line := by
    rw [commentText?, Option.map_eq_none_iff] at hnone
    rw [bareText, hnone, h.trim_line]
  have hword : h.line = "define".toList ++ ' ' :: h.body := rfl
  obtain ⟨b, hread, hrender⟩ := exists_render_of_define folded (hbare.trans hword) rfl
  rw [hbare, h.writtenOutline_line] at hrender
  refine ⟨b, hread, fun hparams => ?_, fun hparams => ?_⟩
  · rw [hrender, if_pos hparams]
    rfl
  · rw [hrender, if_neg hparams]
    rfl

/-- A comment in a header starts behind the word. -/
private theorem exists_line_of_comment {comment : Text} (hsome : commentText? h.line = some comment) :
    ∃ x back, h.line = "define ".toList ++ x ++ '/' :: '/' :: back ∧
      bareText h.line = Text.trim ("define ".toList ++ x) := by
  obtain ⟨⟨front, back⟩, hsplit, -⟩ := Option.map_eq_some_iff.1 hsome
  have hbare : bareText h.line = Text.trim front := by rw [bareText, hsplit]
  rw [h.trim_line] at hsplit
  obtain ⟨u, hfront, hline, -⟩ := splitComment_eq_some hsplit
  obtain rfl : front = u := hfront
  rcases List.append_eq_append_iff.1 hline with ⟨x, rfl, -⟩ | ⟨y, hy, hslashes⟩
  · exact ⟨x, back, hline, hbare⟩
  · cases y with
    | nil =>
      obtain rfl : front = "define ".toList := by simpa using hy.symm
      exact ⟨[], back, by rw [List.append_nil]; exact hline, by rw [List.append_nil]; exact hbare⟩
    | cons c y =>
      -- the word has no slash
      have hc : '/' = c := (List.cons.inj hslashes).1
      have hmem : c ∈ "define ".toList := hy ▸ List.mem_append_right _ List.mem_cons_self
      exact absurd hmem (hc ▸ by decide)

/-- A header with a comment is written with fewer slashes than it has been typed with. -/
private theorem exists_render_of_comment {comment : Text} (hsome : commentText? h.line = some comment) :
    ∃ b t, ((Vocabulary.english folded).readLine h.line).result = .ok b ∧ b.render = .ok t ∧
      t.count '/' < h.line.count '/' := by
  obtain ⟨x, back, hline, hbare⟩ := h.exists_line_of_comment hsome
  have hword : bareText h.line = "define".toList ++ Text.trimRight (' ' :: x) :=
    hbare.trans (trim_define (' ' :: x))
  -- what follows the word is a space still, or nothing
  have hspace : (Text.trimRight (' ' :: x)).head?.all (· == ' ') = true := by
    have hprefix := Text.trimRight_isPrefix_self (' ' :: x)
    cases hright : Text.trimRight (' ' :: x) with
    | nil => rfl
    | cons c rest =>
      rw [hright] at hprefix
      rw [(List.cons_prefix_cons.1 hprefix).1]
      rfl
  obtain ⟨b, hread, hrender⟩ := exists_render_of_define folded hword hspace
  refine ⟨b, _, hread, hrender, ?_⟩
  have houtline := count_outlineTexts_le "define".toList
    (tokenize (Vocabulary.english folded).signRule (bareText h.line)).texts
  rw [flatten_texts_tokenize, hbare, Text.count_trim (by decide), ← hbare] at houtline
  -- what is written comes from the text in front of the comment, which has two slashes less
  have hwhole : h.line.count '/' = ("define ".toList ++ x).count '/' + ('/' :: '/' :: back).count '/' := by
    rw [hline, List.count_append]
  have hslashes : ('/' :: '/' :: back).count '/' = back.count '/' + 2 := by simp
  have hfront : "define".toList.count '/' = 0 := by decide
  rw [List.count_append, hfront, List.count_cons_of_ne (by decide), Nat.zero_add, hwhole]
  omega

end WrittenHeader

open Line in
/-- A `WrittenHeader` is written by `render` as it has been typed just if it has a parameter, and no comment
    starts in it. -/
theorem Vocabulary.render_header_iff (h : WrittenHeader) (folded : Bool) :
    ∃ b, ((english folded).readLine h.line).result = .ok b ∧
      (b.render = .ok h.line ↔ h.params ≠ [] ∧ commentText? h.line = none) := by
  cases hcomment : commentText? h.line with
  -- with a comment slashes are lost
  | some comment =>
    obtain ⟨b, t, hread, hrender, hcount⟩ := h.exists_render_of_comment folded hcomment
    refine ⟨b, hread, ?_⟩
    rw [hrender]
    simp only [Except.ok.injEq, reduceCtorEq, and_false, iff_false]
    rintro rfl
    exact lt_irrefl _ hcount
  -- without one all depends on whether the outline is a single text
  | none =>
    obtain ⟨b, hread, hbare, hwoven⟩ := h.exists_render_of_no_comment folded hcomment
    by_cases hparams : h.params = []
    · refine ⟨b, hread, iff_of_false (fun hsame => ?_) fun hboth => hboth.1 hparams⟩
      have hbody : Bracket.round.enclose h.body = h.body :=
        List.append_cancel_left (Except.ok.inj ((hbare hparams).symm.trans hsame))
      -- the brackets make it longer
      have hlength := congrArg List.length hbody
      simp only [Bracket.enclose, List.cons_append, List.length_cons, List.length_append, List.length_nil] at hlength
      omega
    · exact ⟨b, hread, iff_of_true (hwoven hparams) ⟨hparams, rfl⟩⟩

open Line in
/-- A header with a parameter of each kind. -/
theorem Vocabulary.render_header_of_jump :
    ∃ (h : WrittenHeader) (b : Block), h.line = "define jump (height) <fast?>".toList ∧
      ((english true).readLine h.line).result = .ok b ∧ b.render = .ok h.line := by
  let h : WrittenHeader :=
    { runs := ["jump ".toList, " ".toList, []]
      params := [(.round, "height".toList), (.angle, "fast?".toList)]
      fits := rfl
      plain := by decide
      brackets := by decide
      inner := by decide
      trimmed := by decide
      filled := by decide }
  obtain ⟨b, hread, hiff⟩ := render_header_iff h true
  exact ⟨h, b, by decide, hread, hiff.2 ⟨by decide, by decide⟩⟩

/-- A header without parameters gets brackets. -/
theorem Vocabulary.header_written_in_brackets :
    ∃ (h : WrittenHeader) (b : Block), h.line = "define foo".toList ∧
      ((english true).readLine "define foo".toList).result = .ok b ∧ b.render = .ok "define (foo)".toList ∧
      b.render ≠ .ok "define foo".toList := by
  let h : WrittenHeader :=
    { runs := ["foo".toList]
      params := []
      fits := rfl
      plain := by decide
      brackets := by decide
      inner := by decide
      trimmed := by decide
      filled := by decide }
  have hline : h.line = "define foo".toList := by decide
  obtain ⟨b, hread, hbare, -⟩ := h.exists_render_of_no_comment true (by decide)
  -- without parameters the body is written in brackets
  have hrender : b.render = .ok "define (foo)".toList := by
    rw [hbare rfl]
    exact congrArg Except.ok (by decide : "define ".toList ++ Bracket.round.enclose h.body = "define (foo)".toList)
  refine ⟨h, b, hline, hline ▸ hread, hrender, ?_⟩
  rw [hrender]
  decide

end BlockScript
