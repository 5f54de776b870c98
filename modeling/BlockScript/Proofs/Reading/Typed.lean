import BlockScript.Proofs.Reading.Depth
import BlockScript.Proofs.Reading.Rendered
import BlockScript.Proofs.Token.Enclosed

/-!
# Lines are written as they have been typed

A canonical line is one in which every argument is set off by spaces and nothing means more than it says.
Reading such a line and rendering the block gives the line again, to any depth of nesting. Excluded are
what is drawn in another way than it is typed, and blocks in brackets that lose these because they start or
end a script.

## Key results

- `Typed.isArgument_of_mem_arguments`: what stands between the runs is an argument
- `Typed.IsCanonical.isRestorable`: a line without headers and known blocks shows what it is
- `Typed.render_of_read_argument`: an argument is written as it has been typed
- `Typed.render_readLine`: so is a line
-/

namespace BlockScript

/-! ## Fragments as they are typed -/

/-- A fragment as it is typed: runs of text, and between them arguments, which are quoted texts or fragments
    in round brackets. -/
inductive Typed where
  | last (run : Text)
  | quoted (run t : Text) (later : Typed)
  | nested (run : Text) (inner later : Typed)

namespace Typed

/-- The text of a fragment. -/
def text : Typed → Text
  | last run => run
  | quoted run t later => run ++ (Bracket.square.enclose t ++ later.text)
  | nested run inner later => run ++ (Bracket.round.enclose inner.text ++ later.text)

/-- The runs of a fragment, without those of its arguments. -/
def runs : Typed → List Text
  | last run => [run]
  | quoted run _ later => run :: later.runs
  | nested run _ later => run :: later.runs

/-- The arguments of a fragment with their brackets. -/
def arguments : Typed → List Text
  | last _ => []
  | quoted _ t later => Bracket.square.enclose t :: later.arguments
  | nested _ inner later => Bracket.round.enclose inner.text :: later.arguments

/-- The fragments in brackets, at any depth. -/
def fragments : Typed → List Typed
  | last _ => []
  | quoted _ _ later => later.fragments
  | nested _ inner later => inner :: (inner.fragments ++ later.fragments)

/-- The quoted texts, at any depth. -/
def quotes : Typed → List Text
  | last _ => []
  | quoted _ t later => t :: later.quotes
  | nested _ inner later => inner.quotes ++ later.quotes

/-- The spec of a fragment that is a block. -/
def spec (p : Typed) : Text := Text.padSlots (Text.slotted p.runs)

/-- Whether the runs of a fragment are text and nothing else, and set its arguments off by spaces, with no
    blanks at its ends. -/
structure IsTidy (p : Typed) : Prop where
  plain : ∀ run ∈ p.runs, ∀ c ∈ run, Bracket.isPlain c = true ∧ c ≠ '_'
  uncoloned : ∀ run ∈ p.runs, ¬ "::".toList <:+: run
  unslashed : ∀ run ∈ p.runs, ¬ "//".toList <:+: run
  apart : Text.AreApart p.runs
  trimmed : Text.trim p.text = p.text

/-- Whether a fragment is tidy at every depth. Quoted texts do not close their brackets, and no comment
    starts in them. -/
structure IsCanonical (p : Typed) : Prop where
  tidy : ∀ f ∈ p :: p.fragments, f.IsTidy
  quotes : ∀ t ∈ p.quotes, ']' ∉ t ∧ ¬ "//".toList <:+: t

instance (p : Typed) : Decidable p.IsTidy :=
  decidable_of_iff
    ((∀ run ∈ p.runs, run.all (fun c => Bracket.isPlain c && c != '_') = true) ∧
      (∀ run ∈ p.runs, ¬ "::".toList <:+: run) ∧ (∀ run ∈ p.runs, ¬ "//".toList <:+: run) ∧
      Text.AreApart p.runs ∧ Text.trim p.text = p.text)
    (by
      simp only [List.all_eq_true, Bool.and_eq_true, bne_iff_ne]
      exact ⟨fun ⟨h₁, h₂, h₃, h₄, h₅⟩ => ⟨h₁, h₂, h₃, h₄, h₅⟩,
        fun ⟨h₁, h₂, h₃, h₄, h₅⟩ => ⟨h₁, h₂, h₃, h₄, h₅⟩⟩)

instance (p : Typed) : Decidable p.IsCanonical :=
  decidable_of_iff ((∀ f ∈ p :: p.fragments, f.IsTidy) ∧ ∀ t ∈ p.quotes, ']' ∉ t ∧ ¬ "//".toList <:+: t)
    ⟨fun ⟨h₁, h₂⟩ => ⟨h₁, h₂⟩, fun ⟨h₁, h₂⟩ => ⟨h₁, h₂⟩⟩

/-- Whether a fragment in round brackets shows what it is: it is no header, and a block only if it is drawn by
    its spec and neither starts nor ends a script. -/
structure IsRestorableInside (v : Vocabulary) (p : Typed) : Prop where
  unheaded : v.header? p.text = none
  drawn : ∀ a, (Fragment.form v false (Bracket.round.enclose p.text)).attrs? = some a →
    a.IsDrawnBySpec ∧ a.shape ≠ some .hat ∧ a.shape ≠ some .cap

/-- Whether a line shows what it is: it is no header and drawn by its spec, its fragments show what they are,
    and its quoted texts are no headers. -/
structure IsRestorable (v : Vocabulary) (p : Typed) : Prop where
  unheaded : v.header? p.text = none
  drawn : ∀ a, (Fragment.form v true p.text).attrs? = some a → a.IsDrawnBySpec
  fragments : ∀ f ∈ p.fragments, f.IsRestorableInside v
  quotes : ∀ t ∈ p.quotes, v.header? t = none

/-! ## Runs and arguments -/

/-- By `Fits`, there is one run more than there are arguments. -/
theorem fits (p : Typed) : Text.Fits p.runs p.arguments := by
  induction p with
  | last run => exact .last run
  | quoted run t later ih => exact .step run _ ih
  | nested run inner later _ ih => exact .step run _ ih

/-- The `text` of a fragment is woven from its runs and its arguments. -/
private theorem text_eq_weave (p : Typed) : p.text = Text.weave p.runs p.arguments := by
  induction p with
  | last run => rw [text, runs, arguments, Text.weave_last]
  | quoted run t later ih => rw [text, runs, arguments, Text.weave_cons, ih]
  | nested run inner later _ ih => rw [text, runs, arguments, Text.weave_cons, ← ih]

/-- What stands between the runs is an argument by `IsArgument`, wherever it stands. -/
theorem isArgument_of_mem_arguments (rule : SignRule) {p : Typed} (htidy : ∀ f ∈ p.fragments, f.IsTidy)
    (hquotes : ∀ t ∈ p.quotes, ']' ∉ t ∧ ¬ "//".toList <:+: t) : ∀ arg ∈ p.arguments, IsArgument rule arg := by
  -- by induction on the text: a quote is closed by its own bracket, a fragment because all in it are
  induction p with
  | last run => simp [arguments]
  | quoted run t later ih =>
    obtain ⟨⟨hclose, hslashes⟩, hquotes⟩ := List.forall_mem_cons.1 hquotes
    refine List.forall_mem_cons.2 ⟨⟨isEnclosed_square rule hclose, ?_⟩, ih htidy hquotes⟩
    -- no comment starts in the quote, and the brackets have no slashes
    exact Line.not_isInfix_append_enclose (s := []) .square (by decide) hslashes
  | nested run inner later ihInner ihLater =>
    obtain ⟨hinner, htidy⟩ := List.forall_mem_cons.1 htidy
    obtain ⟨htidy, htidy'⟩ := List.forall_mem_append.1 htidy
    obtain ⟨hquotes, hquotes'⟩ := List.forall_mem_append.1 hquotes
    have hargs := ihInner htidy hquotes
    refine List.forall_mem_cons.2 ⟨⟨?_, ?_⟩, ihLater htidy' hquotes'⟩
    · rw [text_eq_weave]
      exact isEnclosed_weave inner.fits (fun run hrun c hc => (hinner.plain run hrun c hc).1)
        fun arg harg => (hargs arg harg).toIsEnclosed
    · rw [text_eq_weave]
      exact Line.not_isInfix_append_enclose (s := []) .round (by decide)
        (not_slashes_weave inner.fits hinner.unslashed hargs)

/-- There are no underscores in the runs of a fragment that `IsTidy`. -/
private theorem IsTidy.unslotted {p : Typed} (h : p.IsTidy) : ∀ run ∈ p.runs, '_' ∉ run :=
  fun run hrun hslot => (h.plain run hrun '_' hslot).2 rfl

/-- What `IsTidy` asks of runs is what weaving asks of them. -/
theorem isInterwoven {v : Vocabulary} {p : Typed} (htidy : p.IsTidy)
    (hargs : ∀ arg ∈ p.arguments, IsArgument v.signRule arg) : IsInterwoven v p.runs p.arguments where
  fits := p.fits
  enclosed := fun arg harg => (hargs arg harg).toIsEnclosed
  bare := areBare_of_ofOpener?_eq_none
    (fun run hrun c hc => Bracket.ofOpener?_of_isPlain (htidy.plain run hrun c hc).1) _ _ _
  literal := fun run hrun => Fragment.leading?_of_plain fun c hc => (htidy.plain run hrun c hc).1
  uncoloned := htidy.uncoloned
  trimmed := by rw [← text_eq_weave, htidy.trimmed]

/-! ## Fragments of fragments -/

/-- What is in a fragment of a fragment is in this one too. -/
private theorem subset_of_mem_fragments {p f : Typed} (h : f ∈ p.fragments) :
    f.fragments ⊆ p.fragments ∧ f.quotes ⊆ p.quotes := by
  induction p with
  | last run => cases h
  | quoted run t later ih =>
    obtain ⟨hfragments, hquotes⟩ := ih h
    exact ⟨hfragments, fun t ht => List.mem_cons_of_mem _ (hquotes ht)⟩
  | nested run inner later ihInner ihLater =>
    -- it is the fragment in front, in that one, or a later one
    rcases List.mem_cons.1 h with rfl | h
    · exact ⟨fun g hg => List.mem_cons_of_mem _ (List.mem_append_left _ hg),
        fun t ht => List.mem_append_left _ ht⟩
    · rcases List.mem_append.1 h with h | h
      · obtain ⟨hfragments, hquotes⟩ := ihInner h
        exact ⟨fun g hg => List.mem_cons_of_mem _ (List.mem_append_left _ (hfragments hg)),
          fun t ht => List.mem_append_left _ (hquotes ht)⟩
      · obtain ⟨hfragments, hquotes⟩ := ihLater h
        exact ⟨fun g hg => List.mem_cons_of_mem _ (List.mem_append_right _ (hfragments hg)),
          fun t ht => List.mem_append_right _ (hquotes ht)⟩

/-- The fragments of a line that `IsCanonical` are canonical. -/
private theorem IsCanonical.of_mem_fragments {p f : Typed} (h : p.IsCanonical) (hf : f ∈ p.fragments) :
    f.IsCanonical := by
  obtain ⟨hfragments, hquotes⟩ := subset_of_mem_fragments hf
  refine ⟨List.forall_mem_cons.2 ⟨h.tidy f (List.mem_cons_of_mem _ hf), fun g hg => ?_⟩, fun t ht => ?_⟩
  · exact h.tidy g (List.mem_cons_of_mem _ (hfragments hg))
  · exact h.quotes t (hquotes ht)

/-- Runs and arguments of a line that `IsCanonical` are interwoven, by `IsInterwoven`. -/
theorem IsCanonical.isInterwoven {p : Typed} (v : Vocabulary) (h : p.IsCanonical) :
    IsInterwoven v p.runs p.arguments := by
  obtain ⟨hself, htidy⟩ := List.forall_mem_cons.1 h.tidy
  exact Typed.isInterwoven hself (isArgument_of_mem_arguments v.signRule htidy h.quotes)

/-- A canonical line `IsRestorable` if there is no header in it and no block of the index. -/
theorem IsCanonical.isRestorable {v : Vocabulary} {p : Typed} (h : p.IsCanonical)
    (hheader : ∀ f ∈ p :: p.fragments, v.header? f.text = none) (hquotes : ∀ t ∈ p.quotes, v.header? t = none)
    (hindex : ∀ f ∈ p :: p.fragments, Dictionary.get? (v.key f.spec) v.index = none)
    (hspec : ∀ f ∈ p :: p.fragments, f.spec ≠ Text.ellipsis ∧ f.spec ≠ "…".toList) : p.IsRestorable v := by
  -- the line and the fragments in it are all shown in the same way
  have hshown : ∀ f ∈ p :: p.fragments, ∀ isLine code, (if isLine then code else Bracket.strip code) = f.text →
      ∀ a, (Fragment.form v isLine code).attrs? = some a →
        a.IsDrawnBySpec ∧ a.shape ≠ some .hat ∧ a.shape ≠ some .cap := by
    intro f hf isLine code hcode
    have hcanonical : f.IsCanonical := by
      rcases List.mem_cons.1 hf with rfl | hf
      · exact h
      · exact h.of_mem_fragments hf
    have hself := hheader f hf
    rw [text_eq_weave] at hcode hself
    have hwoven := hcanonical.isInterwoven v
    exact hwoven.isDrawnBySpec_of_index_eq_none isLine code hcode hself (hindex f hf) (hspec f hf)
  refine ⟨hheader p List.mem_cons_self, ?_, fun f hf => ⟨?_, ?_⟩, hquotes⟩
  · exact fun a ha => (hshown p List.mem_cons_self true p.text rfl a ha).1
  · exact hheader f (List.mem_cons_of_mem _ hf)
  · exact hshown f (List.mem_cons_of_mem _ hf) false _ (Bracket.strip_enclose .round _)

/-! ## Arguments -/

section

open Fragment

variable {folded : Bool}

/-- A quoted text is rendered as it has been typed. -/
private theorem render_of_read_square {v : Vocabulary} {t : Text} (hheader : v.header? t = none)
    {depth : Nat}
    {b : Block} (hread : (read v depth false (Bracket.square.enclose t)).result = .ok b) :
    b.render = .ok (Bracket.square.enclose t) := by
  cases depth with
  | zero => cases hread
  | succ depth =>
    have hsquare := readWith_square v (read v depth false) t
    -- reading with a level is reading the text in the brackets
    have hsame : read v (depth + 1) false (Bracket.square.enclose t) =
        readWith v (read v depth false) false ('[' :: (t ++ [']'])) := rfl
    rw [hsame, hsquare, hheader] at hread
    cases hread
    exact render_insert (.inr rfl) (isInsert_ofArgument_square t)

/-- So is a fragment in round brackets, if its `arguments` are. -/
private theorem render_of_read_round {p : Typed} (htidy : p.IsTidy)
    (hargs : ∀ arg ∈ p.arguments, IsArgument (Vocabulary.english folded).signRule arg)
    (hinside : p.IsRestorableInside (Vocabulary.english folded))
    (hrender : ∀ arg ∈ p.arguments, ∀ depth b,
      (read (Vocabulary.english folded) depth false arg).result = .ok b → b.render = .ok arg)
    {depth : Nat} {b : Block}
    (hread : (read (Vocabulary.english folded) depth false (Bracket.round.enclose p.text)).result = .ok b) :
    b.render = .ok (Bracket.round.enclose p.text) := by
  cases depth with
  | zero => cases hread
  | succ depth =>
    have hwoven := isInterwoven htidy hargs
    -- reading strips the brackets, so that both are about the text inside
    obtain ⟨hheader, hdrawn⟩ := hinside
    rw [text_eq_weave] at hheader hdrawn hread ⊢
    have hstrip := Bracket.strip_enclose .round (Text.weave p.runs p.arguments)
    have hbracket : outerBracket false (Bracket.round.enclose (Text.weave p.runs p.arguments)) =
        some .round := rfl
    -- what is in the brackets may be a number or a menu, and else is a block
    cases hinsert : insertShape? (some .round) ((Text.interleave p.runs p.arguments).filter (· ≠ []))
        (Text.weave p.runs p.arguments) with
    | some shape =>
      -- an insert keeps its text
      have hform := hwoven.form_insert false (Bracket.round.enclose _) hstrip hheader (by rw [hbracket, hinsert])
      rw [read_succ_result, hform] at hread
      cases hread
      have hshape := isInsert_of_insertShape? hinsert
      obtain rfl := eq_ofArgument_of_insertShape? hinsert
      exact render_insert (.inl rfl) hshape
    | none =>
      -- a block is written in its brackets only if it has the shape of its place
      obtain ⟨a, hattrs, -, hshape, hblock⟩ := hwoven.render_of_read false (Bracket.round.enclose _)
        htidy.unslotted htidy.apart hstrip hheader (by rw [hbracket, hinsert]) (fun a ha => (hdrawn a ha).1)
        hread fun arg harg => hrender arg harg depth
      rw [hbracket] at hshape
      obtain ⟨-, hhat, hcap⟩ := hdrawn a hattrs
      have hround : a.shape = some .embedded ∨ a.shape = some .reporter := by
        have hown := hshape.resolve_right (not_or.2 ⟨hhat, hcap⟩)
        rcases blockShape_round hinsert with hround | hround
        · exact .inl (hround ▸ hown)
        · exact .inr (hround ▸ hown)
      rw [hblock, Attrs.enclose_of_round hround]

/-- However deep it is nested, `render` writes an argument as it has been typed. -/
theorem render_of_read_argument {p : Typed} (htidy : ∀ f ∈ p.fragments, f.IsTidy)
    (hquotes : ∀ t ∈ p.quotes, ']' ∉ t ∧ ¬ "//".toList <:+: t)
    (hinside : ∀ f ∈ p.fragments, f.IsRestorableInside (Vocabulary.english folded))
    (hheader : ∀ t ∈ p.quotes, (Vocabulary.english folded).header? t = none) :
    ∀ arg ∈ p.arguments, ∀ depth b,
      (read (Vocabulary.english folded) depth false arg).result = .ok b → b.render = .ok arg := by
  induction p with
  | last run => simp [arguments]
  | quoted run t later ih =>
    obtain ⟨-, hquotes⟩ := List.forall_mem_cons.1 hquotes
    obtain ⟨ht, hheader⟩ := List.forall_mem_cons.1 hheader
    exact List.forall_mem_cons.2 ⟨fun depth b => render_of_read_square ht, ih htidy hquotes hinside hheader⟩
  | nested run inner later ihInner ihLater =>
    -- the conditions are on all fragments: on this one, on those in it, and on the later ones
    obtain ⟨hself, htidy⟩ := List.forall_mem_cons.1 htidy
    obtain ⟨hself', hinside⟩ := List.forall_mem_cons.1 hinside
    obtain ⟨htidy, htidy'⟩ := List.forall_mem_append.1 htidy
    obtain ⟨hquotes, hquotes'⟩ := List.forall_mem_append.1 hquotes
    obtain ⟨hinside, hinside'⟩ := List.forall_mem_append.1 hinside
    obtain ⟨hheader, hheader'⟩ := List.forall_mem_append.1 hheader
    have hinner := ihInner htidy hquotes hinside hheader
    have hargs := isArgument_of_mem_arguments (Vocabulary.english folded).signRule htidy hquotes
    exact List.forall_mem_cons.2 ⟨fun depth b => render_of_read_round hself hargs hself' hinner,
      ihLater htidy' hquotes' hinside' hheader'⟩

end

/-! ## Lines -/

section

open Line

variable {folded : Bool}

/-- An argument that stands alone on a line is rendered like the argument. -/
private theorem render_lone (b : Block) : (lone b).render = b.render := by
  unfold lone
  split
  · -- the block around it has this one piece
    have hwritten : Piece.render none b.toPiece = b.render := by
      rw [Block.toPiece, Piece.render]
      rfl
    rw [Block.render, renderWith, if_neg (by simp), Piece.renderList, Piece.renderList, hwritten]
    · cases b.render with
      | error e => rfl
      | ok t => simp [Written.join, Except.map, Attrs.enclose]
    · simp
  · rfl

/-- What is settled at the end of a line is not rendered. -/
private theorem render_settleLine (v : Vocabulary) (comment : Option Text) (b : Block) :
    (settleLine v comment b).render = b.render := rfl

/-- A line that `isLoneArgument` is the only argument of itself. -/
private theorem mem_arguments_of_isLoneArgument {v : Vocabulary} {p : Typed} (htidy : p.IsTidy)
    (hargs : ∀ arg ∈ p.arguments, IsArgument v.signRule arg) (hlone : isLoneArgument v p.text = true) :
    p.text ∈ p.arguments := by
  have hwoven := isInterwoven htidy hargs
  rw [isLoneArgument, Bool.and_eq_true, beq_iff_eq] at hlone
  obtain ⟨hleading, hlength⟩ := hlone
  obtain ⟨token, htoken⟩ := List.length_eq_one_iff.1 hlength
  have hflatten := flatten_texts_tokenize v.signRule p.text
  have htexts := hwoven.texts_eq
  rw [← text_eq_weave] at htexts
  rw [Tokens.texts, htoken] at hflatten htexts
  have htext : token.text = p.text := by simpa using hflatten
  -- weaving gives back the arguments, and the single token is one
  have harguments := Fragment.argumentsOf_interleave hwoven.fits hwoven.literal
    fun arg harg => (hargs arg harg).leading?_isSome
  rw [← htexts, List.map_singleton, htext, Fragment.argumentsOf, List.filter_singleton, hleading] at harguments
  rw [← harguments]
  exact List.mem_singleton_self p.text

/-- A line that `IsCanonical` and `IsRestorable`, which is to say that it shows what it is, is written by
    `render` as it has been typed, at any depth, unless it is nested too deeply to be read. -/
theorem render_readLine {p : Typed} (hcanonical : p.IsCanonical)
    (hrestorable : p.IsRestorable (Vocabulary.english folded))
    (hdeep : ((Vocabulary.english folded).readLine p.text).result ≠ .error .tooDeep) :
    ∃ b, ((Vocabulary.english folded).readLine p.text).result = .ok b ∧ b.render = .ok p.text := by
  obtain ⟨htidy, htidy'⟩ := List.forall_mem_cons.1 hcanonical.tidy
  have hargs := isArgument_of_mem_arguments (Vocabulary.english folded).signRule htidy' hcanonical.quotes
  have hrender := render_of_read_argument htidy' hcanonical.quotes hrestorable.fragments hrestorable.quotes
  have hslashes : ¬ "//".toList <:+: p.text := by
    rw [text_eq_weave]
    exact not_slashes_weave p.fits htidy.unslashed hargs
  -- no comment starts in the line, so all of it is read
  have hline : (Vocabulary.english folded).readLine p.text =
      withComment (Vocabulary.english folded) none (readBare (Vocabulary.english folded) p.text) := by
    simp only [Vocabulary.readLine, htidy.trimmed, splitComment_eq_none hslashes]
  -- the only fault is that of depth, which has been excluded
  cases hresult : ((Vocabulary.english folded).readLine p.text).result with
  | error f =>
    rw [hresult, Vocabulary.readLine_eq_error (Vocabulary.english_drawable folded) hresult] at hdeep
    exact absurd rfl hdeep
  | ok b =>
    refine ⟨b, rfl, ?_⟩
    rw [hline, withComment_none_result] at hresult
    obtain ⟨b₀, hbare, rfl⟩ := Outcome.map_eq_ok (o := readBare (Vocabulary.english folded) p.text) hresult
    rw [render_settleLine]
    unfold readBare at hbare
    split at hbare
    · -- the line is an argument
      rename_i hlone
      obtain ⟨b₁, hread, rfl⟩ := Outcome.map_eq_ok hbare
      rw [render_lone]
      exact hrender _ (mem_arguments_of_isLoneArgument htidy hargs hlone) _ b₁ hread
    · -- the line is a block, and its arguments are written as they have been typed
      have hwoven := isInterwoven htidy hargs
      have hheader := hrestorable.unheaded
      have hdrawn := hrestorable.drawn
      rw [text_eq_weave] at hheader hdrawn hbare ⊢
      obtain ⟨a, -, hcategory, hshape, hblock⟩ := hwoven.render_of_read true _ htidy.unslotted htidy.apart rfl
        hheader (Fragment.insertShape?_none _ _) hdrawn hbare fun arg harg => hrender arg harg _
      rw [Fragment.outerBracket, if_pos rfl, Fragment.blockShape_none] at hshape
      rw [hblock, Attrs.enclose_of_line hcategory hshape]

/-- Brackets in brackets, with a menu, a sign and an empty number. -/
theorem render_readLine_of_nested :
    ∃ b, ((Vocabulary.english true).readLine "my ((bar) [a < b v] ()) bar".toList).result = .ok b ∧
      b.render = .ok "my ((bar) [a < b v] ()) bar".toList := by
  let p : Typed := nested "my ".toList
    (nested [] (last "bar".toList) (quoted [' '] "a < b v".toList (nested [' '] (last []) (last []))))
    (last " bar".toList)
  have htext : p.text = "my ((bar) [a < b v] ()) bar".toList := by decide +kernel
  have hcanonical : p.IsCanonical := by decide +kernel
  -- no fragment has a key like one of the index, by its letters
  have hletters : ∀ f ∈ p :: p.fragments,
      ((Vocabulary.english true).key f.spec).all "bar my_v".toList.contains = true := by
    decide +kernel
  have hrestorable : p.IsRestorable (Vocabulary.english true) :=
    hcanonical.isRestorable (by decide +kernel) (by decide +kernel)
      (fun f hf => Vocabulary.index_eq_none_of_letters (hletters f hf)) (by decide +kernel)
  rw [← htext]
  exact render_readLine hcanonical hrestorable (Vocabulary.readLine_ne_tooDeep (by decide +kernel))

end

end Typed

end BlockScript
