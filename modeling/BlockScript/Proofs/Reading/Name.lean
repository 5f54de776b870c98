import BlockScript.Block.Render
import BlockScript.Proofs.Reading.Origin
import BlockScript.Proofs.Text.Key
import BlockScript.Proofs.Text.Weave
import BlockScript.Proofs.Token.Plain
import BlockScript.Proofs.Vocabulary.English

/-!
# Names of reporters and parameters

A reporter that is not known may be named like a parameter. It is registered under its spec, which is
padded, and the parameter under its name as it stands in brackets. Padding leaves a name alone unless it
has an underscore next to something else.

## Key results

- `Fragment.isName_iff`: which texts are names
- `Fragment.form_of_isName`: the reporter with a name is registered under the padded name
- `Line.readLine_headerOf`: a header registers the name of a parameter
-/

namespace BlockScript

/-- Whether a text can be put into brackets as it is. -/
structure IsPhrase (n : Text) : Prop where
  filled : n ≠ []
  trimmed : Text.trim n = n
  plain : ∀ c ∈ n, Bracket.isPlain c = true
  uncoloned : ¬ "::".toList <:+: n
  unslashed : ¬ "//".toList <:+: n

/-- Whether a text is a name that has no meaning by itself: in round brackets it is a reporter that is
    not known. -/
structure IsName (v : Vocabulary) (n : Text) : Prop extends IsPhrase n where
  unknown : ∃ b, (v.readFragment false (Bracket.round.enclose n)).result = .ok b ∧
    b.attrs.namedAs ≠ none

/-- `strip` takes off what `enclose` puts around. -/
theorem Bracket.strip_enclose (b : Bracket) (t : Text) : strip (b.enclose t) = t :=
  strip_enclosed b t

namespace Fragment

/-! ## Unknown blocks -/

/-- A block that is in no `index` is taken for an unknown one. -/
theorem identify_of_index_eq_none {v : Vocabulary} {spec : Text}
    (h : Dictionary.get? (v.key spec) v.index = none) (args : List Text) (shape : Shape) :
    identify v spec args shape = .ok ⟨unknownAttrs spec shape, spec⟩ := by
  have hfind : v.find? spec args = .ok none := Vocabulary.find?_eq_none_iff.2 h
  simp only [identify, hfind, ite_self]

/-- A block that `find?` gives is the one that is identified, unless it closes C blocks. -/
theorem identify_of_find? {v : Vocabulary} {spec : Text} {args : List Text} {f : Found}
    (hspec : spec ≠ []) (h : v.find? spec args = .ok (some f)) (hflag : f.attrs.flag ≠ some .cEnd)
    (shape : Shape) :
    identify v spec args shape = .ok ⟨knownAttrs f.attrs shape, f.text⟩ := by
  simp only [identify, if_neg hspec, h, if_neg hflag]

/-- Only what is in no `index` is registered as a reporter. -/
private theorem index_eq_none_of_namedAs {v : Vocabulary} {spec : Text} {args : List Text} {shape : Shape}
    {f : Found} (hspec : spec ≠ []) (h : identify v spec args shape = .ok f)
    (hnamed : f.attrs.namedAs ≠ none) : Dictionary.get? (v.key spec) v.index = none := by
  rw [identify, if_neg hspec] at h
  cases hfind : v.find? spec args with
  | error e =>
    rw [hfind] at h
    cases h
  | ok found =>
    rw [hfind] at h
    cases found with
    | none => exact Vocabulary.find?_eq_none_iff.1 hfind
    -- what is known is never registered
    | some known =>
      cases h
      exact absurd (Vocabulary.find?_attrs hfind).2.2.1 hnamed

/-- What is registered as a reporter is no header and no insert. -/
private theorem not_whole_of_namedAs {v : Vocabulary} {isLine : Bool} {code : Text} {a : Attrs}
    (h : (form v isLine code).attrs? = some a) (hnamed : a.namedAs ≠ none) :
    v.header? (if isLine then code else Bracket.strip code) = none ∧
      insertShape? (outerBracket isLine code)
        (tokenize v.signRule (if isLine then code else Bracket.strip code)).texts
        (if isLine then code else Bracket.strip code) = none := by
  unfold form at h
  dsimp only at h
  split at h
  · cases h
    exact absurd rfl hnamed
  · rename_i hheader
    split at h
    · cases h
      exact absurd rfl hnamed
    · rename_i hinsert
      exact ⟨hheader, hinsert⟩

/-- Without arguments `fillSlots` leaves the slots as they are. -/
theorem fillSlots_nil (nested : Text → Outcome Block) (parts : List Text) :
    fillSlots nested parts [] = .done (parts.map .text) := by
  induction parts with
  | nil => rfl
  | cons part parts ih =>
    rw [fillSlots, ih]
    · rfl
    · rintro _ _ - hargs
      cases hargs

/-! ## A line with one argument -/

/-- The `form` of a line that consists of a word and an argument is what has the word and a slot for its
    spec. -/
theorem form_of_tokens {v : Vocabulary} {line word arg spec text : Text} {attrs : Attrs}
    (hheader : v.header? line = none) (htokens : (tokenize v.signRule line).texts = [word, arg])
    (hword : Text.trimLeft word = word) (harg : Text.trimRight arg = arg)
    (hargs : argumentsOf [word, arg] = [arg])
    (hspec : Override.split (specOf [word, arg]) = (spec, []))
    (hidentify : identify v spec [arg] .stack = .ok ⟨attrs, text⟩) :
    form v true line =
      .block attrs [] (partsAt (isMark (attrs.id == some "_ + _".toList)) text) [arg] := by
  have htrim : trimEnds [word, arg] = [word, arg] := by
    rw [trimEnds, trimEnds.trimLast, hword, harg]
    simp
  have hinsert : insertShape? none [word, arg] line = none := by
    simp [insertShape?]
  have hblock : blockShape none [word, arg] line = .stack := by
    simp [blockShape, Shape.ofBlock]
  simp only [form, if_true, hheader, htokens, htrim, hspec, hargs, outerBracket, hinsert, hblock,
    hidentify]

/-- `readFragment` gives for such a line a block with two pieces, the word and what the argument is read
    as. -/
theorem readFragment_of_form {v : Vocabulary} {line word arg : Text} {attrs : Attrs} {b : Block}
    (hform : form v true line = .block attrs [] [word, ['_']] [arg]) (hword : word ≠ ['_'])
    (harg : (readArgument v arg).result = .ok b) :
    (v.readFragment true line).result = .ok ⟨attrs, [.text word, b.toPiece]⟩ ∧
      (v.readFragment true line).sightings = ownSighting attrs ++ (readArgument v arg).sightings ++
        (listUse? ⟨attrs, [.text word, b.toPiece]⟩).toList.map .list := by
  -- the word is no slot, so the argument goes into the second part
  have hslots : (fillSlots (readArgument v) [word, ['_']] [arg]).result =
        .ok [.text word, b.toPiece] ∧
      (fillSlots (readArgument v) [word, ['_']] [arg]).sightings =
        (readArgument v arg).sightings := by
    rw [fillSlots]
    · simp [fillSlots, Outcome.andThen, Outcome.map, Outcome.done, harg, Except.map]
    · exact fun _ _ hslot => absurd hslot hword
  -- so the block has the word and the argument for its pieces
  have hresult : ((form v true line).read (readArgument v)).result =
      .ok ⟨attrs, [.text word, b.toPiece]⟩ := by
    rw [hform, Form.read, finish, hslots.1]
    rfl
  rw [readFragment_result, readFragment_sightings]
  refine ⟨hresult, ?_⟩
  rw [hform] at hresult ⊢
  have hsightings := finish_sightings hresult
  rw [hslots.2, if_pos rfl] at hsightings
  exact hsightings

/-! ## The reporter -/

/-- Text in which all characters are `isPlain` starts with no bracket. -/
theorem leading?_of_plain {t : Text} (h : ∀ c ∈ t, Bracket.isPlain c = true) :
    Bracket.leading? t = none := by
  cases t with
  | nil => rfl
  | cons c rest =>
    have hc := h c List.mem_cons_self
    simp only [Bracket.isPlain, Bool.and_eq_true, Option.isNone_iff_eq_none] at hc
    exact hc.1

/-- A text without brackets is its own spec, but for padding, and has no arguments. -/
private theorem specOf_plain {t : Text} (h : ∀ c ∈ t, Bracket.isPlain c = true) :
    specOf [t] = Text.padSlots t ∧ argumentsOf [t] = [] := by
  have hleading := leading?_of_plain h
  constructor
  · simp [specOf, Piece.spec, Piece.inSpec, hleading]
  · simp [argumentsOf, hleading]

/-- A phrase is one token. -/
private theorem tokenize_phrase {n : Text} (hn : IsPhrase n) (rule : SignRule) :
    (tokenize rule n).texts = [n] := by
  rw [tokenize_plain rule hn.filled hn.plain]
  rfl

/-- A phrase in round brackets that is no header and no insert is looked up under the padded phrase. -/
private theorem form_phrase {v : Vocabulary} {n : Text} (hn : IsPhrase n) (hheader : v.header? n = none)
    (hshape : Shape.ofArgument (some .round) n = .reporter) :
    form v false (Bracket.round.enclose n) =
      match identify v (Text.padSlots n) [] .reporter with
      | .error e => .missing e.id
      | .ok ⟨attrs, text⟩ =>
        .block attrs [] (partsAt (isMark (attrs.id == some "_ + _".toList)) text) [] := by
  have hstrip := Bracket.strip_enclose .round n
  have hbracket : outerBracket false (Bracket.round.enclose n) = some .round := rfl
  have htokens := tokenize_phrase hn v.signRule
  have htrim : trimEnds [n] = [n] := by
    rw [trimEnds, hn.trimmed]
  obtain ⟨hspec, hargs⟩ := specOf_plain hn.plain
  -- padding brings no two colons together
  have hsplit : Override.split (Text.padSlots n) = (Text.padSlots n, []) := by
    refine Override.split_eq_self fun hwithin => hn.uncoloned ?_
    exact Text.isInfix_of_isInfix_padSlots (by decide) hwithin
  -- a reporter is no insert
  have hinsert : insertShape? (some .round) [n] n = none := by
    simp [insertShape?, hshape, Shape.isInsert]
  have hblock : blockShape (some .round) [n] n = .reporter := by
    simp [blockShape, hshape]
  cases hidentify : identify v (Text.padSlots n) [] .reporter with
  | error e =>
    simp only [form, hstrip, hbracket, htokens, htrim, hspec, hargs, hsplit, hheader, hinsert, hblock,
      Bool.false_eq_true, if_false, hidentify]
  | ok f =>
    simp only [form, hstrip, hbracket, htokens, htrim, hspec, hargs, hsplit, hheader, hinsert, hblock,
      Bool.false_eq_true, if_false, hidentify]

/-- What is in no `index` is read as an unknown reporter, which is sighted under the padded phrase. -/
private theorem form_unknown_phrase {v : Vocabulary} {n : Text} (hn : IsPhrase n)
    (hheader : v.header? n = none) (hshape : Shape.ofArgument (some .round) n = .reporter)
    (hindex : Dictionary.get? (v.key (Text.padSlots n)) v.index = none) :
    form v false (Bracket.round.enclose n) =
      .block (unknownAttrs (Text.padSlots n) .reporter) []
        (partsAt (isMark (some (Text.padSlots n) == some "_ + _".toList)) (Text.padSlots n)) [] := by
  rw [form_phrase hn hheader hshape, identify_of_index_eq_none hindex]
  rfl

/-- What stands in round brackets is a reporter if it is no insert. -/
theorem ofArgument_round_of_insertShape? {pieces : List Text} {n : Text} (hsingle : ¬ 1 < pieces.length)
    (h : insertShape? (some .round) pieces n = none) : Shape.ofArgument (some .round) n = .reporter := by
  have hnot : ¬ (Shape.ofArgument (some .round) n).isInsert = true := by
    intro hinsert
    simp [insertShape?, hinsert, hsingle] at h
  revert hnot
  simp only [Shape.ofArgument]
  split
  · simp [Shape.isInsert]
  · split <;> simp [Shape.isInsert]

/-- A phrase `IsName` if it is not used for anything else: a header, an insert or a block. -/
theorem isName_iff {v : Vocabulary} {n : Text} (hn : IsPhrase n) :
    IsName v n ↔ v.header? n = none ∧ Shape.ofArgument (some .round) n = .reporter ∧
      Dictionary.get? (v.key (Text.padSlots n)) v.index = none := by
  constructor
  · -- only unknown reporters are named, so each of the other uses would have left the name out
    intro h
    obtain ⟨b, hb, hnamed⟩ := h.unknown
    have hattrs := attrs?_of_readFragment hb
    obtain ⟨hheader, hinsert⟩ := not_whole_of_namedAs hattrs hnamed
    have hbracket : outerBracket false (Bracket.round.enclose n) = some .round := rfl
    simp only [Bracket.strip_enclose, tokenize_phrase hn, hbracket, Bool.false_eq_true,
      if_false] at hheader hinsert
    have hshape := ofArgument_round_of_insertShape? (by simp) hinsert
    refine ⟨hheader, hshape, ?_⟩
    rw [form_phrase hn hheader hshape] at hattrs
    cases hidentify : identify v (Text.padSlots n) [] .reporter with
    | error e =>
      rw [hidentify] at hattrs
      cases hattrs
    | ok f =>
      rw [hidentify] at hattrs
      have hf : f.attrs = b.attrs := Option.some.inj hattrs
      -- a phrase has characters, and padding keeps them
      have hfilled : Text.padSlots n ≠ [] := by
        obtain ⟨c, hc⟩ := List.exists_mem_of_ne_nil n hn.filled
        exact List.ne_nil_of_mem (Text.mem_padSlots_of_mem hc)
      exact index_eq_none_of_namedAs hfilled hidentify (by rwa [hf])
  · -- without another use the phrase is an unknown reporter, which is named by its spec
    rintro ⟨hheader, hshape, hindex⟩
    refine ⟨hn, ?_⟩
    rw [readFragment_result, form_unknown_phrase hn hheader hshape hindex, Form.read,
      fillSlots_nil]
    exact ⟨_, rfl, by simp [unknownAttrs]⟩

/-- What `IsName` in round brackets has the `form` of an unknown reporter, registered under the padded
    name. -/
theorem form_of_isName {v : Vocabulary} {n : Text} (hn : IsName v n) :
    form v false (Bracket.round.enclose n) =
      .block (unknownAttrs (Text.padSlots n) .reporter) []
        (partsAt (isMark (some (Text.padSlots n) == some "_ + _".toList)) (Text.padSlots n)) [] := by
  obtain ⟨hheader, hshape, hindex⟩ := (isName_iff hn.toIsPhrase).1 hn
  exact form_unknown_phrase hn.toIsPhrase hheader hshape hindex

/-- What `IsName` is read by `readArgument` as an unknown reporter, and sighted under the padded name. -/
theorem readArgument_of_isName {v : Vocabulary} {n : Text} (hn : IsName v n)
    (hlist : Dictionary.get? (Text.padSlots n) listArguments = none) :
    ∃ b, (readArgument v (Bracket.round.enclose n)).result = .ok b ∧
      (readArgument v (Bracket.round.enclose n)).sightings =
        [.reporter (Text.padSlots n) (some .vars)] := by
  rw [readArgument_eq_readWith, readWith_result, readWith_sightings, form_of_isName hn, Form.read, fillSlots_nil]
  refine ⟨_, rfl, ?_⟩
  have huse : ∀ pieces, listUse? ⟨unknownAttrs (Text.padSlots n) .reporter, pieces⟩ = none := by
    intro pieces
    simp [listUse?, unknownAttrs, hlist]
  rw [finish_sightings rfl, if_pos rfl, show _ = none from huse _]
  rfl

end Fragment

/-! ## The parameter -/

namespace Line

/-- `splitComment` finds nothing in a text without two slashes in a row. -/
theorem splitComment_eq_none {t : Text} (h : ¬ "//".toList <:+: t) (before : Text) :
    splitComment before t = none := by
  induction t generalizing before with
  | nil => rfl
  | cons c rest ih =>
    have hrest : ¬ "//".toList <:+: rest := fun hwithin => h (List.infix_cons hwithin)
    rw [splitComment_cons before fun rest' hslashes => h ?_]
    · exact ih hrest (c :: before)
    · rw [hslashes]
      exact ⟨[], rest', rfl⟩

/-- `readLine` reads a line without a comment that does not start with a bracket by `readFragment`, as it
    is. -/
theorem readLine_eq_withComment {v : Vocabulary} {line : Text} (htrim : Text.trim line = line)
    (hsplit : splitComment [] line = none) (hleading : Bracket.leading? line = none) :
    v.readLine line = withComment v none (v.readFragment true line) ∧
      readOrigins v line = Fragment.origins v Fragment.nestingLimit true line := by
  have hlone : isLoneArgument v line = false := by
    simp [isLoneArgument, hleading]
  constructor
  · simp only [Vocabulary.readLine, htrim, hsplit, readBare, hlone, Bool.false_eq_true, if_false]
  · simp only [readOrigins, htrim, hsplit, bareOrigins, hlone, Bool.false_eq_true, if_false]
    rfl

/-- If such a line can be read, its `origins` are those of the fragment that it is. -/
theorem lineOrigins_eq_origins {v : Vocabulary} {line : Text} {b : Block}
    (htrim : Text.trim line = line) (hsplit : splitComment [] line = none)
    (hleading : Bracket.leading? line = none) (hread : (v.readFragment true line).result = .ok b) :
    (∃ b', (v.readLine line).result = .ok b') ∧
      v.lineOrigins line = Fragment.origins v Fragment.nestingLimit true line := by
  obtain ⟨hline, horigins⟩ := readLine_eq_withComment (v := v) htrim hsplit hleading
  have hok : ∃ b', (v.readLine line).result = .ok b' := by
    rw [hline, withComment, hread]
    exact ⟨_, rfl⟩
  refine ⟨hok, ?_⟩
  obtain ⟨b', hok⟩ := hok
  rw [Vocabulary.lineOrigins, hok]
  exact horigins

/-- The header of a block with the given parameter. -/
def headerOf (n : Text) : Text := "define foo ".toList ++ Bracket.round.enclose n

/-- The line is a header. -/
private theorem header?_headerOf (folded : Bool) (n : Text) :
    (Vocabulary.english folded).header? (headerOf n) = some "define".toList := by
  have htake : (headerOf n).take "define".toList.length = "define".toList := rfl
  have hnext : ((headerOf n).drop "define".toList.length).head? = some ' ' := rfl
  rw [Vocabulary.header?, Vocabulary.english_headerWords, List.find?_cons_of_pos]
  rw [htake, hnext]
  simp

/-- The block that the header gives. -/
def headerBlock (n : Text) : Block :=
  Fragment.definition (headerOf n) "define".toList ["define foo ".toList, Bracket.round.enclose n]

/-- It is taken for a header with one parameter. -/
private theorem form_headerOf (folded : Bool) {n : Text} (hn : IsPhrase n) :
    Fragment.form (Vocabulary.english folded) true (headerOf n) = .whole (headerBlock n) := by
  have hheader := header?_headerOf folded n
  -- nothing else of the vocabulary is asked for
  generalize Vocabulary.english folded = v at hheader ⊢
  have hfront : ∀ c ∈ "define foo ".toList, Bracket.isPlain c = true :=
    List.all_eq_true.1 (by decide +kernel)
  have htwo := tokenize_plain_argument v.signRule (s := "define foo ".toList) (by decide) hfront
    hn.plain
  have htokens : (tokenize v.signRule (headerOf n)).texts =
      ["define foo ".toList, Bracket.round.enclose n] := congrArg Tokens.texts htwo
  simp only [Fragment.form, if_true, hheader, htokens]
  rfl

/-- What it sights is a definition and the parameter, under its name as it stands there. -/
private theorem headerSightings_headerBlock (v : Vocabulary) {n : Text} (hn : Text.trim n = n) :
    headerSightings v (headerBlock n) = [.definition (v.key "foo _".toList), .parameter n] := by
  have hfirst : Text.trimLeft ("define foo ".toList.drop "define".toList.length) = "foo ".toList := by
    decide +kernel
  have houtline : outlineOf (headerBlock n) =
      [.text "foo ".toList, (Fragment.parameter (Bracket.round.enclose n)).toPiece] := by
    simp only [outlineOf, headerBlock, Fragment.definition, Block.arguments, Piece.blocks,
      Fragment.outlineTexts, hfirst]
    rfl
  have hname : (Fragment.parameter (Bracket.round.enclose n)).pieces = [.text n] := by
    rw [Fragment.parameter, Bracket.strip_enclose, hn]
  -- its call has a slot for the parameter
  have hspec : Piece.spec (outlineOf (headerBlock n)) = "foo _".toList := by
    rw [houtline]
    rfl
  -- and the parameter is sighted as it stands in the outline
  have hparameter : ((Piece.blocks (outlineOf (headerBlock n))).filterMap fun p =>
      (p.pieces.head?.bind Piece.text?).map Sighting.parameter) = [.parameter n] := by
    rw [houtline, Piece.blocks, Fragment.blocks_toPiece_cons, List.filterMap_cons, hname]
    rfl
  rw [headerSightings, hspec, hparameter]

/-- Brackets keep two slashes from coming together. -/
theorem not_isInfix_append_enclose {s t : Text} (b : Bracket) (hs : ¬ "//".toList <:+: s)
    (ht : ¬ "//".toList <:+: t) : ¬ "//".toList <:+: s ++ b.enclose t := by
  have hopener : b.opener ≠ '/' := by cases b <;> decide
  have hcloser : b.closer ≠ '/' := by cases b <;> decide
  exact Text.not_isInfix_append_cons hopener hs (Text.not_isInfix_append_cons hcloser ht (by decide))

/-- A `headerOf` a name registers its parameter under the name that stands in the brackets. -/
theorem readLine_headerOf (folded : Bool) {n : Text} (hn : IsPhrase n)
    (htrim : Text.trim (headerOf n) = headerOf n) :
    ∃ b key, ((Vocabulary.english folded).readLine (headerOf n)).result = .ok b ∧
      ((Vocabulary.english folded).readLine (headerOf n)).sightings =
        [.definition key, .parameter n] := by
  have hform := form_headerOf folded hn
  generalize Vocabulary.english folded = v at hform ⊢
  have hresult := Fragment.readFragment_result v true (headerOf n)
  have hsightings := Fragment.readFragment_sightings v true (headerOf n)
  rw [hform] at hresult hsightings
  -- no comment starts in the header, so it is read as a whole
  have hslash : ¬ "//".toList <:+: "define foo ".toList := by decide +kernel
  have hsplit : splitComment [] (headerOf n) = none :=
    splitComment_eq_none (not_isInfix_append_enclose .round hslash hn.unslashed) []
  have hdirective : (applyDirective none (headerBlock n)).1 = headerBlock n := rfl
  have hshape : (headerBlock n).attrs.shape = some .defineHat := rfl
  have hheader := headerSightings_headerBlock v hn.trimmed
  simp only [Fragment.Form.read, Outcome.done] at hresult hsightings
  rw [(readLine_eq_withComment htrim hsplit rfl).1]
  simp only [withComment, hresult, hsightings, hdirective, lineSightings, hshape, hheader,
    if_true]
  exact ⟨_, _, rfl, rfl⟩

end Line

end BlockScript
