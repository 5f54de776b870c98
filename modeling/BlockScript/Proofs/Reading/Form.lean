import BlockScript.Proofs.Block.Attrs
import BlockScript.Proofs.Lists
import BlockScript.Proofs.Reading.Fragment

/-!
# What a fragment is taken for

Reading a fragment has two stages. First it is decided what the fragment is: a header or an insert, in
which nothing is nested, or a block with some arguments. This takes the text of the fragment alone. Then
the arguments are read into the slots of the block, each one by itself. So the attributes of a block are
those that its own fragment gives it, but for a ring, which the block around it draws.

## Key results

- `Fragment.readWith_eq_form`: reading is taking a fragment for something and then reading its arguments
- `Fragment.form_eq_whole`, `Fragment.form_eq_block`: what is taken for a header or an insert, and for a block
- `Fragment.fillSlots_eq_ok`: the slots are filled by the arguments, in order, as far as they go
- `Fragment.read_succ_eq_ok`: what a fragment gives, by what it is taken for
- `Fragment.read_induction`: what is so of all that is read
-/

namespace BlockScript

namespace Fragment

/-! ## Forms -/

/-- What a fragment is taken for, before anything that is nested in it is read. -/
inductive Form where
  /-- A header or an insert. -/
  | whole (b : Block)
  /-- A block: its attributes without overrides, the words of these, the parts of the text that it is
      drawn with, and its arguments. -/
  | block (attrs : Attrs) (words parts args : List Text)
  /-- A block with an image that has no spec in the language in which it was found. -/
  | missing (id : Text)

namespace Form

/-- The attributes of the block that a fragment gives. -/
def attrs? : Form → Option Attrs
  | whole b => some b.attrs
  | block attrs words _ _ => some (Override.applyAll (words.map .ofWord) attrs)
  | missing _ => none

/-- The category that overrides ask for: that of the last word that names one. -/
def requested? : Form → Option Category
  | block _ words _ _ => (words.filterMap Override.category?).getLast?
  | _ => none

/-- Whether it is the header of a defined block. -/
def isHeader : Form → Bool
  | whole b => b.attrs.shape == some .defineHat
  | _ => false

/-- The arguments that slots are filled with: one for each slot, as far as they go. -/
def slotted : Form → List Text
  | block _ _ parts args => args.take (parts.count ['_'])
  | _ => []

/-- Go on from a form, given how to read what is nested. -/
def read (nested : Text → Outcome Block) : Form → Outcome Block
  | whole b => .done b
  | block attrs words parts args => finish attrs words (fillSlots nested parts args)
  | missing id => .fail (.missingSpec id)

end Form

/-- What a fragment is taken for. -/
def form (v : Vocabulary) (isLine : Bool) (code : Text) : Form :=
  let bracket := outerBracket isLine code
  let inner := if isLine then code else Bracket.strip code
  let pieces := (tokenize v.signRule inner).texts
  match v.header? inner with
  | some word => .whole (definition inner word pieces)
  | none =>
    match insertShape? bracket pieces inner with
    | some shape => .whole (insert shape inner)
    | none =>
      let spec := Override.split (specOf (trimEnds pieces))
      let args := argumentsOf (trimEnds pieces)
      match identify v spec.1 args (blockShape bracket pieces inner) with
      | .error e => .missing e.id
      | .ok ⟨attrs, text⟩ =>
        .block attrs spec.2 (partsAt (isMark (attrs.id == some "_ + _".toList)) text) args

/-- What is said against the brackets of a fragment. -/
def bracketComplaints (v : Vocabulary) (isLine : Bool) (code : Text) : List Complaint :=
  outerComplaints (outerBracket isLine code) code ++
    innerComplaints (outerBracket isLine code)
      (tokenize v.signRule (if isLine then code else Bracket.strip code))

/-- A fragment is read by its `form`, apart from complaints about its brackets. -/
theorem readWith_eq_form (v : Vocabulary) (nested : Text → Outcome Block) (isLine : Bool)
    (code : Text) :
    readWith v nested isLine code =
      ((form v isLine code).read nested).after (bracketComplaints v isLine code) [] := by
  simp only [readWith, form, bracketComplaints]
  congr 1
  generalize (if isLine = true then code else Bracket.strip code) = inner
  generalize outerBracket isLine code = bracket
  -- both look for a header first, then for an insert, and then for a block
  cases hheader : v.header? inner with
  | some word => rfl
  | none =>
    cases hinsert : insertShape? bracket (tokenize v.signRule inner).texts inner with
    | some shape => rfl
    | none =>
      simp only [readBlock]
      cases identify v (Override.split (specOf (trimEnds (tokenize v.signRule inner).texts))).1
        (argumentsOf (trimEnds (tokenize v.signRule inner).texts))
        (blockShape bracket (tokenize v.signRule inner).texts inner) with
      | error e => rfl
      | ok f => rfl

/-- What `readWith` gives is what the `form` of the fragment gives. -/
theorem readWith_result (v : Vocabulary) (nested : Text → Outcome Block) (isLine : Bool) (code : Text) :
    (readWith v nested isLine code).result = ((form v isLine code).read nested).result := by
  rw [readWith_eq_form]
  rfl

/-- It sights what the `form` sights. -/
theorem readWith_sightings (v : Vocabulary) (nested : Text → Outcome Block) (isLine : Bool) (code : Text) :
    (readWith v nested isLine code).sightings = ((form v isLine code).read nested).sightings := by
  rw [readWith_eq_form]
  rfl

/-- With one level more, `read` goes on from the form and reads what is nested with one level less. -/
theorem read_succ_result (v : Vocabulary) (depth : Nat) (isLine : Bool) (code : Text) :
    (read v (depth + 1) isLine code).result =
      ((form v isLine code).read (read v depth false)).result := by
  rw [read, readWith_result]

/-- What `read` sights, with a level to spare, is what the `form` sights. -/
theorem read_succ_sightings (v : Vocabulary) (depth : Nat) (isLine : Bool) (code : Text) :
    (read v (depth + 1) isLine code).sightings =
      ((form v isLine code).read (read v depth false)).sightings := by
  rw [read, readWith_sightings]

/-- `Vocabulary.readFragment` goes on from the form with `readArgument`. -/
theorem readFragment_result (v : Vocabulary) (isLine : Bool) (code : Text) :
    (v.readFragment isLine code).result = ((form v isLine code).read (readArgument v)).result := by
  rw [readFragment_eq_readWith, readWith_result]

/-- What `readFragment` sights is what the `form` does, with arguments read by `readArgument`. -/
theorem readFragment_sightings (v : Vocabulary) (isLine : Bool) (code : Text) :
    (v.readFragment isLine code).sightings =
      ((form v isLine code).read (readArgument v)).sightings := by
  rw [readFragment_eq_readWith, readWith_sightings]

/-- A line that leaves no bracket open is read by its `form` alone, for there is nothing to complain of. -/
theorem readFragment_of_closed {v : Vocabulary} {line : Text}
    (h : (tokenize v.signRule line).unclosed = none) :
    v.readFragment true line = (form v true line).read (readArgument v) := by
  have hcomplaints : bracketComplaints v true line = [] := by
    simp [bracketComplaints, outerBracket, outerComplaints, innerComplaints, h]
  rw [readFragment_eq_readWith, readWith_eq_form, hcomplaints]
  rfl

/-! ## Filling slots -/

/-- What is known of the pieces of a block when its slots have been filled: the arguments have been
    read one by one, the blocks among the pieces are what they give, and what they sight is sighted in
    order. -/
structure Filled (nested : Text → Outcome Block) (parts args : List Text) (ps : List Piece) : Prop where
  blocks : List.Forall₂ (fun arg b => (nested arg).result = .ok b)
    (args.take (parts.count ['_'])) (Piece.blocks ps)
  texts : ∀ t, .text t ∈ ps → t ∈ parts
  sightings : (fillSlots nested parts args).sightings =
    (args.take (parts.count ['_'])).flatMap fun arg => (nested arg).sightings

theorem blocks_toPiece_cons (b : Block) (ps : List Piece) :
    Piece.blocks (b.toPiece :: ps) = b :: Piece.blocks ps := by
  rw [Block.toPiece, Piece.blocks]

/-- When `fillSlots` succeeds, the pieces are what `Filled` says. -/
theorem fillSlots_eq_ok {nested : Text → Outcome Block} {parts args : List Text} {ps : List Piece}
    (h : (fillSlots nested parts args).result = .ok ps) : Filled nested parts args ps := by
  -- by induction on the parts; the count of slots in the rest says how many arguments are still taken
  induction parts generalizing args ps with
  | nil =>
    cases h
    exact ⟨by simp [Piece.blocks], by simp, by simp [fillSlots, Outcome.done]⟩
  | cons part parts ih =>
    unfold fillSlots at h
    split at h
    · -- a slot takes the next argument
      rename_i arg args
      obtain ⟨b, qs, hb, hqs, rfl⟩ := Outcome.andThen_map_eq_ok h
      have hrest := ih hqs
      refine ⟨?_, ?_, ?_⟩
      · rw [List.count_cons_self, List.take_succ_cons, blocks_toPiece_cons]
        exact .cons hb hrest.blocks
      · intro t ht
        rcases List.mem_cons.1 ht with ht | ht
        · cases ht
        · exact List.mem_cons_of_mem _ (hrest.texts t ht)
      · rw [List.count_cons_self, List.take_succ_cons, List.flatMap_cons, ← hrest.sightings]
        simp only [fillSlots, Outcome.andThen, hb, Outcome.map]
    · -- any other part stays, and so does a slot for which no argument is left
      rename_i hslot
      obtain ⟨qs, hqs, rfl⟩ := Outcome.map_eq_ok h
      have hrest := ih hqs
      have htake : args.take ((part :: parts).count ['_']) = args.take (parts.count ['_']) := by
        by_cases hpart : part = ['_']
        · cases args with
          | nil => simp
          | cons arg args => exact absurd rfl (hslot arg args hpart)
        · rw [List.count_cons_of_ne hpart]
      refine ⟨?_, ?_, ?_⟩
      · rw [htake, Piece.blocks]
        exact hrest.blocks
      · intro t ht
        rcases List.mem_cons.1 ht with ht | ht
        · cases ht
          exact List.mem_cons_self
        · exact List.mem_cons_of_mem _ (hrest.texts t ht)
      · rw [htake, ← hrest.sightings, fillSlots]
        · rfl
        · exact hslot

/-! ## Finished blocks -/

/-- What `read` gives for a fragment is what it is taken for, or a block with what its arguments give with one
    level less. -/
theorem read_succ_eq_ok {v : Vocabulary} {depth : Nat} {isLine : Bool} {code : Text} {b : Block}
    (h : (read v (depth + 1) isLine code).result = .ok b) :
    form v isLine code = .whole b ∨
      ∃ attrs words parts args, form v isLine code = .block attrs words parts args ∧
        (finish attrs words (fillSlots (read v depth false) parts args)).result = .ok b := by
  rw [read_succ_result] at h
  cases hform : form v isLine code with
  | whole b₀ =>
    rw [hform] at h
    cases h
    exact .inl rfl
  | block attrs words parts args =>
    rw [hform] at h
    exact .inr ⟨attrs, words, parts, args, rfl, h⟩
  -- what is missing gives no block
  | missing id =>
    rw [hform] at h
    cases h

/-- What is so of all that `form` takes for a whole, and of a block if it is so of what is nested in it, is so
    of all that `read` gives. -/
theorem read_induction {v : Vocabulary} {P : Bool → Block → Prop}
    (hwhole : ∀ {isLine code b}, form v isLine code = .whole b → P isLine b)
    (hblock : ∀ {isLine code attrs words parts args b pieces},
      form v isLine code = .block attrs words parts args → (finish attrs words pieces).result = .ok b →
        (∀ ps, pieces.result = .ok ps → ∀ c ∈ Piece.blocks ps, P false c) → P isLine b)
    {depth : Nat} {isLine : Bool} {code : Text} {b : Block}
    (h : (read v depth isLine code).result = .ok b) : P isLine b := by
  induction depth generalizing isLine code b with
  | zero => cases h
  | succ depth ih =>
    obtain hform | ⟨attrs, words, parts, args, hform, hfinish⟩ := read_succ_eq_ok h
    · exact hwhole hform
    · refine hblock hform hfinish fun ps hps => ?_
      -- what is nested has been read with one level less
      exact Lists.forall_right_of_forall₂ (fillSlots_eq_ok hps).blocks fun _ _ hc => ih hc

/-- What is read of a form has the `attrs?` of the form. -/
theorem Form.attrs?_of_read {nested : Text → Outcome Block} {f : Form} {b : Block}
    (h : (f.read nested).result = .ok b) : f.attrs? = some b.attrs := by
  cases f with
  | whole b₀ =>
    cases h
    rfl
  | block attrs words parts args =>
    obtain ⟨ps, -, hattrs, -⟩ := finish_eq_ok h
    rw [attrs?, hattrs]
  | missing id => cases h

/-- The block that `Vocabulary.readFragment` gives has the attributes of its `form`. -/
theorem attrs?_of_readFragment {v : Vocabulary} {isLine : Bool} {code : Text} {b : Block}
    (h : (v.readFragment isLine code).result = .ok b) : (form v isLine code).attrs? = some b.attrs := by
  rw [readFragment_result] at h
  exact Form.attrs?_of_read h

/-! ## The shapes of blocks -/

/-- Brackets and text tell the shape of an insert, or one that words can give. -/
private theorem ofArgument_isInsert_or_mem (bracket : Option Bracket) (t : Text) :
    (Shape.ofArgument bracket t).isInsert = true ∨
      Shape.ofArgument bracket t ∈ Override.shapes := by
  unfold Shape.ofArgument
  repeat' split
  all_goals decide

/-- What `insertShape?` takes for an insert has the shape of one. -/
theorem isInsert_of_insertShape? {bracket : Option Bracket} {pieces : List Text} {code : Text}
    {shape : Shape} (h : insertShape? bracket pieces code = some shape) : shape.isInsert = true := by
  simp only [insertShape?, Option.ite_none_left_eq_some, Option.ite_none_right_eq_some,
    Option.some.injEq] at h
  obtain ⟨-, hinsert, rfl⟩ := h
  exact hinsert

/-- `insertShape?` gives the shape that brackets and text tell by `ofArgument`. -/
theorem eq_ofArgument_of_insertShape? {bracket : Option Bracket} {pieces : List Text} {code : Text}
    {shape : Shape} (h : insertShape? bracket pieces code = some shape) :
    shape = Shape.ofArgument bracket code := by
  simp only [insertShape?, Option.ite_none_left_eq_some, Option.ite_none_right_eq_some,
    Option.some.injEq] at h
  exact h.2.2.symm

/-- Without brackets `insertShape?` finds no insert. -/
theorem insertShape?_none (pieces : List Text) (code : Text) : insertShape? none pieces code = none := by
  simp [insertShape?, Shape.ofArgument, Shape.isInsert]

/-- A line is the place of a `stack` block. -/
theorem blockShape_none (pieces : List Text) (code : Text) : blockShape none pieces code = .stack := by
  simp [blockShape, Shape.ofArgument, Shape.ofBlock]

/-- The shape of a place is one that words can give, if the fragment is no insert. -/
private theorem blockShape_mem {bracket : Option Bracket} {pieces : List Text} {inner : Text}
    (h : insertShape? bracket pieces inner = none) :
    blockShape bracket pieces inner ∈ Override.shapes := by
  unfold blockShape
  split
  · unfold Shape.ofBlock
    split <;> decide
  · rename_i hpieces
    apply (ofArgument_isInsert_or_mem bracket inner).resolve_left
    simpa [insertShape?, hpieces] using h

/-- A fragment whose `form` is a whole is a header, or else an insert. -/
theorem form_eq_whole {v : Vocabulary} {isLine : Bool} {code : Text} {b : Block}
    (h : form v isLine code = .whole b) :
    ∃ inner pieces, inner = (if isLine then code else Bracket.strip code) ∧
      ((∃ word, v.header? inner = some word ∧ b = definition inner word pieces) ∨
        v.header? inner = none ∧
          ∃ shape, insertShape? (outerBracket isLine code) pieces inner = some shape ∧
            b = insert shape inner) := by
  unfold form at h
  dsimp only at h
  refine ⟨_, (tokenize v.signRule (if isLine then code else Bracket.strip code)).texts, rfl, ?_⟩
  split at h
  · rename_i word hheader
    cases h
    exact .inl ⟨word, hheader, rfl⟩
  · rename_i hheader
    split at h
    · rename_i shape hinsert
      cases h
      exact .inr ⟨hheader, shape, hinsert, rfl⟩
    · -- a block is no whole
      split at h <;> cases h

/-- What is a `header?` is taken for one, whatever its brackets say. -/
theorem form_of_header {v : Vocabulary} {isLine : Bool} {code word : Text}
    (h : v.header? (if isLine then code else Bracket.strip code) = some word) :
    form v isLine code = .whole (definition (if isLine then code else Bracket.strip code) word
      (tokenize v.signRule (if isLine then code else Bracket.strip code)).texts) := by
  simp only [form, h]

/-- A fragment whose `form` is a block has been found by `identify` for some spec. -/
theorem form_eq_block {v : Vocabulary} {isLine : Bool} {code : Text} {attrs : Attrs}
    {words parts args : List Text} (h : form v isLine code = .block attrs words parts args) :
    ∃ spec shape text, identify v spec args shape = .ok ⟨attrs, text⟩ ∧
      shape ∈ Override.shapes ∧
      parts = partsAt (isMark (attrs.id == some "_ + _".toList)) text := by
  unfold form at h
  dsimp only at h
  split at h
  · -- a header
    cases h
  · split at h
    · -- an insert
      cases h
    · rename_i hinsert
      split at h
      · -- a block that cannot be drawn
        cases h
      · rename_i hfound
        cases h
        exact ⟨_, _, _, hfound, blockShape_mem hinsert, rfl⟩

/-- A fragment whose `form` is a block has a shape that words can give. -/
theorem shape_mem_of_block {v : Vocabulary} {isLine : Bool} {code : Text} {attrs : Attrs}
    {words parts args : List Text} (h : form v isLine code = .block attrs words parts args) :
    ∀ shape, (Override.applyAll (words.map .ofWord) attrs).shape = some shape →
      shape ∈ Override.shapes := by
  obtain ⟨spec, place, text, hfound, hplace, -⟩ := form_eq_block h
  apply Override.applyAll_shape_mem words
  intro shape hshape
  unfold identify at hfound
  split at hfound
  · cases hfound
  · -- an unknown block has the shape of its place
    cases hfound
    obtain rfl : place = shape := Option.some.inj hshape
    exact hplace
  · rename_i known _ hknown
    cases hfound
    split at hknown
    · cases hknown
    · -- a block without a shape of its own has that of its place
      simp only [knownAttrs, Option.or_eq_some_iff] at hshape
      rcases hshape with hown | ⟨-, hshape⟩
      · rcases Vocabulary.find?_shape hknown hown with rfl | rfl <;> decide
      · obtain rfl : place = shape := Option.some.inj hshape
        exact hplace

/-- Only what is taken for a header has the `shape` of one. -/
theorem shape_ne_defineHat_of_block {v : Vocabulary} {isLine : Bool} {code : Text} {attrs : Attrs}
    {words parts args : List Text} (h : form v isLine code = .block attrs words parts args) :
    (Override.applyAll (words.map .ofWord) attrs).shape ≠ some .defineHat := by
  intro hshape
  exact absurd (shape_mem_of_block h _ hshape) (by decide)

end Fragment

end BlockScript
