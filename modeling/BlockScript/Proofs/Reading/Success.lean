import BlockScript.Proofs.Block.Formed
import BlockScript.Proofs.Lists
import BlockScript.Proofs.Reading.Form
import BlockScript.Proofs.Reading.Line
import BlockScript.Proofs.Vocabulary.Loads

/-!
# Reading goes well

Only two things can keep a line from giving a block: it is nested too deeply, or a block with an image
cannot be drawn. Where all blocks can be drawn the second does not happen. A block that is read is formed
at every depth.

## Key results

- `Fragment.read_eq_error`, `Vocabulary.readLine_eq_error`: if all blocks can be drawn, only nesting can be
  too deep
- `Fragment.read_allFormed`, `Vocabulary.readLine_allFormed`: what is read is formed at every depth
-/

namespace BlockScript

namespace Outcome

variable {α β : Type}

/-- `map` keeps a fault, and makes none. -/
theorem map_eq_error {o : Outcome α} {f : α → β} {e : Fault} (h : (o.map f).result = .error e) :
    o.result = .error e := by
  simp only [map] at h
  cases ho : o.result with
  | error e' =>
    rw [ho] at h
    cases h
    rfl
  | ok a =>
    rw [ho] at h
    cases h

/-- A reading in two steps with `andThen` fails in the first or in the second. -/
private theorem andThen_eq_error {o : Outcome α} {next : α → Outcome β} {e : Fault}
    (h : (o.andThen next).result = .error e) :
    o.result = .error e ∨ ∃ a, o.result = .ok a ∧ (next a).result = .error e := by
  unfold andThen at h
  cases ho : o.result with
  -- the first step fails
  | error e' =>
    rw [ho] at h
    cases h
    exact .inl rfl
  -- it gives something, and the second one fails
  | ok a =>
    rw [ho] at h
    exact .inr ⟨a, rfl, h⟩

end Outcome

/-- The `shapes` that words can give are none of inserts. -/
private theorem Override.isInsert_of_mem_shapes {shape : Shape} (h : shape ∈ shapes) :
    shape.isInsert = false := by
  revert h shape
  decide

/-- What `find?` gives has no mark of a branch that ends in a cap block. -/
private theorem Vocabulary.find?_capEnd {v : Vocabulary} {spec : Text} {args : List Text} {f : Found}
    (h : v.find? spec args = .ok (some f)) : f.attrs.capEnd = false := by
  obtain ⟨id, lang, -, hattrs, -⟩ := find?_eq_ok h
  rw [hattrs, refine_eq]
  cases hid : knownBlock? id with
  | none => rfl
  | some a =>
    obtain ⟨group, -, e, -, -, rfl⟩ := exists_entry_of_knownBlock? hid
    rfl

/-- `ring` leaves the blocks in pieces formed. -/
private theorem Piece.allFormed_of_mem_ring {ps : List Piece} (h : ∀ b ∈ blocks ps, b.AllFormed) :
    ∀ b ∈ blocks (ps.map ring), b.AllFormed := by
  induction ps with
  | nil => simp [blocks]
  | cons p ps ih =>
    cases p with
    | text t => exact ih h
    -- the ring changes nothing that formedness depends on
    | block a qs =>
      rw [blocks, List.forall_mem_cons] at h
      rw [List.map_cons, ring, blocks, List.forall_mem_cons]
      have hself : Block.Formed ⟨a, qs⟩ := ((Block.allFormed_iff _).1 h.1).1
      exact ⟨h.1.congr rfl rfl hself.note, ih h.2⟩

namespace Fragment

/-! ## Formed blocks -/

/-- What stands for an argument in an outline is a `parameter`. -/
theorem exists_parameter_of_mem {p : Piece} {ts : List Text}
    (h : p ∈ ts.filterMap outlinePiece?) (hp : p.isArgument = true) :
    ∃ t, p = (parameter t).toPiece := by
  obtain ⟨t, -, ht⟩ := List.mem_filterMap.1 h
  rcases eq_of_outlinePiece? ht with rfl | ⟨hliteral, rfl⟩
  · exact ⟨t, rfl⟩
  · -- text that starts with a bracket has become a parameter
    simp [Piece.isArgument, hliteral] at hp

/-- A `parameter` has no header and no insert in it, so there is nothing that could be missing. -/
private theorem parameter_allFormed (t : Text) : (parameter t).AllFormed := by
  rw [Block.allFormed_iff]
  refine ⟨Block.formed_of_shape ?_ ?_ (by simp [parameter]), by simp [parameter, Piece.blocks]⟩
  · unfold parameter Shape.ofParameter
    simp only [ne_eq, Option.some.injEq]
    split <;> decide
  · -- the shape of a parameter is none of an insert
    intro shape hshape
    unfold parameter Shape.ofParameter at hshape
    simp only [Option.some.injEq] at hshape
    subst hshape
    split <;> rfl

/-- A `definition` is formed, and so are its outline and the parameters in it. -/
private theorem definition_allFormed (code word : Text) (pieces : List Text) :
    (definition code word pieces).AllFormed := by
  rw [Block.allFormed_iff]
  constructor
  · -- the header itself
    refine ⟨fun _ => ⟨_, _, _, rfl, fun p hp => ?_⟩, ?_, by simp [definition]⟩
    · obtain ⟨hp, hargument⟩ := List.mem_filter.1 hp
      obtain ⟨t, rfl⟩ := exists_parameter_of_mem hp hargument
      exact ⟨_, _, rfl⟩
    · intro shape hshape hinsert
      cases hshape
      cases hinsert
  · -- the outline in it, and its parameters
    simp only [definition, Piece.blocks, List.mem_singleton, forall_eq]
    rw [Block.allFormed_iff]
    constructor
    · apply Block.formed_of_shape
      · simp
      · intro shape hshape
        cases hshape
        rfl
      · simp
    · intro p hp
      have hp := Piece.mem_blocks_iff.1 hp
      obtain ⟨t, ht⟩ := exists_parameter_of_mem hp rfl
      obtain rfl : p = parameter t := Block.toPiece_injective ht
      exact parameter_allFormed t

/-- An `insert` is formed: it is one text. -/
private theorem insert_allFormed {shape : Shape} (h : shape.isInsert = true) (code : Text) :
    (insert shape code).AllFormed := by
  rw [Block.allFormed_iff]
  refine ⟨⟨?_, fun _ _ _ => ⟨_, rfl⟩, by simp [insert]⟩, by simp [insert, Piece.blocks]⟩
  intro hheader
  cases hheader
  cases h

/-- A `form` that is a block already is a header or an insert, and formed. -/
private theorem allFormed_of_whole {v : Vocabulary} {isLine : Bool} {code : Text} {b : Block}
    (h : form v isLine code = .whole b) : b.AllFormed := by
  obtain ⟨inner, pieces, -, ⟨word, -, rfl⟩ | ⟨-, shape, hinsert, rfl⟩⟩ := form_eq_whole h
  · exact definition_allFormed inner word pieces
  · exact insert_allFormed (isInsert_of_insertShape? hinsert) inner

/-- No mark is set on a block while it is read. -/
theorem capEnd_of_block {v : Vocabulary} {isLine : Bool} {code : Text} {attrs : Attrs}
    {words parts args : List Text} (h : form v isLine code = .block attrs words parts args) :
    (Override.applyAll (words.map .ofWord) attrs).capEnd = false := by
  obtain ⟨spec, place, text, hfound, -⟩ := form_eq_block h
  rw [Override.applyAll_eq]
  show attrs.capEnd = false
  unfold identify at hfound
  split at hfound
  · cases hfound
  · cases hfound
    rfl
  · rename_i known _ hknown
    -- a known block has the attributes that it is found with
    cases hfound
    -- an unknown block has no mark, and neither has one that is found
    split at hknown
    · cases hknown
    · exact Vocabulary.find?_capEnd hknown

/-- A block that `read` gives is `AllFormed`. -/
theorem read_allFormed {v : Vocabulary} {depth : Nat} {isLine : Bool} {code : Text} {b : Block}
    (h : (read v depth isLine code).result = .ok b) : b.AllFormed := by
  refine @read_induction v (fun _ b => b.AllFormed) allFormed_of_whole ?_ _ _ _ _ h
  intro isLine code attrs words parts args b pieces hform hfinish hnested
  obtain ⟨ps, hps, hattrs, hpieces, -⟩ := finish_eq_ok hfinish
  have hnested := hnested ps hps
  -- a block has one of the shapes that words can give
  have hshape := shape_mem_of_block hform
  rw [Block.allFormed_iff]
  constructor
  · -- overrides give no block the shape of a header or an insert
    apply Block.formed_of_shape
    · rw [hattrs]
      exact shape_ne_defineHat_of_block hform
    · intro shape hb
      rw [hattrs] at hb
      exact Override.isInsert_of_mem_shapes (hshape shape hb)
    · rw [hattrs, capEnd_of_block hform]
      exact fun hnoted => absurd hnoted (by decide)
  · rcases hpieces with hpieces | hpieces
    · rw [hpieces]
      exact hnested
    · rw [hpieces]
      exact Piece.allFormed_of_mem_ring hnested

/-! ## Faults -/

/-- An argument that fails is the only reason for which `fillSlots` fails. -/
theorem fillSlots_eq_error {nested : Text → Outcome Block} {parts args : List Text} {f : Fault}
    (h : (fillSlots nested parts args).result = .error f) :
    ∃ arg ∈ args, (nested arg).result = .error f := by
  induction parts generalizing args with
  | nil => cases h
  | cons part parts ih =>
    -- a part that is a slot reads the next argument, if there is one left
    unfold fillSlots at h
    split at h
    · rename_i arg args
      -- the argument fails, or one of the later ones does
      obtain harg | ⟨b, -, hrest⟩ := Outcome.andThen_eq_error h
      · exact ⟨arg, List.mem_cons_self, harg⟩
      · obtain ⟨arg', hmem, harg⟩ := ih (Outcome.map_eq_error hrest)
        exact ⟨arg', List.mem_cons_of_mem _ hmem, harg⟩
    · exact ih (Outcome.map_eq_error h)

/-- `finish` adds no fault to those of the pieces. -/
theorem finish_eq_error {attrs : Attrs} {words : List Text} {pieces : Outcome (List Piece)}
    {f : Fault} (h : (finish attrs words pieces).result = .error f) : pieces.result = .error f := by
  unfold finish at h
  split at h
  · rename_i g hg
    cases h
    exact hg
  · cases h

/-- `identify` fails only where `find?` does. -/
private theorem identify_eq_error {v : Vocabulary} {spec : Text} {args : List Text} {shape : Shape}
    {e : MissingSpec} (h : identify v spec args shape = .error e) : v.find? spec args = .error e := by
  unfold identify at h
  split at h
  · rename_i hlooked
    cases h
    split at hlooked
    · cases hlooked
    · exact hlooked
  · cases h
  · cases h

/-- If all blocks can be drawn, `identify` gives a block, known or not. -/
theorem exists_identify {v : Vocabulary} (hv : v.Drawable) (spec : Text) (args : List Text) (shape : Shape) :
    ∃ f, identify v spec args shape = .ok f := by
  cases h : identify v spec args shape with
  | ok f => exact ⟨f, rfl⟩
  | error e =>
    obtain ⟨found, hfound⟩ := hv.exists_find? spec args
    rw [identify_eq_error h] at hfound
    cases hfound

/-- A `form` that is missing has been looked for in vain. -/
private theorem form_eq_missing {v : Vocabulary} {isLine : Bool} {code id : Text}
    (h : form v isLine code = .missing id) : ∃ spec args, v.find? spec args = .error ⟨id⟩ := by
  unfold form at h
  dsimp only at h
  split at h
  · cases h
  · split at h
    · cases h
    · split at h
      · rename_i hfound
        -- it is missing because it has been looked for
        cases h
        exact ⟨_, _, identify_eq_error hfound⟩
      · cases h

/-- If all blocks can be drawn, `read` fails only with too many levels. -/
theorem read_eq_error {v : Vocabulary} (hv : v.Drawable) {depth : Nat} {isLine : Bool} {code : Text}
    {f : Fault} (h : (read v depth isLine code).result = .error f) : f = .tooDeep := by
  -- a block is found and drawn, so a fault comes from an argument, and in the end from the depth
  induction depth generalizing isLine code with
  | zero =>
    cases h
    rfl
  | succ depth ih =>
    rw [read_succ_result] at h
    cases hform : form v isLine code with
    -- with all blocks drawable none is missing
    | missing id =>
      obtain ⟨spec, args, hlooked⟩ := form_eq_missing hform
      obtain ⟨found, hfound⟩ := hv.exists_find? spec args
      rw [hfound] at hlooked
      cases hlooked
    -- headers and inserts do not fail
    | whole b =>
      rw [hform] at h
      cases h
    | block attrs words parts args =>
      rw [hform] at h
      obtain ⟨arg, -, harg⟩ := fillSlots_eq_error (finish_eq_error h)
      exact ih harg

/-- So in a `Drawable` vocabulary a fragment that is not nested too deeply is read. -/
theorem exists_read {v : Vocabulary} (hv : v.Drawable) {depth : Nat} {isLine : Bool} {code : Text}
    (hdeep : (read v depth isLine code).result ≠ .error .tooDeep) :
    ∃ b, (read v depth isLine code).result = .ok b := by
  cases hread : (read v depth isLine code).result with
  | error f =>
    rw [hread, read_eq_error hv hread] at hdeep
    exact absurd rfl hdeep
  | ok b => exact ⟨b, rfl⟩

end Fragment

/-! ## Lines -/

namespace Line

/-- An argument that stands alone on a line stays formed in its block. -/
private theorem lone_allFormed {b : Block} (h : b.AllFormed) : (lone b).AllFormed := by
  unfold lone
  split
  · rw [Block.allFormed_iff]
    constructor
    · apply Block.formed_of_shape
      · simp
      · intro shape hshape
        cases hshape
        rfl
      · simp
    · -- its only piece is the argument
      simpa [Block.toPiece, Piece.blocks] using h
  · exact h

/-- A line without a comment gives a formed block. -/
private theorem readBare_allFormed {v : Vocabulary} {line : Text} {b : Block}
    (h : (readBare v line).result = .ok b) : b.AllFormed := by
  unfold readBare at h
  split at h
  · obtain ⟨b₀, hb₀, rfl⟩ := Outcome.map_eq_ok h
    exact lone_allFormed (Fragment.read_allFormed hb₀)
  · exact Fragment.read_allFormed h

/-- In a `Drawable` vocabulary `readBare` fails only for a line that is nested too deeply. -/
private theorem readBare_eq_error {v : Vocabulary} (hv : v.Drawable) {line : Text} {f : Fault}
    (h : (readBare v line).result = .error f) : f = .tooDeep := by
  unfold readBare at h
  split at h
  · exact Fragment.read_eq_error hv (Outcome.map_eq_error h)
  · exact Fragment.read_eq_error hv h

/-- `withComment` keeps a block formed. -/
private theorem withComment_allFormed {v : Vocabulary} {comment : Option Text} {o : Outcome Block}
    {b : Block}
    (ho : ∀ b₀, o.result = .ok b₀ → b₀.AllFormed) (h : (withComment v comment o).result = .ok b) :
    b.AllFormed := by
  obtain ⟨b₀, hb₀, hpieces, hattrs⟩ := withComment_ok h
  have hformed := ho b₀ hb₀
  apply hformed.congr hpieces
  · rw [hattrs]
  · rw [hattrs]
    exact ((Block.allFormed_iff _).1 hformed).1.note

/-- And `withComment` adds no fault. -/
theorem withComment_eq_error {v : Vocabulary} {comment : Option Text} {o : Outcome Block} {f : Fault}
    (h : (withComment v comment o).result = .error f) : o.result = .error f := by
  unfold withComment at h
  split at h
  · rename_i hresult
    cases h
    exact hresult
  · cases h

end Line

namespace Vocabulary

open Line

/-- A block that `readLine` gives is `AllFormed`. -/
theorem readLine_allFormed {v : Vocabulary} {line : Text} {b : Block}
    (h : (v.readLine line).result = .ok b) : b.AllFormed := by
  unfold readLine at h
  dsimp only at h
  split at h
  · -- without slashes all of the line is read
    exact withComment_allFormed (fun _ => readBare_allFormed) h
  · split at h
    · -- a comment has no pieces
      cases h
      rw [Block.allFormed_iff]
      refine ⟨Block.formed_of_shape ?_ ?_ ?_, ?_⟩ <;> simp [Block.comment, Piece.blocks]
    · exact withComment_allFormed (fun _ => readBare_allFormed) h

/-- If the vocabulary is `Drawable`, `readLine` fails only for what is nested too deeply. -/
theorem readLine_eq_error {v : Vocabulary} (hv : v.Drawable) {line : Text} {f : Fault}
    (h : (v.readLine line).result = .error f) : f = .tooDeep := by
  unfold readLine at h
  dsimp only at h
  split at h
  · exact readBare_eq_error hv (withComment_eq_error h)
  · split at h
    · cases h
    · exact readBare_eq_error hv (withComment_eq_error h)

end Vocabulary

end BlockScript
