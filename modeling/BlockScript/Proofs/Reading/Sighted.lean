import BlockScript.Proofs.Block.Formed
import BlockScript.Proofs.Block.Kind
import BlockScript.Proofs.Reading.Form
import BlockScript.Proofs.Reading.Line

/-!
# What is sighted where

Reporters and lists are sighted wherever they stand, as soon as they are read. What is defined and what is
called is said by whole lines alone, when they have been read. So a line that cannot be read has sighted uses
of names at most, and the same holds for what a line has nested in it. A block without arguments uses no list.

## Key results

- `Fragment.read_isUse`: a fragment sights nothing but uses of names
- `Line.isUse_of_error`, `Line.isUse_or_call`: neither does a line that fails, and one that is no header just
  calls a block besides
- `Line.lists_of_arguments`: without arguments no list is used
-/

namespace BlockScript

/-- Whether a name is used, for a reporter or for a list. -/
def Sighting.isUse : Sighting → Bool
  | .reporter _ _ | .list _ => true
  | _ => false

namespace Sighting

variable {new : List Sighting}

/-- Nothing is defined where all that is sighted `isUse` of a name or a call. -/
theorem defines_nothing (h : ∀ x ∈ new, x.isUse = true ∨ ∃ key, x = .call key) :
    new.filterMap definition? = [] ∧ new.filterMap parameter? = [] := by
  constructor <;> refine List.filterMap_eq_nil_iff.2 fun x hx => ?_
  all_goals
    obtain huse | ⟨key, rfl⟩ := h x hx
    · cases x <;> first | rfl | cases huse
    · rfl

/-- Nothing is called where all that is sighted `isUse` of a name. -/
theorem calls_nothing (h : ∀ x ∈ new, x.isUse = true) : new.filterMap call? = [] := by
  refine List.filterMap_eq_nil_iff.2 fun x hx => ?_
  have huse := h x hx
  cases x <;> first | rfl | cases huse

end Sighting

namespace Fragment

/-! ## Fragments -/

/-- What `fillSlots` sights is sighted in arguments. -/
private theorem fillSlots_sightings {P : Sighting → Prop} {nested : Text → Outcome Block}
    (h : ∀ arg, ∀ x ∈ (nested arg).sightings, P x) (parts args : List Text) :
    ∀ x ∈ (fillSlots nested parts args).sightings, P x := by
  induction parts generalizing args with
  | nil => simp [fillSlots, Outcome.done]
  | cons part parts ih =>
    unfold fillSlots
    split
    · rename_i arg args
      unfold Outcome.andThen
      split
      · exact h arg
      · exact List.forall_mem_append.2 ⟨h arg, ih args⟩
    · exact ih args

/-- All that `read` sights in a fragment `isUse` of a name, however deep it is nested and whether it can be
    read. -/
theorem read_isUse (v : Vocabulary) (depth : Nat) (isLine : Bool) (code : Text) :
    ∀ x ∈ (read v depth isLine code).sightings, x.isUse = true := by
  have hown : ∀ a : Attrs, ∀ x ∈ ownSighting a, x.isUse = true := by
    intro a
    unfold ownSighting
    split <;> simp [Sighting.isUse]
  -- by induction on the depth: what a block sights by itself, and what its arguments do
  induction depth generalizing isLine code with
  | zero => simp [read, Outcome.fail]
  | succ depth ih =>
    rw [read_succ_sightings]
    cases form v isLine code with
    | whole b => simp [Form.read, Outcome.done]
    | missing id => simp [Form.read, Outcome.fail]
    | block attrs words parts args =>
      have hslots := fillSlots_sightings (ih false) parts args
      rw [Form.read]
      unfold finish
      split
      · exact List.forall_mem_append.2 ⟨hown _, hslots⟩
      · -- a list is sighted last, and it is a use, too
        refine List.forall_mem_append.2 ⟨List.forall_mem_append.2 ⟨hown _, hslots⟩, ?_⟩
        split <;> simp [Sighting.isUse]

/-! ## Blocks without arguments -/

/-- If `fillSlots` has filled no slot nothing has been sighted on the way. -/
private theorem fillSlots_sightings_of_blocks {nested : Text → Outcome Block} {parts args : List Text}
    {ps : List Piece}
    (h : (fillSlots nested parts args).result = .ok ps) (hnone : Piece.blocks ps = []) :
    (fillSlots nested parts args).sightings = [] := by
  have hfilled := fillSlots_eq_ok h
  have hblocks := hfilled.blocks
  rw [hnone, List.forall₂_nil_right_iff] at hblocks
  rw [hfilled.sightings, hblocks]
  rfl

/-- `listUse?` finds no list for a block without arguments. -/
private theorem listUse?_of_arguments {b : Block} (hnone : b.arguments = []) : listUse? b = none := by
  have hnames : ∀ p ∈ Piece.arguments b.pieces, listName? b.attrs.category p = none := by
    intro p hp
    cases p with
    | text t => rfl
    | block a qs =>
      have hblock : (⟨a, qs⟩ : Block) ∈ b.arguments := Piece.mem_blocks_iff.2 (List.mem_filter.1 hp).1
      rw [hnone] at hblock
      -- an argument that is a block would be nested
      cases hblock
  unfold listUse?
  -- without a name, a place for a list, or an argument in it no list is used
  cases hid : b.attrs.id with
  | none => rfl
  | some id =>
    cases hnumber : Dictionary.get? id listArguments with
    | none => simp [hnumber]
    | some number =>
      cases hargument : (Piece.arguments b.pieces)[number]? with
      | none => simp [hnumber, hargument]
      | some p => simpa [hnumber, hargument] using hnames p (List.mem_of_getElem? hargument)

/-- A block without arguments uses no list, and there is nothing in it that could. -/
theorem lists_of_arguments {v : Vocabulary} {depth : Nat} {isLine : Bool} {code : Text} {b : Block}
    (h : (read v depth isLine code).result = .ok b) (hnone : b.arguments = []) :
    (read v depth isLine code).sightings.filterMap Sighting.list? = [] := by
  have hown : ∀ a : Attrs, (ownSighting a).filterMap Sighting.list? = [] :=
    filterMap_ownSighting fun _ _ => rfl
  cases depth with
  | zero => cases h
  | succ depth =>
    rw [read_succ_result] at h
    rw [read_succ_sightings]
    cases hform : form v isLine code with
    -- headers and inserts sight nothing
    | whole b₀ => rfl
    | missing id => rfl
    | block attrs words parts args =>
      rw [hform] at h
      obtain ⟨ps, hps, -, hpieces, -⟩ := finish_eq_ok h
      -- rings add no argument
      have hblocks : Piece.blocks ps = [] := by
        rcases hpieces with hpieces | hpieces
        · rwa [Block.arguments, hpieces] at hnone
        · rw [Block.arguments, hpieces, Piece.blocks_map_ring] at hnone
          exact List.map_eq_nil_iff.1 hnone
      rw [Form.read, finish_sightings h, fillSlots_sightings_of_blocks hps hblocks, List.append_nil,
        List.filterMap_append, hown, listUse?_of_arguments hnone]
      split <;> rfl

end Fragment

namespace Line

/-! ## Lines -/

/-- `readBare` sights nothing but uses, as the call of the block is added at the end. -/
private theorem readBare_isUse (v : Vocabulary) (line : Text) :
    ∀ x ∈ (readBare v line).sightings, x.isUse = true := by
  unfold readBare
  split <;> exact Fragment.read_isUse v _ _ _

/-- `withComment` sights uses alone if the block cannot be read. -/
private theorem withComment_isUse_of_error {v : Vocabulary} {comment : Option Text} {o : Outcome Block}
    {f : Fault}
    (ho : ∀ x ∈ o.sightings, x.isUse = true) (h : (withComment v comment o).result = .error f) :
    ∀ x ∈ (withComment v comment o).sightings, x.isUse = true := by
  unfold withComment at h ⊢
  split at h
  · exact ho
  · cases h

/-- All that has been sighted in a line that `readLine` cannot read `isUse` of a name. -/
theorem isUse_of_error {v : Vocabulary} {line : Text} {f : Fault} (h : (v.readLine line).result = .error f) :
    ∀ x ∈ (v.readLine line).sightings, x.isUse = true := by
  unfold Vocabulary.readLine at h ⊢
  dsimp only at h ⊢
  split at h
  · exact withComment_isUse_of_error (readBare_isUse v _) h
  · split at h
    · cases h
    · exact withComment_isUse_of_error (readBare_isUse v _) h

/-- `recategorise` changes categories, and uses stay uses. -/
private theorem recategorise_isUse {b : Block} {c : Option Category} {ss : List Sighting}
    (h : ∀ x ∈ ss, x.isUse = true) : ∀ x ∈ recategorise b c ss, x.isUse = true := by
  unfold recategorise
  split
  · exact List.forall_mem_cons.2 ⟨rfl, (List.forall_mem_cons.1 h).2⟩
  · exact h

/-- `withComment` adds the call of a block that is no header, and nothing else. -/
private theorem withComment_isUse_or_call {v : Vocabulary} {comment : Option Text} {o : Outcome Block}
    {b : Block}
    (ho : ∀ x ∈ o.sightings, x.isUse = true) (h : (withComment v comment o).result = .ok b)
    (hshape : b.attrs.shape ≠ some .defineHat) :
    ∀ x ∈ (withComment v comment o).sightings, x.isUse = true ∨ ∃ key, x = .call key := by
  unfold withComment at h ⊢
  split at h
  · cases h
  · rename_i b₀ hb₀
    have hsame : (applyDirective comment b₀).1.attrs.shape ≠ some .defineHat := by
      cases h
      exact hshape
    dsimp only
    refine List.forall_mem_append.2 ⟨fun x hx => .inl (recategorise_isUse ho x hx), ?_⟩
    rw [lineSightings, if_neg hsame]
    split <;> simp

/-- All that is sighted in a line that is no header `isUse` of a name, or it is the line itself as a call. -/
theorem isUse_or_call {v : Vocabulary} {line : Text} {b : Block} (h : (v.readLine line).result = .ok b)
    (hshape : b.attrs.shape ≠ some .defineHat) :
    ∀ x ∈ (v.readLine line).sightings, x.isUse = true ∨ ∃ key, x = .call key := by
  unfold Vocabulary.readLine at h ⊢
  dsimp only at h ⊢
  split at h
  · exact withComment_isUse_or_call (readBare_isUse v _) h hshape
  · split at h
    · simp [Outcome.done]
    · exact withComment_isUse_or_call (readBare_isUse v _) h hshape

/-- `withComment` adds no use of a list, be it for a new category of a block or the line itself. -/
private theorem withComment_lists {v : Vocabulary} {comment : Option Text} {o : Outcome Block} :
    (withComment v comment o).sightings.filterMap Sighting.list? = o.sightings.filterMap Sighting.list? := by
  have hline : ∀ b : Block, (lineSightings v b).filterMap Sighting.list? = [] := by
    intro b
    rw [filterMap_lineSightings (fun _ => rfl) fun _ => rfl]
    exact ite_self []
  unfold withComment
  split
  · rfl
  · dsimp only
    rw [List.filterMap_append, filterMap_recategorise fun _ _ _ => rfl, hline, List.append_nil]

/-- `readBare` sights no list for a block without arguments. -/
private theorem readBare_lists_of_arguments {v : Vocabulary} {line : Text} {b : Block}
    (h : (readBare v line).result = .ok b) (hnone : b.arguments = []) :
    (readBare v line).sightings.filterMap Sighting.list? = [] := by
  unfold readBare at h ⊢
  split
  · rename_i hlone
    rw [if_pos hlone] at h
    obtain ⟨b₀, hb₀, rfl⟩ := Outcome.map_eq_ok h
    unfold lone at hnone
    split at hnone
    · -- an insert alone is an argument of its line
      rw [Block.arguments, Fragment.blocks_toPiece_cons] at hnone
      cases hnone
    · exact Fragment.lists_of_arguments hb₀ hnone
  · rename_i hlone
    rw [if_neg hlone] at h
    exact Fragment.lists_of_arguments h hnone

/-- A line whose block has no `arguments` uses no list. -/
theorem lists_of_arguments {v : Vocabulary} {line : Text} {b : Block} (h : (v.readLine line).result = .ok b)
    (hnone : b.arguments = []) : (v.readLine line).sightings.filterMap Sighting.list? = [] := by
  have hbare : ∀ {t : Text} {comment : Option Text}, (withComment v comment (readBare v t)).result = .ok b →
      (readBare v t).sightings.filterMap Sighting.list? = [] := by
    intro t comment hb
    obtain ⟨b₀, hb₀, hpieces, -⟩ := withComment_ok hb
    rw [Block.arguments, hpieces] at hnone
    exact readBare_lists_of_arguments hb₀ hnone
  unfold Vocabulary.readLine at h ⊢
  dsimp only at h ⊢
  split at h
  · -- a line with a comment
    rw [withComment_lists, hbare h]
  · split at h
    · rfl
    · rw [withComment_lists, hbare h]

end Line

end BlockScript
