import BlockScript.Proofs.Block.Kind
import BlockScript.Proofs.Reading.Success

/-!
# The kinds of what is read

A fragment gives an insert or a block proper, in which everything at every depth is of one kind and stands
where it may. Blocks come from the palette, from unknown text, from headers and from inserts, and words may
change them afterwards; each of these gives blocks of a known kind. A ring is asked for by words alone, and
then it is drawn around all that is nested in the block. A line gives a block proper or a comment.

## Key results

- `Fragment.finish_rings`: a block that is finished has rings around its arguments just if it has that flag
- `Fragment.read_isFresh`: what a fragment gives
- `Vocabulary.readLine_isFresh`: what a line gives
-/

namespace BlockScript

/-- A block as it is read, before it is laid out: everything in it has its kind and its place, it has no ring
    yet, and if it is a header it has no part in C blocks. -/
structure Block.IsFresh (b : Block) : Prop where
  classified : b.Classified
  unringed : b.attrs.ringed = false
  header : b.attrs.shape = some .defineHat → b.attrs.flag = none

namespace Fragment

/-! ## Headers and inserts -/

/-- A `parameter` is a block proper. -/
private theorem parameter_isOf (t : Text) : (parameter t).IsOf .proper := by
  refine ⟨⟨.customArg, by decide, rfl⟩, ⟨_, ?_, rfl⟩, by simp [parameter]⟩
  unfold Shape.ofParameter
  split <;> decide

/-- What stands in an outline is text, or a parameter. -/
theorem exists_parameter_of_mem_blocks {ts : List Text} {b : Block}
    (h : b ∈ Piece.blocks (ts.filterMap outlinePiece?)) : ∃ t, b = parameter t := by
  obtain ⟨t, ht⟩ := exists_parameter_of_mem (Piece.mem_blocks_iff.1 h) rfl
  exact ⟨t, Block.toPiece_injective ht⟩

/-- A header is a block proper, with an outline that holds parameters. -/
private theorem definition_isFresh (code word : Text) (pieces : List Text) :
    (definition code word pieces).IsFresh ∧ (definition code word pieces).IsOf .proper := by
  have hproper : (definition code word pieces).IsOf .proper :=
    ⟨⟨.custom, by decide, rfl⟩, ⟨.defineHat, by decide, rfl⟩, by simp [definition]⟩
  refine ⟨⟨?_, rfl, fun _ => rfl⟩, hproper⟩
  rw [Block.classified_iff]
  simp only [definition, Block.arguments, Piece.blocks, List.mem_singleton, forall_eq]
  -- a header holds its outline, and nothing else
  have houtline : Block.IsOf
      ⟨{ shape := some .outline }, (outlineTexts word pieces).filterMap outlinePiece?⟩ .outline :=
    ⟨rfl, rfl, rfl, rfl⟩
  refine ⟨⟨hproper.existsUnique, ⟨.inr (.inr ⟨houtline, rfl, _, rfl⟩), by simp⟩⟩, ?_⟩
  rw [Block.classified_iff]
  constructor
  · refine ⟨houtline.existsUnique, fun b hb => ?_⟩
    obtain ⟨t, rfl⟩ := exists_parameter_of_mem_blocks hb
    -- the outline holds parameters, which are blocks proper
    exact ⟨.inl (parameter_isOf t), by simp [parameter]⟩
  · intro b hb
    obtain ⟨t, rfl⟩ := exists_parameter_of_mem_blocks hb
    exact Block.classified_of_arguments_eq_nil (parameter_isOf t) rfl

/-- An `insert` is one of its kind, with no ring around it. -/
private theorem insert_isFresh {shape : Shape} (h : shape.isInsert = true) (code : Text) :
    (insert shape code).IsFresh ∧ (insert shape code).IsOf .insert := by
  have hinsert : (insert shape code).IsOf .insert := ⟨rfl, rfl, rfl, ⟨shape, rfl, h⟩, _, rfl⟩
  exact ⟨⟨Block.classified_of_arguments_eq_nil hinsert rfl, rfl, fun _ => rfl⟩, hinsert⟩

/-- What is taken for a whole is a header, or in brackets an insert. -/
private theorem isFresh_of_whole {v : Vocabulary} {isLine : Bool} {code : Text} {b : Block}
    (h : form v isLine code = .whole b) :
    b.IsFresh ∧ (b.IsOf .proper ∨ isLine = false ∧ b.IsOf .insert) := by
  obtain ⟨inner, pieces, -, ⟨word, -, rfl⟩ | ⟨-, shape, hinsert, rfl⟩⟩ := form_eq_whole h
  · obtain ⟨hfresh, hproper⟩ := definition_isFresh inner word pieces
    exact ⟨hfresh, .inl hproper⟩
  · obtain ⟨hfresh, hkind⟩ := insert_isFresh (isInsert_of_insertShape? hinsert) inner
    refine ⟨hfresh, .inr ⟨?_, hkind⟩⟩
    -- a line has no brackets, so it is no insert
    cases isLine with
    | false => rfl
    | true => simp [outerBracket, insertShape?_none] at hinsert

/-! ## Blocks -/

/-- What is identified is in a `category` and has a shape. -/
private theorem identify_isOf {v : Vocabulary} (hv : v.NamesKnown) {spec : Text} {args : List Text}
    {shape : Shape}
    {f : Found} (h : identify v spec args shape = .ok f) :
    (∃ category ∈ Category.standard, f.attrs.category = some category) ∧ f.attrs.shape ≠ none := by
  unfold identify at h
  split at h
  · cases h
  · cases h
    refine ⟨⟨_, ?_, rfl⟩, by simp [unknownAttrs]⟩
    split <;> simp [Category.standard]
  · rename_i attrs text hfound
    cases h
    split at hfound
    · cases hfound
    · -- a block without a shape of its own has that of its place
      have hcategory := hv.find?_category hfound
      exact ⟨hcategory, by simp [knownAttrs]⟩

/-- No ring is drawn around what is identified. -/
private theorem identify_ringed {v : Vocabulary} {spec : Text} {args : List Text} {shape : Shape}
    {f : Found}
    (h : identify v spec args shape = .ok f) : f.attrs.ringed = false := by
  unfold identify at h
  split at h
  · cases h
  · cases h
    rfl
  · rename_i attrs text hfound
    cases h
    split at hfound
    · cases hfound
    · have hringed := Vocabulary.find?_ringed hfound
      exact hringed

/-- A ring is no part of a known block. -/
private theorem identify_flag {v : Vocabulary} {spec : Text} {args : List Text} {shape : Shape} {f : Found}
    {flag : Flag} (h : identify v spec args shape = .ok f) (hflag : f.attrs.flag = some flag) :
    flag = .cStart ∨ flag = .cElse ∨ flag = .cEnd := by
  unfold identify at h
  split at h
  · cases h
  · cases h
    cases hflag
  · rename_i attrs text hfound
    cases h
    split at hfound
    · cases hfound
    · have hown : attrs.flag = some flag := hflag
      exact Vocabulary.find?_flag hfound hown

/-- Without words no block has a ring around its arguments. -/
theorem flag_ne_ring_of_block {v : Vocabulary} {isLine : Bool} {code : Text} {attrs : Attrs}
    {words parts args : List Text} (h : form v isLine code = .block attrs words parts args) :
    attrs.flag ≠ some .ring := by
  obtain ⟨spec, shape, text, hidentify, -, -⟩ := form_eq_block h
  intro hring
  simpa using identify_flag hidentify hring

/-- The flag of a block, also one that words give, has a meaning here. -/
theorem flag_mem_of_block {v : Vocabulary} {isLine : Bool} {code : Text} {attrs : Attrs}
    {words parts args : List Text} (h : form v isLine code = .block attrs words parts args) {flag : Flag}
    (hflag : (Override.applyAll (words.map .ofWord) attrs).flag = some flag) : flag ∈ Flag.standard := by
  obtain ⟨spec, place, text, hidentify, -, -⟩ := form_eq_block h
  rw [Override.applyAll_ofWord_flag, Option.or_eq_some_iff] at hflag
  rcases hflag with hlast | ⟨-, hown⟩
  · obtain ⟨word, -, hword⟩ := Override.exists_of_getLast?_filterMap hlast
    exact List.mem_of_find?_eq_some hword
  · rcases identify_flag hidentify hown with rfl | rfl | rfl <;> decide

/-- A block has rings around its arguments after `finish` just if it has that flag in the end. -/
theorem finish_rings {attrs : Attrs} {words : List Text} {pieces : Outcome (List Piece)} {b : Block}
    (hring : attrs.flag ≠ some .ring) (h : (finish attrs words pieces).result = .ok b) :
    ∃ ps, pieces.result = .ok ps ∧ b.attrs = Override.applyAll (words.map .ofWord) attrs ∧
      b.pieces = if b.attrs.flag = some .ring then ps.map Piece.ring else ps := by
  obtain ⟨ps, hps, hattrs, -, hplain⟩ := finish_eq_ok h
  refine ⟨ps, hps, hattrs, ?_⟩
  -- without words the flag cannot have become a ring
  by_cases hwords : words = []
  · subst hwords
    have hflag : b.attrs.flag ≠ some .ring := by
      rw [hattrs]
      exact hring
    rw [hplain rfl, if_neg hflag]
  · simp only [finish, hps, if_neg hwords, Except.ok.injEq] at h
    rw [← h, override]

/-- What is taken for a block is a block proper, also with its words. -/
private theorem isOf_of_block {v : Vocabulary} (hv : v.NamesKnown) {isLine : Bool} {code : Text}
    {attrs : Attrs}
    {words parts args : List Text} (h : form v isLine code = .block attrs words parts args) {b : Block}
    (hb : b.attrs = Override.applyAll (words.map .ofWord) attrs) : b.IsOf .proper := by
  obtain ⟨spec, place, text, hidentify, -, -⟩ := form_eq_block h
  obtain ⟨⟨c, hc, hcategory⟩, hshape⟩ := identify_isOf hv hidentify
  refine ⟨?_, ?_, fun flag hflag => ?_⟩
  · rw [hb, Override.applyAll_ofWord_category]
    -- the last word that names a category, or else that of the block that is known
    cases hlast : (words.filterMap Override.category?).getLast? with
    | none => exact ⟨c, hc, hcategory⟩
    | some c' =>
      obtain ⟨word, -, hword⟩ := Override.exists_of_getLast?_filterMap hlast
      exact ⟨c', List.mem_of_find?_eq_some hword, rfl⟩
  · -- a block has a shape of its own, or that of its place
    have hsome : b.attrs.shape ≠ none := by
      rw [hb, Override.applyAll_ofWord_shape]
      simp [hshape]
    obtain ⟨shape, hown⟩ := Option.ne_none_iff_exists'.1 hsome
    exact ⟨shape, List.mem_append_left _ (shape_mem_of_block h shape (hb ▸ hown)), hown⟩
  · rw [hb] at hflag
    exact flag_mem_of_block h hflag

/-- No ring is drawn around a block that is finished. -/
private theorem ringed_of_block {v : Vocabulary} {isLine : Bool} {code : Text} {attrs : Attrs}
    {words parts args : List Text} {pieces : Outcome (List Piece)} {b : Block}
    (h : form v isLine code = .block attrs words parts args)
    (hfinish : (finish attrs words pieces).result = .ok b) : b.attrs.ringed = false := by
  obtain ⟨spec, shape, text, hidentify, -, -⟩ := form_eq_block h
  obtain ⟨ps, -, hattrs, -⟩ := finish_eq_ok hfinish
  have hringed : attrs.ringed = false := identify_ringed hidentify
  rw [hattrs, Override.applyAll_eq]
  exact hringed

/-- Nor around anything else that `read` gives. -/
theorem read_ringed {v : Vocabulary} {depth : Nat} {isLine : Bool} {code : Text} {b : Block}
    (h : (read v depth isLine code).result = .ok b) : b.attrs.ringed = false := by
  refine @read_induction v (fun _ b => b.attrs.ringed = false) ?_ ?_ _ _ _ _ h
  · intro isLine code b hform
    exact (isFresh_of_whole hform).1.unringed
  · intro isLine code attrs words parts args b pieces hform hfinish _
    exact ringed_of_block hform hfinish

/-- What `read` gives for a fragment `IsFresh`: a block proper, or in brackets an insert, with everything in
    its place. -/
theorem read_isFresh {v : Vocabulary} (hv : v.NamesKnown) {depth : Nat} {isLine : Bool} {code : Text}
    {b : Block} (h : (read v depth isLine code).result = .ok b) :
    b.IsFresh ∧ (b.IsOf .proper ∨ isLine = false ∧ b.IsOf .insert) := by
  refine @read_induction v (fun isLine b => b.IsFresh ∧ (b.IsOf .proper ∨ isLine = false ∧ b.IsOf .insert))
    isFresh_of_whole ?_ _ _ _ _ h
  intro isLine code attrs words parts args b pieces hform hfinish hnested
  obtain ⟨ps, hps, hattrs, hpieces⟩ := finish_rings (flag_ne_ring_of_block hform) hfinish
  have hproper : b.IsOf .proper := isOf_of_block hv hform hattrs
  -- a ring is drawn around some arguments, but it leaves their kinds alone
  have hkinds : ∀ c ∈ b.arguments, (c.IsOf .proper ∨ c.IsOf .insert) ∧ c.Classified := by
    intro c hc
    rw [Block.arguments_of_rings hpieces, List.mem_map] at hc
    obtain ⟨c₀, hc₀, rfl⟩ := hc
    obtain ⟨hfresh, hkind⟩ := hnested ps hps c₀ hc₀
    have hkind := hkind.imp_right And.right
    split
    · exact ⟨hkind.imp Block.IsOf.withRing Block.IsOf.withRing, hfresh.classified.withRing⟩
    · exact ⟨hkind, hfresh.classified⟩
  -- what is nested has no rings before, so there are some just if the flag asks for them
  have hrings := Block.ringed_of_rings hpieces fun c hc => (hnested ps hps c hc).1.unringed
  have hholds : ∀ c ∈ b.arguments, b.Holds c := fun c hc =>
    ⟨(hkinds c hc).1.imp_right fun hinsert => .inl ⟨hinsert, hproper⟩, hrings c hc⟩
  refine ⟨⟨?_, ?_, ?_⟩, .inl hproper⟩
  · rw [Block.classified_iff]
    exact ⟨⟨hproper.existsUnique, hholds⟩, fun c hc => (hkinds c hc).2⟩
  · exact ringed_of_block hform hfinish
  · -- a block is no header
    intro hheader
    rw [hattrs] at hheader
    exact absurd hheader (shape_ne_defineHat_of_block hform)

end Fragment

/-! ## Lines -/

namespace Line

/-- An insert on a line of its own is put into a block, and any other block stays as it is. -/
private theorem lone_isFresh {b : Block} (h : b.IsFresh) (hb : b.IsOf .proper ∨ b.IsOf .insert) :
    (lone b).IsFresh ∧ (lone b).IsOf .proper := by
  unfold lone
  split
  · -- only inserts have no category
    rename_i hcategory
    have hinsert : b.IsOf .insert :=
      hb.resolve_left fun hproper => Block.IsProperKind.category_ne_none hproper hcategory
    have hproper : Block.IsOf
        ⟨{ id := some ['_'], category := some .obsolete, shape := some .stack }, [b.toPiece]⟩ .proper :=
      ⟨⟨.obsolete, by decide, rfl⟩, ⟨.stack, by decide, rfl⟩, by simp⟩
    refine ⟨⟨?_, rfl, fun _ => rfl⟩, hproper⟩
    rw [Block.classified_iff]
    simp only [Block.arguments, Fragment.blocks_toPiece_cons, Piece.blocks, List.mem_singleton, forall_eq]
    exact ⟨⟨hproper.existsUnique, .inr (.inl ⟨hinsert, hproper⟩), by simp [h.unringed]⟩, h.classified⟩
  · rename_i hcategory
    refine ⟨h, hb.resolve_right fun hinsert => hcategory (Block.IsInsertKind.category hinsert)⟩

/-- A line without a comment gives a block proper with no ring around it. -/
private theorem readBare_isFresh {v : Vocabulary} (hv : v.NamesKnown) {line : Text} {b : Block}
    (h : (readBare v line).result = .ok b) : b.IsFresh ∧ b.IsOf .proper := by
  unfold readBare at h
  split at h
  · obtain ⟨b₀, hb₀, rfl⟩ := Outcome.map_eq_ok h
    obtain ⟨hfresh, hkind⟩ := Fragment.read_isFresh hv hb₀
    exact lone_isFresh hfresh (hkind.imp_right And.right)
  · obtain ⟨hfresh, hkind⟩ := Fragment.read_isFresh hv h
    exact ⟨hfresh, hkind.resolve_right fun hinsert => by simp at hinsert⟩

/-- The category that a comment names is one that has a meaning. -/
private theorem directed?_mem {comment : Option Text} {c : Category} (h : directed? comment = some c) :
    c ∈ Category.standard := by
  obtain ⟨⟨c', rest⟩, hnamed, rfl⟩ := Option.map_eq_some_iff.1 h
  obtain ⟨text, -, hcategory⟩ := Option.bind_eq_some_iff.1 hnamed
  simp only [categoryOf?, Option.bind_eq_bind, Option.bind_eq_some_iff] at hcategory
  obtain ⟨⟨word, taken⟩, -, c'', hword, hpair⟩ := hcategory
  cases hpair
  exact List.mem_of_find?_eq_some hword

/-- A comment leaves a block proper what it is. -/
private theorem withComment_isFresh {v : Vocabulary} {comment : Option Text} {o : Outcome Block} {b : Block}
    (ho : ∀ b₀, o.result = .ok b₀ → b₀.IsFresh ∧ b₀.IsOf .proper)
    (h : (withComment v comment o).result = .ok b) : b.IsFresh ∧ b.IsOf .proper := by
  obtain ⟨b₀, hb₀, hpieces, hattrs⟩ := withComment_ok h
  obtain ⟨hfresh, hproper⟩ := ho b₀ hb₀
  -- a directive names a standard category, so the block stays a block proper
  have hproper' : b.IsOf .proper := by
    refine ⟨?_, ?_, ?_⟩
    · rw [hattrs]
      dsimp only
      split
      · exact Block.IsProperKind.category hproper
      · cases hdirected : directed? comment with
        | none => exact Block.IsProperKind.category hproper
        | some c => exact ⟨c, directed?_mem hdirected, rfl⟩
    · rw [hattrs]
      exact Block.IsProperKind.shape hproper
    · rw [hattrs]
      exact Block.IsProperKind.flag hproper
  refine ⟨⟨?_, ?_, ?_⟩, hproper'⟩
  · -- what it holds is what it held before
    refine hfresh.classified.congr hpieces ?_ (fun hheader => ?_) hproper hproper'
    · rw [hattrs]
    · rw [hattrs]
      exact hheader
  · rw [hattrs]
    exact hfresh.unringed
  · rw [hattrs]
    exact hfresh.header

end Line

/-- A comment that stands on its own is one of its kind. -/
private theorem Block.comment_isFresh (t : Text) :
    (Block.comment t).IsFresh ∧ (Block.comment t).IsOf .comment := by
  have hcomment : (Block.comment t).IsOf .comment := ⟨rfl, rfl, rfl, rfl⟩
  exact ⟨⟨Block.classified_of_arguments_eq_nil hcomment rfl, rfl, fun _ => rfl⟩, hcomment⟩

open Line in
/-- What `readLine` gives `IsFresh`: a block proper or a comment, with everything in its place. -/
theorem Vocabulary.readLine_isFresh {v : Vocabulary} (hv : v.NamesKnown) {line : Text} {b : Block}
    (h : (v.readLine line).result = .ok b) : b.IsFresh ∧ (b.IsOf .proper ∨ b.IsOf .comment) := by
  -- with a comment or without one, what is read of the rest is a block proper
  have hproper : ∀ {t : Text} {comment : Option Text},
      (withComment v comment (readBare v t)).result = .ok b →
      b.IsFresh ∧ (b.IsOf .proper ∨ b.IsOf .comment) := by
    intro t comment hb
    exact (withComment_isFresh (fun _ => readBare_isFresh hv) hb).imp_right .inl
  unfold readLine at h
  dsimp only at h
  split at h
  · exact hproper h
  · split at h
    · cases h
      exact (Block.comment_isFresh _).imp_right .inr
    · exact hproper h

end BlockScript
