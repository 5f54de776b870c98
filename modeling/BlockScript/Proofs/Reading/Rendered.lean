import BlockScript.Proofs.Block.Formed
import BlockScript.Proofs.Reading.Literal
import BlockScript.Proofs.Reading.Woven
import BlockScript.Proofs.Vocabulary.Bundled
import BlockScript.Proofs.Vocabulary.Specs

/-!
# What is written of what has been read

Reading takes a woven text apart, and rendering puts it together again. An insert keeps its text, but for the
sign of a menu, which its shape stands for. The slots of a block are filled by what is written of its
arguments, so that its text becomes the woven text again, if it is drawn by the spec by which it has been
found. This is so unless it is drawn in some other way: with the name of an image, without a text, or with
more blanks.

## Key results

- `Fragment.render_insert`: an insert is written as it has been read
- `Fragment.render_of_read`: so is a block, if its arguments are
- `Vocabulary.english_identify_drawn`: which blocks are drawn by their spec
-/

namespace BlockScript

/-! ## Blocks that are drawn by their spec -/

/-- Whether the attributes are those of a block that is drawn by its spec: it has no image, does not close C
    blocks, and is no ellipsis. -/
structure Attrs.IsDrawnBySpec (a : Attrs) : Prop where
  image : a.image = none
  flag : a.flag ≠ some .cEnd
  id : a.id ≠ some Text.ellipsis ∧ a.id ≠ some "…".toList

namespace Vocabulary

/-- `refine` leaves the image of a block as it is. -/
private theorem refine_image (v : Vocabulary) (args : List Text) (a : Attrs) (lang : Text) :
    (v.refine args { a with lang := some lang }).image = a.image := by
  rw [refine_eq]

variable {folded : Bool} {spec : Text} {args : List Text}

/-- What is found in English is in a `category`, and is no parameter. -/
private theorem english_find?_category {f : Found} (h : (english folded).find? spec args = .ok (some f)) :
    ∃ c, f.attrs.category = some c ∧ c ≠ .customArg := by
  obtain ⟨id, lang, hindex, hattrs, -⟩ := find?_eq_ok h
  rw [Lexicon.english_eq_ofPacks] at hindex
  obtain ⟨a, ha⟩ := Option.isSome_iff_exists.1 (index_ofPacks hindex).1
  obtain ⟨group, hgroup, e, -, -, rfl⟩ := exists_entry_of_knownBlock? ha
  rw [ha] at hattrs
  -- arguments may move a block to another category, but never to that of parameters
  rcases (english folded).refine_category args { e.attrs group.1 with lang := some lang }
    with hsame | ⟨c, hc, hcategory⟩
  · have hgroups : ∀ group ∈ palette, group.1 ≠ .customArg := by simp [palette]
    exact ⟨group.1, by rw [hattrs]; exact hsame, hgroups group hgroup⟩
  · refine ⟨c, by rw [hattrs]; exact hcategory, ?_⟩
    rintro rfl
    simp at hc

/-- An ellipsis is found by its `spec`. -/
private theorem english_find?_ellipsis {f : Found} (h : (english folded).find? spec args = .ok (some f))
    (hspec : spec = Text.ellipsis ∨ spec = "…".toList) : f.attrs.id = some spec := by
  have hgroup : (Category.grey, greyEntries) ∈ palette := by simp [palette]
  have hentry : ∀ e ∈ greyEntries, Text.padSlots e.spec = e.spec ∧ '@' ∉ e.spec := by decide +kernel
  obtain ⟨e, he, rfl⟩ : ∃ e ∈ greyEntries, e.spec = spec := by
    rcases hspec with rfl | rfl
    · exact ⟨.plain "...", by simp [greyEntries], by rw [Text.ellipsis]; rfl⟩
    · exact ⟨.plain "…", by simp [greyEntries], rfl⟩
  obtain ⟨hpadded, himage⟩ := hentry e he
  obtain ⟨f', hfind, hid, -⟩ := @english_find?_spec folded _ _ hgroup he himage args
  rw [hpadded, h] at hfind
  obtain rfl := Option.some.inj (Except.ok.inj hfind)
  exact hid

/-- A block that `IsDrawnBySpec` is drawn with the spec it was found by. -/
private theorem english_find?_text {f : Found} (h : (english folded).find? spec args = .ok (some f))
    (hdrawn : f.attrs.IsDrawnBySpec) : f.text = spec := by
  obtain ⟨id, lang, -, hattrs, htext⟩ := find?_eq_ok h
  have himage := hdrawn.image
  rw [hattrs, refine_image] at himage
  rw [htext himage, drawnText, if_neg]
  intro hellipsis
  have hid := english_find?_ellipsis h hellipsis
  rcases hellipsis with rfl | rfl
  · exact hdrawn.id.1 hid
  · exact hdrawn.id.2 hid

open Fragment in
/-- What a fragment is identified as is drawn by its `spec`, unless its attributes tell otherwise. It is in a
    `category`, and in the shape of its place unless it starts or ends a script. -/
theorem english_identify_drawn {shape : Shape} {attrs : Attrs} {text : Text}
    (h : identify (english folded) spec args shape = .ok ⟨attrs, text⟩) (hdrawn : attrs.IsDrawnBySpec) :
    text = spec ∧ (∃ c, attrs.category = some c ∧ c ≠ .customArg) ∧
      (attrs.shape = some shape ∨ attrs.shape = some .hat ∨ attrs.shape = some .cap) := by
  unfold identify at h
  split at h
  · cases h
  · -- an unknown block has its spec for a text
    cases h
    refine ⟨rfl, ⟨_, rfl, ?_⟩, .inl rfl⟩
    split <;> simp
  · rename_i found text' hfound
    cases h
    split at hfound
    · cases hfound
    · -- the only shapes of its own that a block has start or end a script
      have hflag : found.flag ≠ some .cEnd := hdrawn.flag
      have hfound' : found.IsDrawnBySpec := ⟨hdrawn.image, hflag, hdrawn.id⟩
      refine ⟨?_, english_find?_category hfound, ?_⟩
      · rw [if_neg hflag]
        exact english_find?_text hfound hfound'
      · cases hshape : found.shape with
        | none => exact .inl (by rw [knownAttrs, hshape]; rfl)
        | some own =>
          have hknown : (knownAttrs found shape).shape = some own := by rw [knownAttrs, hshape]; rfl
          rcases find?_shape hfound hshape with rfl | rfl
          · exact .inr (.inl hknown)
          · exact .inr (.inr hknown)

end Vocabulary

namespace Fragment

/-! ## Inserts -/

/-- What is left of a text without the sign of its menu, with the sign behind it again. -/
private theorem dropLast_append_menu {t : Text} (h : endsInMenu t = true) :
    t.dropLast.dropLast ++ " v".toList = t := by
  obtain ⟨front, rfl⟩ := List.isSuffixOf_iff_suffix.1 h
  simp

/-- A menu is told by its sign: a text for which `hasMenu` holds `endsInMenu`. -/
private theorem endsInMenu_of_hasMenu {bracket : Option Bracket} {t : Text}
    (h : (Shape.ofArgument bracket t).hasMenu = true) : endsInMenu t = true := by
  unfold Shape.ofArgument at h
  cases hmenu : endsInMenu t with
  | true => rfl
  | false =>
    rw [hmenu] at h
    simp only [Bool.false_eq_true, if_false] at h
    split at h
    · split at h <;> cases h
    · split at h <;> cases h
    · cases h
    · cases h

/-- The `insertBracket` of an insert is the one in which it has been read. -/
private theorem insertBracket_ofArgument {b : Bracket} {t : Text} (hb : b = .round ∨ b = .square)
    (h : (Shape.ofArgument (some b) t).isInsert = true) :
    Shape.insertBracket (some (Shape.ofArgument (some b) t)) = b := by
  rcases hb with rfl | rfl
  · simp only [Shape.ofArgument] at h ⊢
    split
    · rfl
    · split <;> rfl
  · simp only [Shape.ofArgument]
    split
    · rfl
    · split <;> rfl

/-- `render` writes an insert as it has been read. -/
theorem render_insert {b : Bracket} {t : Text} (hb : b = .round ∨ b = .square)
    (h : (Shape.ofArgument (some b) t).isInsert = true) :
    (insert (Shape.ofArgument (some b) t) t).render = .ok (b.enclose t) := by
  have hrender : (insert (Shape.ofArgument (some b) t) t).render =
      .ok (renderInsert (some (Shape.ofArgument (some b) t))
        (if (Shape.ofArgument (some b) t).hasMenu then t.dropLast.dropLast else t)) := rfl
  rw [hrender, renderInsert, insertBracket_ofArgument hb h, Option.any_some]
  split
  · rename_i hmenu
    rw [dropLast_append_menu (endsInMenu_of_hasMenu hmenu)]
  · rfl

/-- `ofArgument` makes an insert of any text in square brackets. -/
theorem isInsert_ofArgument_square (t : Text) : (Shape.ofArgument (some .square) t).isInsert = true := by
  simp only [Shape.ofArgument]
  split
  · rfl
  · split <;> rfl

/-! ## Slots -/

/-- A part that `partsAt` makes of a text is a character alone, or has no mark. -/
private theorem eq_singleton_or_of_mem_partsAt {isMark : Char → Bool} {t part : Text}
    (h : part ∈ partsAt isMark t) :
    (∃ c, part = [c]) ∨ ∀ c ∈ part, isMark c = false := by
  induction t generalizing part with
  | nil => cases h
  | cons c rest ih =>
    -- a character that stands by itself, or a part of the rest
    have hlater : ∀ parts, [c] :: parts = [c] :: partsAt isMark rest → part ∈ [c] :: parts →
        (∃ c, part = [c]) ∨ ∀ c ∈ part, isMark c = false := by
      intro parts hparts hpart
      rw [hparts] at hpart
      rcases List.mem_cons.1 hpart with rfl | hpart
      · exact .inl ⟨c, rfl⟩
      · exact ih hpart
    rw [partsAt] at h
    split at h
    · exact hlater _ rfl h
    · rename_i hc
      split at h
      · rename_i d front parts hparts
        split at h
        · exact hlater _ (by rw [hparts]) h
        · rename_i hd
          rcases List.mem_cons.1 h with rfl | h
          · -- a part goes on as long as there is no mark
            right
            have hfront : ∀ e ∈ d :: front, isMark e = false := by
              have hmem : d :: front ∈ partsAt isMark rest := by
                rw [hparts]
                exact List.mem_cons_self
              rcases ih hmem with ⟨e, hsingle⟩ | hnone
              · obtain ⟨rfl, rfl⟩ := List.cons.inj hsingle
                simpa using hd
              · exact hnone
            exact List.forall_mem_cons.2 ⟨by simpa using hc, hfront⟩
          · exact ih (by rw [hparts]; exact List.mem_cons_of_mem _ h)
      · exact hlater _ rfl h

/-- A slot is a part of its own for `partsAt`. -/
private theorem eq_slot_or_of_mem_partsAt {adds : Bool} {t part : Text}
    (h : part ∈ partsAt (isMark adds) t) :
    part = ['_'] ∨ '_' ∉ part := by
  have hslot : isMark adds '_' = true := by
    cases adds <;> decide
  rcases eq_singleton_or_of_mem_partsAt h with ⟨c, rfl⟩ | hnone
  · by_cases hc : '_' = c
    · exact .inl (by rw [hc])
    · exact .inr (by simpa using hc)
  · refine .inr fun hmem => ?_
    rw [hnone '_' hmem] at hslot
    cases hslot

/-- What `fillSlots` puts in the slots is written as the arguments, and the text around them as it is. So a
    woven text comes out of the spec again. -/
private theorem join_fillSlots {nested : Text → Outcome Block} {parts args : List Text} {ps : List Piece}
    (h : (fillSlots nested parts args).result = .ok ps)
    (hparts : ∀ part ∈ parts, part = ['_'] ∨ '_' ∉ part)
    (hnested : ∀ arg ∈ args, ∀ b, (nested arg).result = .ok b → b.render = .ok arg)
    (hfits : Text.Fits (Text.runsOf parts.flatten) args) :
    Written.join (Piece.renderList none ps) = .ok (Text.weave (Text.runsOf parts.flatten) args) := by
  -- by induction on the parts: each slot uses up an argument and a run, each text a piece of a run
  induction parts generalizing args ps with
  | nil =>
    cases h
    obtain rfl : args = [] := List.length_eq_zero_iff.1 (Nat.succ.inj (Text.fits_iff.1 hfits)).symm
    rfl
  | cons part parts ih =>
    obtain ⟨hpart, hlater⟩ := List.forall_mem_cons.1 hparts
    unfold fillSlots at h
    split at h
    · -- a slot
      rename_i arg args
      obtain ⟨b, qs, hb, hqs, rfl⟩ := Outcome.andThen_map_eq_ok h
      obtain ⟨harg, hargs⟩ := List.forall_mem_cons.1 hnested
      have hrun : Text.runsOf (['_'] :: parts).flatten = [] :: Text.runsOf parts.flatten := Text.runsOf_slot _
      rw [hrun] at hfits ⊢
      have hblock : Piece.render none b.toPiece = .ok arg := by
        rw [Block.toPiece, Piece.render]
        exact harg b hb
      rw [Piece.renderList, hblock, Written.join, ih hqs hlater hargs hfits.tail, Text.weave_cons]
      rfl
    · -- a text, as a slot would have an argument to take
      rename_i hslot
      obtain ⟨qs, hqs, rfl⟩ := Outcome.map_eq_ok h
      obtain ⟨run, runs, hruns⟩ := List.exists_cons_of_ne_nil (Text.splitAt_ne_nil (· == '_') parts.flatten)
      have hplain : '_' ∉ part := by
        refine hpart.resolve_left fun hpart => ?_
        -- there is an argument for each slot
        obtain rfl : args = [] := List.eq_nil_iff_forall_not_mem.2 fun arg harg => by
          obtain ⟨first, later, rfl⟩ := List.exists_cons_of_ne_nil (List.ne_nil_of_mem harg)
          exact hslot first later hpart rfl
        subst hpart
        have hlength := Text.fits_iff.1 hfits
        rw [List.flatten_cons, List.singleton_append, Text.runsOf_slot, Text.runsOf, hruns] at hlength
        simp at hlength
      have hrun : Text.runsOf (part :: parts).flatten = (part ++ run) :: runs :=
        Text.runsOf_append hplain hruns
      rw [hrun] at hfits ⊢
      have hrest : Text.Fits (Text.runsOf parts.flatten) args := by
        rw [Text.runsOf, hruns]
        exact hfits.of_length rfl rfl
      have hjoin := ih hqs hlater hnested hrest
      have hliteral : Piece.render none (.text part) = .ok part := by rw [Piece.render]; rfl
      rw [Text.runsOf, hruns] at hjoin
      rw [Piece.renderList, hliteral, Written.join, hjoin, ← Text.append_weave]
      rfl

end Fragment

/-! ## Blocks -/

/-- What `render` writes of a block that is no insert and no header. -/
theorem Block.render_of_join {a : Attrs} {ps : List Piece} {t : Text} (hcategory : a.category ≠ none)
    (hshape : a.shape ≠ some .defineHat) (hjoin : Written.join (Piece.renderList a.image ps) = .ok t) :
    Block.render ⟨a, ps⟩ = .ok (a.enclose t) := by
  unfold Block.render
  rw [renderWith.eq_2 a _ _ fun t hnone _ => hcategory hnone, if_neg hshape, hjoin]
  rfl

/-- By `enclose`, embedded blocks and reporters are written in round brackets. -/
theorem Attrs.enclose_of_round {a : Attrs} (h : a.shape = some .embedded ∨ a.shape = some .reporter)
    (t : Text) : a.enclose t = Bracket.round.enclose t := by
  rcases h with h | h <;> simp only [enclose, h]

/-- By `enclose`, a block with a line of its own is written without brackets, unless it is a parameter. -/
theorem Attrs.enclose_of_line {a : Attrs} (hcategory : a.category ≠ some .customArg)
    (h : a.shape = some .stack ∨ a.shape = some .hat ∨ a.shape = some .cap) (t : Text) : a.enclose t = t := by
  rcases h with h | h | h <;> simp only [enclose, h, if_neg hcategory]

namespace Fragment

/-- The `blockShape` of what stands in round brackets and is no insert is a round one. -/
theorem blockShape_round {pieces : List Text} {t : Text} (h : insertShape? (some .round) pieces t = none) :
    blockShape (some .round) pieces t = .embedded ∨ blockShape (some .round) pieces t = .reporter := by
  unfold blockShape
  split
  · exact .inl rfl
  · rename_i hsingle
    exact .inr (ofArgument_round_of_insertShape? hsingle h)

/-- The `blockShape` that a place alone gives neither starts nor ends a script. -/
private theorem blockShape_ne (bracket : Option Bracket) (pieces : List Text) (t : Text) :
    blockShape bracket pieces t ≠ .hat ∧ blockShape bracket pieces t ≠ .cap := by
  unfold blockShape Shape.ofBlock Shape.ofArgument
  repeat' split
  all_goals simp

/-- A block is written as it has been read if its arguments are. -/
private theorem render_of_form {v : Vocabulary} {depth : Nat} {isLine adds : Bool} {code text : Text}
    {args : List Text}
    {attrs : Attrs} {b : Block} (hform : form v isLine code = .block attrs [] (partsAt (isMark adds) text) args)
    (hread : (read v (depth + 1) isLine code).result = .ok b) (hfits : Text.Fits (Text.runsOf text) args)
    (hargs : ∀ arg ∈ args, ∀ b, (read v depth false arg).result = .ok b → b.render = .ok arg)
    (himage : attrs.image = none) (hcategory : attrs.category ≠ none) (hshape : attrs.shape ≠ some .defineHat) :
    b.render = .ok (attrs.enclose (Text.weave (Text.runsOf text) args)) := by
  rw [read_succ_result, hform] at hread
  obtain ⟨ps, hps, hattrs, -, hpieces⟩ := finish_eq_ok hread
  obtain rfl : b = ⟨attrs, ps⟩ := by
    cases b
    rw [Block.mk.injEq]
    exact ⟨hattrs, hpieces rfl⟩
  have hflatten := flatten_partsAt (isMark adds) text
  -- with its arguments written as they were typed, the pieces spell out the woven text
  have hjoin := join_fillSlots hps (fun part => eq_slot_or_of_mem_partsAt) hargs (hflatten.symm ▸ hfits)
  rw [hflatten] at hjoin
  exact Block.render_of_join hcategory hshape (himage.symm ▸ hjoin)

end Fragment

/-! ## Woven texts -/

open Fragment in
/-- A text that `IsInterwoven`, and is an insert, keeps its text. -/
theorem IsInterwoven.form_insert {v : Vocabulary} {runs args : List Text} {shape : Shape}
    (h : IsInterwoven v runs args) (isLine : Bool) (code : Text)
    (hcode : (if isLine then code else Bracket.strip code) = Text.weave runs args)
    (hheader : v.header? (Text.weave runs args) = none)
    (hinsert : insertShape? (outerBracket isLine code)
      ((Text.interleave runs args).filter (· ≠ [])) (Text.weave runs args) = some shape) :
    form v isLine code = .whole (insert shape (Text.weave runs args)) := by
  simp only [form, hcode, hheader, h.texts_eq, hinsert]

open Fragment in
/-- A woven text that is an insert or in no `index` is drawn by its spec, and neither starts nor ends a
    script. -/
theorem IsInterwoven.isDrawnBySpec_of_index_eq_none {v : Vocabulary} {runs args : List Text}
    (h : IsInterwoven v runs args) (isLine : Bool) (code : Text)
    (hcode : (if isLine then code else Bracket.strip code) = Text.weave runs args)
    (hheader : v.header? (Text.weave runs args) = none)
    (hindex : Dictionary.get? (v.key (Text.padSlots (Text.slotted runs))) v.index = none)
    (hspec : Text.padSlots (Text.slotted runs) ≠ Text.ellipsis ∧
      Text.padSlots (Text.slotted runs) ≠ "…".toList) :
    ∀ a, (form v isLine code).attrs? = some a →
      a.IsDrawnBySpec ∧ a.shape ≠ some .hat ∧ a.shape ≠ some .cap := by
  intro a hattrs
  cases hinsert : insertShape? (outerBracket isLine code)
      ((Text.interleave runs args).filter (· ≠ [])) (Text.weave runs args) with
  -- an insert has no spec of its own
  | some shape =>
    have hshape := isInsert_of_insertShape? hinsert
    rw [h.form_insert isLine code hcode hheader hinsert] at hattrs
    cases hattrs
    refine ⟨⟨rfl, nofun, nofun, nofun⟩, ?_, ?_⟩
    · rintro ⟨⟩
      cases hshape
    · rintro ⟨⟩
      cases hshape
  -- an unknown block is drawn by its own spec
  | none =>
    have hshape := blockShape_ne (outerBracket isLine code)
      ((Text.interleave runs args).filter (· ≠ [])) (Text.weave runs args)
    rw [h.form_eq hcode hheader hinsert (identify_of_index_eq_none hindex args _)] at hattrs
    cases hattrs
    refine ⟨⟨rfl, by simp [Override.applyAll, unknownAttrs], ?_, ?_⟩, ?_, ?_⟩
    · simpa [Override.applyAll, unknownAttrs] using hspec.1
    · simpa [Override.applyAll, unknownAttrs] using hspec.2
    · simpa [Override.applyAll, unknownAttrs] using hshape.1
    · simpa [Override.applyAll, unknownAttrs] using hshape.2

open Fragment in
/-- A text that `IsInterwoven` of runs that `AreApart` from the arguments is written by `render` as it has
    been read, if it is neither a header nor an insert, and drawn by its spec. -/
theorem IsInterwoven.render_of_read {folded : Bool} {runs args : List Text} {depth : Nat} {b : Block}
    (h : IsInterwoven (Vocabulary.english folded) runs args) (isLine : Bool) (code : Text)
    (hslots : ∀ run ∈ runs, '_' ∉ run) (hapart : Text.AreApart runs)
    (hcode : (if isLine then code else Bracket.strip code) = Text.weave runs args)
    (hheader : (Vocabulary.english folded).header? (Text.weave runs args) = none)
    (hinsert : insertShape? (outerBracket isLine code)
      ((Text.interleave runs args).filter (· ≠ [])) (Text.weave runs args) = none)
    (hdrawn : ∀ a, (form (Vocabulary.english folded) isLine code).attrs? = some a → a.IsDrawnBySpec)
    (hread : (read (Vocabulary.english folded) (depth + 1) isLine code).result = .ok b)
    (hargs : ∀ arg ∈ args, ∀ b,
      (read (Vocabulary.english folded) depth false arg).result = .ok b → b.render = .ok arg) :
    ∃ a, (form (Vocabulary.english folded) isLine code).attrs? = some a ∧ a.category ≠ some .customArg ∧
      (a.shape = some (blockShape (outerBracket isLine code)
          ((Text.interleave runs args).filter (· ≠ [])) (Text.weave runs args)) ∨
        a.shape = some .hat ∨ a.shape = some .cap) ∧
      b.render = .ok (a.enclose (Text.weave runs args)) := by
  obtain ⟨⟨attrs, text⟩, hidentify⟩ := exists_identify (Vocabulary.english_drawable folded)
    (Text.padSlots (Text.slotted runs)) args (blockShape (outerBracket isLine code)
      ((Text.interleave runs args).filter (· ≠ [])) (Text.weave runs args))
  have hform := h.form_eq hcode hheader hinsert hidentify
  -- overrides there are none, so the attributes are the ones identified
  have hattrs : (form (Vocabulary.english folded) isLine code).attrs? = some attrs := by
    rw [hform]
    rfl
  obtain ⟨rfl, ⟨c, hcategory, hc⟩, hshape⟩ := Vocabulary.english_identify_drawn hidentify (hdrawn attrs hattrs)
  -- the drawn text is the spec, and its runs are those of the text that has been read
  have hruns : Text.runsOf (Text.padSlots (Text.slotted runs)) = runs := by
    obtain ⟨run, later, hcons⟩ := h.fits.exists_cons
    rw [Text.padSlots_slotted hslots hapart, Text.runsOf_slotted (hcons ▸ List.cons_ne_nil run later) hslots]
  -- a block has not the shape of a header, so it is rendered piece by piece
  have hheader' : attrs.shape ≠ some .defineHat := by
    have := shape_ne_defineHat_of_block hform
    simpa [Override.applyAll] using this
  have hrender := render_of_form hform hread (hruns.symm ▸ h.fits) hargs (hdrawn attrs hattrs).image
    (by simp [hcategory]) hheader'
  rw [hruns] at hrender
  exact ⟨attrs, hattrs, by simpa [hcategory] using hc, hshape, hrender⟩

end BlockScript
