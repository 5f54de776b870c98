import BlockScript.Proofs.Reading.Depth
import BlockScript.Proofs.Reading.Kind
import BlockScript.Proofs.Reading.Pieces
import BlockScript.Proofs.Reading.Woven
import BlockScript.Proofs.Vocabulary.Slots

/-!
# No argument is lost

The arguments of a fragment are read into the slots of the text that its block is drawn with, as far as they
go. With the bundled packs they go all the way: there is a slot for each argument, also where the text is not
the one that was written. So what is nested in a block is just what its arguments give, in order, but for the
rings that are drawn around them.

## Key results

- `Fragment.length_le_of_block`: there is a slot for each argument
- `Fragment.arguments_of_block`: then all that is nested in a block is what its arguments give
- `Lexicon.arguments_kept`: no argument is dropped, duplicated or moved
-/

namespace BlockScript

namespace Fragment

/-! ## Slots for arguments -/

/-- Each of the `argumentsOf` pieces leaves a slot in their `specOf`. -/
theorem length_argumentsOf_le (pieces : List Text) : (argumentsOf pieces).length ≤ (specOf pieces).count '_' := by
  rw [specOf, Piece.spec, Text.count_padSlots (by decide)]
  induction pieces with
  | nil => simp [argumentsOf]
  | cons p pieces ih =>
    rw [argumentsOf] at ih ⊢
    rw [List.map_cons, List.flatMap_cons, List.count_append, List.filter_cons, Piece.inSpec]
    split
    · rw [List.length_cons, List.count_singleton_self]
      omega
    · omega

/-- What a block is identified as is drawn with a text that has slots for all that stands in its spec. -/
private theorem count_le_of_identify {folded : Bool} {ps : List Pack} (hps : ∀ p ∈ ps, p.KeepsSlots)
    {spec : Text}
    {args : List Text} {shape : Shape} {f : Found}
    (h : identify (Vocabulary.ofPacks folded ps) spec args shape = .ok f) :
    spec.count '_' ≤ f.text.count '_' := by
  unfold identify at h
  split at h
  · cases h
  · cases h
    exact Nat.le_refl _
  · rename_i hfound
    cases h
    split at hfound
    · cases hfound
    · exact Vocabulary.find?_slots hps hfound

/-- If each pack `KeepsSlots`, the `form` of a block has a slot for each argument. -/
theorem length_le_of_block {folded : Bool} {ps : List Pack} (hps : ∀ p ∈ ps, p.KeepsSlots) {isLine : Bool}
    {code : Text} {attrs : Attrs} {words parts args : List Text}
    (h : form (Vocabulary.ofPacks folded ps) isLine code = .block attrs words parts args) :
    args.length ≤ parts.count ['_'] := by
  have hform := (isBlock_of_block h).form_eq
  rw [h] at hform
  split at hform
  · cases hform
  · rename_i hidentify
    cases hform
    rename_i text _
    set pieces := piecesIn (Vocabulary.ofPacks folded ps) isLine code
    -- overrides have no slots, so none gets lost when they are split off
    calc (argumentsOf pieces).length ≤ (specOf pieces).count '_' := length_argumentsOf_le pieces
      _ = (Override.split (specOf pieces)).1.count '_' := (Override.count_split _).symm
      _ ≤ _ := count_le_of_identify hps hidentify
      _ = _ := (count_partsAt _ _).symm

/-! ## What is nested in a block -/

/-- What is nested in a block is what its `arguments` give, if there is a slot for each. If the block asks for
    it, rings are drawn around them. -/
theorem arguments_of_block {v : Vocabulary} {isLine : Bool} {code : Text} {attrs : Attrs}
    {words parts args : List Text} {b : Block} (hform : form v isLine code = .block attrs words parts args)
    (hslots : args.length ≤ parts.count ['_']) (h : (v.readFragment isLine code).result = .ok b) :
    List.Forall₂ (fun arg c => ∃ c₀, (readArgument v arg).result = .ok c₀ ∧
      c = if b.attrs.flag = some .ring then c₀.withRing else c₀) args b.arguments := by
  rw [readFragment_result, hform] at h
  obtain ⟨ps, hps, -, hpieces⟩ := finish_rings (flag_ne_ring_of_block hform) h
  have hnested := (fillSlots_eq_ok hps).blocks
  rw [List.take_of_length_le hslots] at hnested
  rw [Block.arguments_of_rings hpieces, List.forall₂_map_right_iff]
  exact hnested.imp fun arg c hc => ⟨c, hc, rfl⟩

end Fragment

namespace Lexicon

open Fragment

/-- With bundled packs no argument is dropped, duplicated or moved. A fragment that `IsBlock`, neither a
    header nor an insert, gives a block, unless it is nested too deeply, and the block's `arguments` are what
    `readFragment` gives for the `argumentsIn` the fragment by themselves, one for one and in order. Each of
    them is `withRing` if the block has that flag. -/
theorem arguments_kept {around : List Folder} {names : List Text}
    (hnames : ∀ name ∈ names, Bundle.find? around name = some germanPack.toJson) (folded : Bool) :
    ∃ l, withPacks around folded names [] = .ok l ∧
      ∀ isLine code, IsBlock l.current isLine code →
        (l.current.readFragment isLine code).result ≠ .error .tooDeep →
        ∃ b, (l.current.readFragment isLine code).result = .ok b ∧
          List.Forall₂ (fun arg c => ∃ c₀, (l.current.readFragment false arg).result = .ok c₀ ∧
            c = if b.attrs.flag = some .ring then c₀.withRing else c₀)
            (argumentsIn l.current isLine code) b.arguments := by
  obtain ⟨l, hl, hcurrent⟩ := withPacks_german hnames folded
  refine ⟨l, hl, fun isLine code hblock hdeep => ?_⟩
  have hdrawable : l.current.Drawable := by
    rw [hcurrent]
    exact Vocabulary.drawable_ofPacks fun p => illustrated_of_mem
  obtain ⟨attrs, text, -, hform⟩ := hblock.exists_form hdrawable
  have hslots : (argumentsIn l.current isLine code).length ≤
      (partsAt (isMark (attrs.id == some "_ + _".toList)) text).count ['_'] := by
    rw [hcurrent] at hform ⊢
    exact length_le_of_block (fun p => keepsSlots_of_mem) hform
  obtain ⟨b, hb⟩ := exists_read hdrawable hdeep
  refine ⟨b, hb, (arguments_of_block hform hslots hb).imp fun arg c hc => ?_⟩
  -- by itself an argument is read with one level more
  obtain ⟨c₀, hc₀, hring⟩ := hc
  exact ⟨c₀, readFragment_of_ok hc₀, hring⟩

/-- A German text that stands for a block with an image, with words that ask for a ring. -/
theorem arguments_kept_of_german :
    ∃ l b c, withPacks [Bundle.home] true [germanPack.code] [] = .ok l ∧
      (l.current.readFragment true "drehe dich nach links um (15) Grad :: ring".toList).result = .ok b ∧
      (l.current.readFragment false "(15)".toList).result = .ok c ∧
      b.arguments = [if b.attrs.flag = some .ring then c.withRing else c] := by
  have hnames : ∀ name ∈ [germanPack.code],
      Bundle.find? [Bundle.home] name = some germanPack.toJson :=
    List.forall_mem_singleton.2 (Bundle.find?_germanPack _)
  obtain ⟨l, hl, hkept⟩ := arguments_kept hnames true
  obtain ⟨l', hl', hcurrent⟩ := withPacks_german hnames true
  obtain rfl : l = l' := Except.ok.inj (hl.symm.trans hl')
  -- what the bundle gives is the vocabulary itself, so all that is asked for can be computed
  have hblock : IsBlock l.current true "drehe dich nach links um (15) Grad :: ring".toList := by
    apply isBlock_of_line
    rw [hcurrent]
    decide +kernel
  have hargs : argumentsIn l.current true "drehe dich nach links um (15) Grad :: ring".toList =
      ["(15)".toList] := by
    rw [hcurrent]
    decide +kernel
  -- the text is short, so it is not nested too deeply
  obtain ⟨b, hb, hnested⟩ := hkept true _ hblock (read_ne_tooDeep (by decide))
  rw [hargs, List.forall₂_cons_left_iff] at hnested
  obtain ⟨c', later, ⟨c, hc, rfl⟩, hlater, hb'⟩ := hnested
  obtain rfl := List.forall₂_nil_left_iff.1 hlater
  exact ⟨l, b, c, hl, hb, hc, hb'⟩

/-- By itself an argument gives a block without a ring. So where a block asks for rings, what is nested in it
    is not just what its `arguments` give. -/
theorem argument_with_ring :
    ∃ b c, IsBlock (Vocabulary.english true) true "bar (1) :: ring".toList ∧
      argumentsIn (Vocabulary.english true) true "bar (1) :: ring".toList = ["(1)".toList] ∧
      ((Vocabulary.english true).readFragment true "bar (1) :: ring".toList).result = .ok b ∧
      ((Vocabulary.english true).readFragment false "(1)".toList).result = .ok c ∧ b.arguments ≠ [c] := by
  have hdrawable := Vocabulary.english_drawable true
  have hblock : IsBlock (Vocabulary.english true) true "bar (1) :: ring".toList :=
    isBlock_of_line (by decide +kernel)
  have hargs : argumentsIn (Vocabulary.english true) true "bar (1) :: ring".toList = ["(1)".toList] := by
    decide +kernel
  have hsplit : Override.split (specOf (piecesIn (Vocabulary.english true) true "bar (1) :: ring".toList)) =
      ("bar _".toList, ["ring".toList]) := by
    decide +kernel
  obtain ⟨b, hb⟩ := exists_read hdrawable (read_ne_tooDeep (by decide) :
    ((Vocabulary.english true).readFragment true "bar (1) :: ring".toList).result ≠ .error .tooDeep)
  have hc : (readArgument (Vocabulary.english true) "(1)".toList).result = .ok (insert .number "1".toList) := by
    decide +kernel
  refine ⟨b, insert .number "1".toList, hblock, hargs, hb, readFragment_of_ok hc, ?_⟩
  -- the block is not known, and has one slot
  obtain ⟨attrs, text, hidentify, hform⟩ := hblock.exists_form hdrawable
  rw [hsplit, identify_of_index_eq_none (Vocabulary.index_eq_none_of_letters (by decide +kernel))] at hidentify
  cases hidentify
  rw [hsplit, hargs] at hform
  -- the word gives it the flag, so a ring is drawn around the argument
  have hflag : b.attrs.flag = some .ring := by
    have hattrs := attrs?_of_readFragment hb
    rw [hform, Form.attrs?, Option.some_inj] at hattrs
    have hring : (["ring".toList].filterMap Override.flag?).getLast? = some .ring := by decide
    rw [← hattrs, Override.applyAll_ofWord_flag, hring]
    rfl
  have hnested := arguments_of_block hform (by rw [count_partsAt]; decide) hb
  simp only [if_pos hflag, List.forall₂_cons_left_iff] at hnested
  obtain ⟨c, later, ⟨c₀, hc₀, rfl⟩, -, hb'⟩ := hnested
  rw [hc] at hc₀
  cases hc₀
  rw [hb']
  -- with the ring it is not the argument that is read alone
  intro hsame
  exact absurd (List.cons.inj hsame).1 (by decide)

end Lexicon

end BlockScript
