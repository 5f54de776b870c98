import BlockScript.Block.Render
import BlockScript.Proofs.Lists
import BlockScript.Proofs.Reading.Form
import BlockScript.Proofs.Reading.Literal
import BlockScript.Proofs.Vocabulary.English

/-!
# Names of lists

A few blocks use a list. Such a block without overrides names its list in the menu of one of its
arguments, and registers this name as it stands in front of the sign of the menu.

## Key results

- `Fragment.leading?_of_mem_parts`: the text of a list block holds nothing that looks like an argument
- `Fragment.list_mem_sightings`: a list block registers the name in its menu
-/

namespace BlockScript

namespace Fragment

/-- The argument with which a list block without overrides names its list. -/
def Form.listArgument? : Form → Option Text
  | .block attrs [] parts args => do
    let number ← Dictionary.get? (← attrs.id) listArguments
    (Form.slotted (.block attrs [] parts args))[number]?
  | _ => none

/-- What has to be known of the names of list blocks: they hold no images, no `aliases` lead to them, and
    neither they nor their keys open a bracket. -/
theorem listArguments_plain {id : Text} {number : Nat}
    (h : Dictionary.get? id listArguments = some number) (folded : Bool) :
    imageName? id = none ∧ (∀ spec, (spec, id) ∉ englishPack.aliases) ∧
      (∀ c ∈ id, Bracket.ofOpener? c = none) ∧
      ∀ c ∈ Text.key folded (Text.padSlots (withoutImageName id)), Bracket.ofOpener? c = none := by
  have hall : listArguments.all (fun e =>
      (imageName? e.1).isNone && (englishPack.aliases.all fun entry => entry.2 != e.1) &&
        (e.1.all fun c => (Bracket.ofOpener? c).isNone) &&
        (Text.key folded (Text.padSlots (withoutImageName e.1))).all fun c =>
          (Bracket.ofOpener? c).isNone) = true := by
    cases folded <;> decide +kernel
  have hid := List.all_eq_true.1 hall _ (Dictionary.mem_of_get? h)
  simp only [Bool.and_eq_true, List.all_eq_true, Option.isNone_iff_eq_none, bne_iff_ne] at hid
  obtain ⟨⟨⟨himage, halias⟩, hname⟩, hkey⟩ := hid
  exact ⟨himage, fun spec hmem => halias _ hmem rfl, hname, hkey⟩

/-- The characters of the parts of a text are those of the text. -/
private theorem mem_of_mem_partsAt {isMark : Char → Bool} {t part : Text} (h : part ∈ partsAt isMark t) :
    ∀ c ∈ part, c ∈ t := by
  induction t generalizing part with
  | nil => cases h
  | cons d rest ih =>
    -- a part of the rest, which may be all there is of it
    have hrest : ∀ part ∈ partsAt isMark rest, ∀ c ∈ part, c ∈ d :: rest :=
      fun part hpart c hc => List.mem_cons_of_mem _ (ih hpart c hc)
    have hfirst : ∀ c ∈ [d], c ∈ d :: rest := by simp
    unfold partsAt at h
    split at h
    · exact List.forall_mem_cons.2 ⟨hfirst, hrest⟩ part h
    · split at h
      · -- the first character joins the first part of the rest, or is a part of its own
        rename_i e front parts hparts
        rw [hparts] at hrest
        obtain ⟨hfront, hparts⟩ := List.forall_mem_cons.1 hrest
        split at h
        · exact List.forall_mem_cons.2 ⟨hfirst, hrest⟩ part h
        · refine List.forall_mem_cons.2 ⟨?_, hparts⟩ part h
          exact List.forall_mem_cons.2 ⟨List.mem_cons_self, hfront⟩
      · exact List.forall_mem_cons.2 ⟨hfirst, hrest⟩ part h

/-- Brackets are kept in keys. -/
private theorem isKept_of_ofOpener? {c : Char} {b : Bracket} (h : Bracket.ofOpener? c = some b) :
    Text.isKept c = true := by
  rw [Bracket.ofOpener?_eq_some_iff] at h
  subst h
  cases b <;> decide

/-- No part of the text of a list block looks like an argument. -/
theorem leading?_of_mem_parts {folded isLine : Bool} {code : Text} {attrs : Attrs}
    {words parts args : List Text} {id : Text} {number : Nat}
    (hform : form (Vocabulary.english folded) isLine code = .block attrs words parts args)
    (hid : attrs.id = some id) (hlist : Dictionary.get? id listArguments = some number) :
    ∀ part ∈ parts, Bracket.leading? part = none := by
  obtain ⟨himage, halias, hname, hkey⟩ := listArguments_plain hlist folded
  obtain ⟨spec, shape, text, hidentify, -, rfl⟩ := form_eq_block hform
  -- the parts are cut out of the text, so it is enough that this has no opening bracket
  have htext : ∀ c ∈ text, Bracket.ofOpener? c = none := by
    unfold identify at hidentify
    split at hidentify
    · cases hidentify
    · -- an unknown block is drawn as it is named
      cases hidentify
      cases hid
      exact hname
    · rename_i known drawn hfound
      cases hidentify
      split at hfound
      · cases hfound
      · have hname' : known.id = some id := hid
        obtain ⟨hspec, hdrawn⟩ := Vocabulary.english_find?_eq_ok hfound hname' halias
        have hplain : ∀ c ∈ drawn, Bracket.ofOpener? c = none := by
          rw [show drawn = Vocabulary.drawnText spec from hdrawn himage]
          unfold Vocabulary.drawnText
          split
          · -- a block drawn as dots has no brackets
            have hdots : (". . .".toList.all fun c => (Bracket.ofOpener? c).isNone) = true := by decide
            simpa using List.all_eq_true.1 hdots
          · -- a bracket in the spec would be in its key, which is that of the name
            intro c hc
            cases hopener : Bracket.ofOpener? c with
            | none => rfl
            | some b =>
              have hmem := Text.mem_key_of_mem folded (isKept_of_ofOpener? hopener) hc
              rw [hspec] at hmem
              exact hopener.symm.trans (hkey c hmem)
        intro c hc
        split at hc
        · cases hc
        · exact hplain c hc
  intro part hpart
  cases part with
  | nil => rfl
  | cons c rest => exact htext c (mem_of_mem_partsAt hpart c List.mem_cons_self)

/-- A name with the sign of a menu. -/
def menuOf (n : Text) : Text := n ++ " v".toList

/-- The sign of a menu makes no header of a text. -/
private theorem header?_menuOf {folded : Bool} {n : Text}
    (h : (Vocabulary.english folded).header? n = none) :
    (Vocabulary.english folded).header? (menuOf n) = none := by
  have hkey : ∀ t, (Vocabulary.english folded).key t = Text.key folded t := by
    intro t
    rw [Vocabulary.key, Vocabulary.english_folded]
  have hiff : ∀ t : Text, (Vocabulary.english folded).header? t = none ↔
      ¬ ((t.drop 6).head?.all (· == ' ') = true ∧
        Text.key folded (t.take 6) = Text.key folded "define".toList) := by
    intro t
    rw [Vocabulary.header?, Vocabulary.english_headerWords, List.find?_eq_none]
    simp only [List.mem_singleton, forall_eq, hkey, Bool.and_eq_true, beq_iff_eq]
    rfl
  rw [hiff] at h ⊢
  rintro ⟨hnext, hword⟩
  -- by where the word of six letters ends: in the name, at the space of the sign, or at the sign itself
  have hlength : (menuOf n).length = n.length + 2 := by
    simp [menuOf]
  by_cases hlong : 6 ≤ n.length
  · -- the word would stand in the name itself
    refine h ⟨?_, ?_⟩
    · rw [menuOf, List.drop_append_of_le_length hlong] at hnext
      cases hdrop : n.drop 6 with
      | nil => rfl
      | cons c rest =>
        rw [hdrop] at hnext
        exact hnext
    · rwa [menuOf, List.take_append_of_le_length hlong] at hword
  · by_cases hfive : n.length = 5
    · -- the word would end in the space of the sign, with the rest of it behind
      have hdrop : (menuOf n).drop 6 = ['v'] := by
        rw [menuOf, List.drop_append, hfive, List.drop_eq_nil_of_le (by omega)]
        rfl
      rw [hdrop] at hnext
      cases hnext
    · -- the sign would be a part of the word, but there is no such letter in it
      have htake : (menuOf n).take 6 = menuOf n := List.take_of_length_le (by omega)
      have hv : 'v' ∈ menuOf n := by simp [menuOf]
      have hmem := Text.mem_key_of_mem folded (c := 'v') (by decide) hv
      rw [← htake, hword] at hmem
      revert hmem
      cases folded <;> decide +kernel

/-- The `menuOf` a name in square brackets is an insert that holds the name. -/
theorem insert_menuOf (n : Text) :
    insert (Shape.ofArgument (some .square) (menuOf n)) (menuOf n) =
      ⟨{ shape := some .dropdown }, [.text n]⟩ := by
  have hcolor : isColorText (menuOf n) = false := by
    cases n with
    | nil => rfl
    | cons c rest =>
      -- the space in front of the sign is no digit
      have hdigits : (rest ++ " v".toList).all isHexChar = false := by
        rw [List.all_append, Bool.and_eq_false_iff]
        exact .inr (by decide)
      unfold isColorText menuOf
      rw [List.cons_append]
      split
      · rename_i heq
        obtain ⟨-, rfl⟩ := List.cons.inj heq
        rw [hdigits, Bool.and_false]
      · rfl
  -- the text ends in the sign for a menu, which is cut off
  have hmenu : endsInMenu (menuOf n) = true := by
    rw [endsInMenu, List.isSuffixOf_iff_suffix]
    exact List.suffix_append n _
  have hdrop : (menuOf n).dropLast.dropLast = n := by
    simp [menuOf]
  have hshape : Shape.ofArgument (some .square) (menuOf n) = .dropdown := by
    simp [Shape.ofArgument, hcolor, hmenu]
  rw [hshape, insert, hdrop]
  rfl

/-- An argument that is such a menu is read as it stands. -/
private theorem read_menuOf {folded : Bool} {depth : Nat} {n : Text} {b : Block}
    (hheader : (Vocabulary.english folded).header? n = none)
    (h : (read (Vocabulary.english folded) depth false
      (Bracket.square.enclose (menuOf n))).result = .ok b) :
    b = ⟨{ shape := some .dropdown }, [.text n]⟩ := by
  have hmenu := header?_menuOf hheader
  cases depth with
  | zero => cases h
  | succ depth =>
    have hsquare := readWith_square (Vocabulary.english folded)
      (read (Vocabulary.english folded) depth false) (menuOf n)
    have h : (readWith (Vocabulary.english folded) (read (Vocabulary.english folded) depth false) false
        ('[' :: (menuOf n ++ [']']))).result = .ok b := h
    rw [hsquare, hmenu] at h
    simp only [Outcome.done, Except.ok.injEq] at h
    rw [← h, insert_menuOf]

/-- Where no text looks like an argument, the `arguments` are the blocks. -/
theorem arguments_eq_map_blocks {ps : List Piece}
    (h : ∀ t, .text t ∈ ps → Bracket.leading? t = none) :
    Piece.arguments ps = (Piece.blocks ps).map Block.toPiece := by
  induction ps with
  | nil => rfl
  | cons p ps ih =>
    have hrest := ih fun t ht => h t (List.mem_cons_of_mem _ ht)
    rw [Piece.arguments] at hrest ⊢
    -- a text is left out on either side, a block is kept on either side
    cases p with
    | text t =>
      have ht : Piece.isArgument (.text t) = false := by
        rw [Piece.isArgument, h t List.mem_cons_self]
        rfl
      rw [List.filter_cons_of_neg (by simp [ht]), hrest, Piece.blocks]
    | block a qs =>
      rw [List.filter_cons_of_pos rfl, hrest, Piece.blocks]
      rfl

/-- A list block without overrides registers the name in its menu. -/
theorem list_mem_sightings {folded isLine : Bool} {depth : Nat} {code n : Text} {b : Block}
    (hread : (read (Vocabulary.english folded) (depth + 1) isLine code).result = .ok b)
    (hheader : (Vocabulary.english folded).header? n = none)
    (hlist : (form (Vocabulary.english folded) isLine code).listArgument? =
      some (Bracket.square.enclose (menuOf n))) :
    .list n ∈ (read (Vocabulary.english folded) (depth + 1) isLine code).sightings := by
  rw [read_succ_result] at hread
  rw [read_succ_sightings]
  cases hform : form (Vocabulary.english folded) isLine code with
  | whole b₀ =>
    rw [hform] at hlist
    cases hlist
  -- only a block without words has an argument that names a list
  | missing id =>
    rw [hform] at hlist
    cases hlist
  | block attrs words parts args =>
    rw [hform] at hread hlist
    cases words with
    | cons word words => cases hlist
    | nil =>
      simp only [Form.listArgument?, Option.bind_eq_bind, Option.bind_eq_some_iff] at hlist
      obtain ⟨id, hid, number, hnumber, hslot⟩ := hlist
      obtain ⟨ps, hps, hattrs, -, hpieces⟩ := finish_eq_ok hread
      have hfilled := fillSlots_eq_ok hps
      -- the menu is what the argument in the place of the list gives
      obtain ⟨menu, hplace, hnested⟩ := Lists.exists_getElem?_of_forall₂ hfilled.blocks hslot
      have hinsert := read_menuOf hheader hnested
      have harguments : Piece.arguments ps = (Piece.blocks ps).map Block.toPiece :=
        arguments_eq_map_blocks fun t ht =>
          leading?_of_mem_parts hform hid hnumber t (hfilled.texts t ht)
      -- and the block is one that takes the name from there
      have huse : listUse? b = some n := by
        have hattrs : b.attrs = attrs := hattrs
        rw [listUse?, hattrs, hid, hpieces rfl, harguments]
        simp only [Option.bind_eq_bind, Option.bind_some, hnumber, List.getElem?_map, hplace, hinsert,
          Option.map_some]
        rfl
      rw [Form.read, finish_sightings hread, if_pos rfl, huse]
      simp

end Fragment

end BlockScript
