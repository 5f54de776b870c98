import BlockScript.Proofs.Reading.Arguments
import BlockScript.Proofs.Reading.ListUse
import BlockScript.Proofs.Reading.Unclosed
import BlockScript.Proofs.Vocabulary.Specs

/-!
# The length of something

The block `length of _` is that of a list if its argument is a menu in square brackets, and that of a text
otherwise. This is asked twice. The category of the block is settled by the argument as it is written, with
both brackets and on one line. Whether the argument is a menu, and names a list, is settled when it is read:
it may lack its closing bracket and hold line breaks, but it may not read like the header of a defined block.

## Key results

- `Fragment.isSquareMenu_iff`: which arguments make it the length of a list
- `Fragment.shape_dropdown_iff`: which arguments are read as menus
- `Vocabulary.lengthOf_iff`: when the two agree
-/

namespace BlockScript

open Vocabulary (isSquareMenu)

/-- The `category` of a length is settled by its first argument. -/
private theorem Vocabulary.refine_lengthOf {v : Vocabulary} {arg : Text} {args : List Text} {a : Attrs}
    (h : (v.refine (arg :: args) a).id = some "length of _".toList) :
    (v.refine (arg :: args) a).category = some (if isSquareMenu arg then .list else .operators) := by
  rw [refine_eq] at h
  have hid : a.id = some "length of _".toList := h
  have hother : a.id ≠ some "_ of _".toList := by
    rw [hid]
    decide
  rw [refine, if_neg hother, if_pos hid]

namespace Fragment

/-! ## Menus in square brackets -/

/-- Whether an argument is in square brackets and says that it is a menu. -/
def IsMenu (arg : Text) : Prop :=
  Bracket.leading? arg = some .square ∧ endsInMenu (Bracket.strip arg) = true

/-- Whether an argument has its closing bracket, and is on one line. -/
def IsWhole (arg : Text) : Prop := arg.getLast? = some ']' ∧ '\n' ∉ arg

instance (arg : Text) : Decidable (IsMenu arg) := inferInstanceAs (Decidable (_ ∧ _))

instance (arg : Text) : Decidable (IsWhole arg) := inferInstanceAs (Decidable (_ ∧ _))

/-- A text that `endsInMenu` is a name with the sign for a menu behind it. -/
private theorem endsInMenu_iff {t : Text} : endsInMenu t = true ↔ ∃ name, t = menuOf name := by
  rw [endsInMenu, List.isSuffixOf_iff_suffix, List.IsSuffix]
  simp only [menuOf, eq_comm]

private theorem mem_enclose_menuOf {name : Text} :
    '\n' ∈ Bracket.square.enclose (menuOf name) ↔ '\n' ∈ name := by
  simp [Bracket.enclose, menuOf, Bracket.opener, Bracket.closer]

/-- The name of a list in a menu is told from a quoted text if there is no line end in it. -/
private theorem isSquareMenu_menuOf (name : Text) :
    isSquareMenu (Bracket.square.enclose (menuOf name)) = true ↔ '\n' ∉ name := by
  have hreverse : (menuOf name ++ [']']).reverse = ']' :: 'v' :: ' ' :: name.reverse := by
    simp [menuOf]
  have hwritten : Bracket.square.enclose (menuOf name) = '[' :: (menuOf name ++ [']']) := rfl
  rw [hwritten, isSquareMenu, hreverse]
  simp

/-- What `isSquareMenu` is a name in a menu. -/
private theorem exists_menuOf_of_isSquareMenu {arg : Text} (h : isSquareMenu arg = true) :
    ∃ name, arg = Bracket.square.enclose (menuOf name) := by
  unfold isSquareMenu at h
  split at h
  · rename_i rest
    split at h
    · -- the sign and the bracket are the last three characters
      rename_i middle hmiddle
      have hrest : rest = middle.reverse ++ [' ', 'v', ']'] := by
        rw [← List.reverse_reverse rest, hmiddle]
        simp
      refine ⟨middle.reverse, ?_⟩
      rw [hrest]
      simp [Bracket.enclose, menuOf, Bracket.opener, Bracket.closer]
    · cases h
  · cases h

/-- `isSquareMenu` sees a menu before it is read, and just one that has both brackets and is on one line. -/
theorem isSquareMenu_iff {arg : Text} : isSquareMenu arg = true ↔ IsMenu arg ∧ IsWhole arg := by
  constructor
  · intro h
    obtain ⟨name, rfl⟩ := exists_menuOf_of_isSquareMenu h
    -- a name in a menu ends with the sign, and its bracket is closed
    have hline := (isSquareMenu_menuOf name).1 h
    refine ⟨⟨rfl, ?_⟩, Bracket.getLast?_enclose _ _, ?_⟩
    · rw [Bracket.strip_enclose]
      exact endsInMenu_iff.2 ⟨name, rfl⟩
    · rwa [mem_enclose_menuOf]
  · rintro ⟨⟨hsquare, hmenu⟩, hclosed, hline⟩
    obtain ⟨name, hname⟩ := endsInMenu_iff.1 hmenu
    -- the closing bracket is not the opening one, for the sign stands between the two
    have hlength : 2 ≤ arg.length := by
      have hshorter := Bracket.length_strip_lt (by rw [hsquare]; rfl)
      have hsign : (menuOf name).length = name.length + 2 := by simp [menuOf]
      rw [hname, hsign] at hshorter
      omega
    have hends : Bracket.square.isClosed arg = true := by
      simp [Bracket.isClosed, hclosed, hlength, Bracket.closer]
    have harg := Bracket.eq_enclose_strip hsquare hends
    rw [hname] at harg
    subst harg
    rw [isSquareMenu_menuOf, ← mem_enclose_menuOf]
    exact hline

/-! ## Menus that are read -/

private theorem ofArgument_menuOf (name : Text) :
    Shape.ofArgument (some .square) (menuOf name) = .dropdown :=
  Option.some.inj (congrArg (·.attrs.shape) (insert_menuOf name))

/-- A dropdown is in square brackets, and ends in the sign for a menu. -/
private theorem ofArgument_eq_dropdown {bracket : Option Bracket} {t : Text}
    (h : Shape.ofArgument bracket t = .dropdown) : bracket = some .square ∧ endsInMenu t = true := by
  unfold Shape.ofArgument at h
  -- by the kind of bracket; only round and square ones can hold a menu
  split at h
  · split at h
    · cases h
    · split at h <;> cases h
  · split at h
    · cases h
    · split at h
      · exact ⟨rfl, ‹_›⟩
      · cases h
  · cases h
  · cases h

/-- A menu in square brackets is an insert with its name, whether it has its closing bracket or not. -/
private theorem form_of_isMenu {v : Vocabulary} {arg name : Text}
    (hsquare : Bracket.leading? arg = some .square)
    (hname : Bracket.strip arg = menuOf name) (hheader : v.header? (menuOf name) = none) :
    form v false arg = .whole ⟨{ shape := some .dropdown }, [.text name]⟩ := by
  have hinsert : insertShape? (outerBracket false arg) (tokenize v.signRule (menuOf name)).texts
      (menuOf name) = some .dropdown := by
    have hbracket : outerBracket false arg = some .square := hsquare
    rw [insertShape?, hbracket, if_neg fun h => h.2 rfl, ofArgument_menuOf]
    rfl
  have hblock := insert_menuOf name
  rw [ofArgument_menuOf] at hblock
  simp only [form, hname, Bool.false_eq_true, if_false, hheader, hinsert, hblock]

/-- An argument is read as a dropdown just if it `IsMenu` and reads like no header. -/
theorem shape_dropdown_iff {v : Vocabulary} {depth : Nat} {arg : Text} {c : Block}
    (h : (read v depth false arg).result = .ok c) :
    c.attrs.shape = some .dropdown ↔ IsMenu arg ∧ v.header? (Bracket.strip arg) = none := by
  cases depth with
  | zero => cases h
  | succ depth =>
    constructor
    · intro hshape
      obtain hform | ⟨attrs, words, parts, args, hform, hfinish⟩ := read_succ_eq_ok h
      · obtain ⟨inner, pieces, rfl, ⟨word, -, rfl⟩ | ⟨hheader, shape, hinsert, rfl⟩⟩ := form_eq_whole hform
        · cases hshape
        · -- an insert has the shape that its brackets and its text tell
          cases hshape
          obtain ⟨hsquare, hmenu⟩ := ofArgument_eq_dropdown (eq_ofArgument_of_insertShape? hinsert).symm
          exact ⟨⟨hsquare, hmenu⟩, hheader⟩
      · -- no block is a menu, not even with overrides
        obtain ⟨ps, -, hattrs, -⟩ := finish_eq_ok hfinish
        rw [hattrs] at hshape
        exact absurd (shape_mem_of_block hform _ hshape) (by decide)
    · rintro ⟨⟨hsquare, hmenu⟩, hheader⟩
      obtain ⟨name, hname⟩ := endsInMenu_iff.1 hmenu
      rw [hname] at hheader
      rw [read_succ_result, form_of_isMenu hsquare hname hheader] at h
      cases h
      rfl

/-! ## The block -/

theorem lengthOf_number : Dictionary.get? "length of _".toList listArguments = some 0 := by
  decide

/-- The length of something is found by its name, whatever it is the length of. -/
private theorem english_find?_lengthOf (folded : Bool) (args : List Text) :
    ∃ f, (Vocabulary.english folded).find? "length of _".toList args = .ok (some f) ∧
      f.attrs.id = some "length of _".toList ∧ f.attrs.flag = none := by
  have hgroup : (Category.list, listEntries) ∈ palette := by simp [palette]
  have he : Entry.plain "length of _" ∈ listEntries := by simp [listEntries]
  obtain ⟨f, hfind, hid, hflag, -⟩ :=
    @Vocabulary.english_find?_spec folded _ _ hgroup he (by decide) args
  have hpadded : Text.padSlots (Entry.plain "length of _").spec = "length of _".toList := by decide
  rw [hpadded] at hfind
  exact ⟨f, hfind, hid, hflag⟩

/-- The length is that of a list if a menu is seen in its place, and that of a text otherwise. It is no
    reporter with a name, and there is one slot in it. -/
private theorem identify_lengthOf {folded : Bool} {spec arg : Text} {args : List Text} {shape : Shape}
    {f : Found}
    (h : identify (Vocabulary.english folded) spec (arg :: args) shape = .ok f)
    (hid : f.attrs.id = some "length of _".toList) :
    f.attrs.category = some (if isSquareMenu arg then .list else .operators) ∧ f.attrs.namedAs = none ∧
      spec.count '_' ≤ 1 := by
  unfold identify at h
  split at h
  · cases h
  · -- an unknown block would be named by its spec, but this spec is known
    rename_i hfind
    cases h
    obtain rfl : spec = "length of _".toList := Option.some.inj hid
    obtain ⟨f, hf, -⟩ := english_find?_lengthOf folded (arg :: args)
    rw [if_neg (by decide), hf] at hfind
    cases hfind
  · rename_i known text hfind
    cases h
    split at hfind
    · cases hfind
    · have hname : known.id = some "length of _".toList := hid
      -- a known block waits under no name
      obtain ⟨-, -, hnamed, -⟩ := Vocabulary.find?_attrs hfind
      refine ⟨?_, hnamed, ?_⟩
      · obtain ⟨id, lang, -, hattrs, -⟩ := Vocabulary.find?_eq_ok hfind
        have hrefined : known = _ := hattrs
        show known.category = _
        rw [hrefined] at hname ⊢
        exact Vocabulary.refine_lengthOf hname
      · -- a slot is kept in the key, and this is the key of the name
        obtain ⟨-, halias, -⟩ := listArguments_plain lengthOf_number folded
        obtain ⟨hkey, -⟩ := Vocabulary.english_find?_eq_ok hfind hname halias
        calc spec.count '_' ≤ (Text.key folded spec).count '_' := Text.count_le_key folded (by decide) spec
          _ = 1 := by
            rw [hkey]
            cases folded <;> decide

/-- What is known of a length that is read: it has one argument, and what is nested in it is what this gives.
    The category is settled by what is seen of the argument, and the list that it names by what it gives. -/
structure IsLength (v : Vocabulary) (isLine : Bool) (code : Text) (b : Block) (arg : Text) (c : Block) :
    Prop where
  argument : argumentsIn v isLine code = [arg]
  nested : b.arguments = [c]
  read : (v.readFragment false arg).result = .ok c
  category : b.attrs.category = some (if isSquareMenu arg then .list else .operators)
  sightings : (v.readFragment isLine code).sightings =
    (v.readFragment false arg).sightings ++ (listName? b.attrs.category c.toPiece).toList.map .list

/-- A block with one argument names the list that this gives, if that is where its list is named. -/
private theorem listUse?_of_singleton {b c : Block} {id : Text} (hid : b.attrs.id = some id)
    (hnumber : Dictionary.get? id listArguments = some 0) (hnested : b.arguments = [c])
    (htexts : ∀ t, .text t ∈ b.pieces → Bracket.leading? t = none) :
    listUse? b = listName? b.attrs.category c.toPiece := by
  have harguments : Piece.arguments b.pieces = [c.toPiece] := by
    rw [arguments_eq_map_blocks htexts, ← Block.arguments, hnested, List.map_singleton]
  rw [listUse?, hid, harguments]
  simp only [Option.bind_eq_bind, Option.bind_some, hnumber, List.getElem?_cons_zero]

/-- A fragment of this spec is one, if it is not nested too deeply. -/
private theorem exists_read_lengthOf {folded isLine : Bool} {code : Text}
    (hblock : IsBlock (Vocabulary.english folded) isLine code)
    (hspec : Override.split (specOf (piecesIn (Vocabulary.english folded) isLine code)) =
      ("length of _".toList, []))
    (hdeep : ((Vocabulary.english folded).readFragment isLine code).result ≠ .error .tooDeep) :
    ∃ b, ((Vocabulary.english folded).readFragment isLine code).result = .ok b ∧
      b.attrs.id = some "length of _".toList := by
  obtain ⟨b, hb⟩ := exists_read (Vocabulary.english_drawable folded) hdeep
  obtain ⟨f, hfind, hid, hflag⟩ :=
    english_find?_lengthOf folded (argumentsIn (Vocabulary.english folded) isLine code)
  have hidentify := identify_of_find? (by decide) hfind (by simp [hflag])
    (placeShape (Vocabulary.english folded) isLine code)
  have hform := hblock.form_eq
  rw [hspec, hidentify] at hform
  -- what has been read has the attributes that its form says
  have hattrs := attrs?_of_readFragment hb
  rw [hform, Form.attrs?, Option.some_inj] at hattrs
  refine ⟨b, hb, ?_⟩
  rw [← hattrs]
  exact hid

section

variable {folded isLine : Bool} {code : Text} {b : Block}
  (hread : ((Vocabulary.english folded).readFragment isLine code).result = .ok b)
  (hid : b.attrs.id = some "length of _".toList)
  (hplain : (Override.split (specOf (piecesIn (Vocabulary.english folded) isLine code))).2 = [])
  (hargs : argumentsIn (Vocabulary.english folded) isLine code ≠ [])

include hread hid hplain hargs

/-- A length that has no overrides, but an argument, is a block with a slot for this one argument. -/
private theorem form_lengthOf :
    ∃ arg parts, argumentsIn (Vocabulary.english folded) isLine code = [arg] ∧
      form (Vocabulary.english folded) isLine code = .block b.attrs [] parts [arg] ∧
      1 ≤ parts.count ['_'] ∧ b.attrs.namedAs = none ∧
      b.attrs.category = some (if isSquareMenu arg then .list else .operators) := by
  have hblock : IsBlock (Vocabulary.english folded) isLine code := isBlock_of_id hread (by simp [hid])
  obtain ⟨attrs, text, hidentify, hform⟩ := hblock.exists_form (Vocabulary.english_drawable folded)
  -- there are no overrides, so the attributes are those that are identified
  have hattrs : b.attrs = attrs := by
    have hresult := attrs?_of_readFragment hread
    rw [hform, hplain] at hresult
    exact (Option.some.inj hresult).symm
  subst hattrs
  obtain ⟨arg, rest, hfirst⟩ := List.exists_cons_of_ne_nil hargs
  rw [hfirst] at hidentify
  obtain ⟨hcategory, hnamed, hcount⟩ := identify_lengthOf hidentify hid
  -- there is one slot in the spec, so there cannot be a second argument
  have hlone : argumentsIn (Vocabulary.english folded) isLine code = [arg] := by
    have hlength := length_argumentsOf_le (piecesIn (Vocabulary.english folded) isLine code)
    rw [← Override.count_split, ← argumentsIn, hfirst, List.length_cons] at hlength
    rw [hfirst, List.eq_nil_of_length_eq_zero (by omega : rest.length = 0)]
  rw [hplain, hlone] at hform
  refine ⟨arg, _, hlone, hform, ?_, hnamed, hcategory⟩
  rw [Lexicon.english_eq_ofPacks] at hform
  exact length_le_of_block (List.forall_mem_singleton.2 englishPack_keepsSlots) hform

/-- A fragment of this spec with one argument is as `IsLength` describes. -/
theorem exists_isLength : ∃ arg c, IsLength (Vocabulary.english folded) isLine code b arg c := by
  obtain ⟨arg, parts, hlone, hform, hslots, hnamed, hcategory⟩ := form_lengthOf hread hid hplain hargs
  have hresult := hread
  rw [readFragment_result, hform] at hresult
  obtain ⟨ps, hps, -, -, hpieces⟩ := finish_eq_ok hresult
  have hfilled := fillSlots_eq_ok hps
  -- the argument fills the slot, and no ring is drawn around it
  have hnested := hfilled.blocks
  rw [List.take_of_length_le hslots, ← hpieces rfl, ← Block.arguments, List.forall₂_cons_left_iff] at hnested
  obtain ⟨c, later, hc, hlater, hnested⟩ := hnested
  obtain rfl := List.forall₂_nil_left_iff.1 hlater
  have hsame := readFragment_eq_of_ok hc
  refine ⟨arg, c, hlone, hnested, ?_, hcategory, ?_⟩
  · rw [hsame]
    exact hc
  · -- the list is looked for in the place of the argument
    have huse : listUse? b = listName? b.attrs.category c.toPiece := by
      refine listUse?_of_singleton hid lengthOf_number hnested fun t ht => ?_
      rw [hpieces rfl] at ht
      exact leading?_of_mem_parts hform hid lengthOf_number t (hfilled.texts t ht)
    -- a known block sights nothing by itself
    have hown : ownSighting b.attrs = [] := by
      rw [ownSighting, hnamed]
    rw [hsame, readFragment_sightings, hform, Form.read,
      finish_sightings hresult, hown, hfilled.sightings, List.take_of_length_le hslots,
      List.flatMap_singleton, if_pos rfl, huse, List.nil_append]

end

/-- So `IsLength` describes a fragment of this spec with one argument, if it is not nested too deeply. -/
theorem exists_isLength_of_spec {folded isLine : Bool} {code arg : Text}
    (hblock : IsBlock (Vocabulary.english folded) isLine code)
    (hspec : Override.split (specOf (piecesIn (Vocabulary.english folded) isLine code)) =
      ("length of _".toList, []))
    (harg : argumentsIn (Vocabulary.english folded) isLine code = [arg])
    (hdeep : ((Vocabulary.english folded).readFragment isLine code).result ≠ .error .tooDeep) :
    ∃ b c, ((Vocabulary.english folded).readFragment isLine code).result = .ok b ∧
      b.attrs.id = some "length of _".toList ∧ IsLength (Vocabulary.english folded) isLine code b arg c := by
  obtain ⟨b, hb, hid⟩ := exists_read_lengthOf hblock hspec hdeep
  obtain ⟨arg', c, h⟩ := exists_isLength hb hid (congrArg Prod.snd hspec) (by simp [harg])
  obtain rfl : arg = arg' := List.singleton_inj.1 (harg.symm.trans h.argument)
  exact ⟨b, c, hb, hid, h⟩

/-! ## The list -/

/-- An argument that is read as a menu holds the name in front of the sign. -/
private theorem eq_of_shape_dropdown {v : Vocabulary} {depth : Nat} {arg name : Text} {c : Block}
    (h : (read v depth false arg).result = .ok c) (hshape : c.attrs.shape = some .dropdown)
    (hname : Bracket.strip arg = menuOf name) : c = ⟨{ shape := some .dropdown }, [.text name]⟩ := by
  obtain ⟨⟨hsquare, -⟩, hheader⟩ := (shape_dropdown_iff h).1 hshape
  rw [hname] at hheader
  cases depth with
  | zero => cases h
  | succ depth =>
    rw [read_succ_result, form_of_isMenu hsquare hname hheader] at h
    cases h
    rfl

/-- No menu in square brackets is read as a text. -/
private theorem shape_ne_string_of_isMenu {v : Vocabulary} {depth : Nat} {arg : Text} {c : Block}
    (h : (read v depth false arg).result = .ok c) (hmenu : IsMenu arg) : c.attrs.shape ≠ some .string := by
  cases hheader : v.header? (Bracket.strip arg) with
  | none =>
    rw [(shape_dropdown_iff h).2 ⟨hmenu, hheader⟩]
    decide
  | some word =>
    cases depth with
    | zero => cases h
    | succ depth =>
      rw [read_succ_result, form_of_header hheader] at h
      cases h
      exact (by decide : some Shape.defineHat ≠ some .string)

/-- An argument that names a list is a dropdown, or in the category of lists a string. -/
private theorem shape_of_listName? {category : Option Category} {c : Block} {name : Text}
    (h : listName? category c.toPiece = some name) :
    c.attrs.shape = some .dropdown ∨ c.attrs.shape = some .string ∧ category = some .list := by
  obtain ⟨a, ps⟩ := c
  cases ps with
  | nil => cases h
  | cons p ps =>
    cases p with
    | block a' qs => cases h
    | text t =>
      simp only [Block.toPiece, listName?, Option.ite_none_right_eq_some] at h
      exact h.1

/-- The `listName?` of a length is the name in the menu that its argument is read as. -/
theorem listName?_lengthOf {v : Vocabulary} {isLine : Bool} {code arg : Text} {b c : Block}
    (h : IsLength v isLine code b arg c) (name : Text) :
    listName? b.attrs.category c.toPiece = some name ↔
      c.attrs.shape = some .dropdown ∧ Bracket.strip arg = menuOf name := by
  constructor
  · intro hname
    have hshape : c.attrs.shape = some .dropdown := by
      apply (shape_of_listName? hname).resolve_right
      rintro ⟨hstring, hcategory⟩
      -- only a menu makes it the length of a list
      rw [h.category, Option.some_inj] at hcategory
      split at hcategory
      · rename_i hseen
        exact shape_ne_string_of_isMenu h.read (isSquareMenu_iff.1 hseen).1 hstring
      · cases hcategory
    -- a dropdown gives the name in front of the sign
    obtain ⟨⟨-, hmenu⟩, -⟩ := (shape_dropdown_iff h.read).1 hshape
    obtain ⟨name', hname'⟩ := endsInMenu_iff.1 hmenu
    rw [eq_of_shape_dropdown h.read hshape hname'] at hname
    cases hname
    exact ⟨hshape, hname'⟩
  · rintro ⟨hshape, hname⟩
    rw [eq_of_shape_dropdown h.read hshape hname]
    rfl

/-- A list that is named is sighted. -/
theorem list_mem_of_isLength {v : Vocabulary} {isLine : Bool} {code arg name : Text} {b c : Block}
    (h : IsLength v isLine code b arg c) (hshape : c.attrs.shape = some .dropdown)
    (hname : Bracket.strip arg = menuOf name) : .list name ∈ (v.readFragment isLine code).sightings := by
  rw [h.sightings, (listName?_lengthOf h name).2 ⟨hshape, hname⟩]
  simp

end Fragment

namespace Vocabulary

open Fragment

/-- The category of a length is settled by its argument as it is written, and the `listName?` of it by what
    the argument is read as. The two come to the same for what is not `IsMenu`. For a menu they agree just if
    it `IsWhole` and reads like no header, or is not whole and reads like one. And the length names a list
    without being in the category of lists just if its argument is a menu that is not whole, and reads like no
    header. -/
theorem lengthOf_iff {folded isLine : Bool} {code : Text} {b : Block}
    (hread : ((english folded).readFragment isLine code).result = .ok b)
    (hid : b.attrs.id = some "length of _".toList)
    (hplain : (Override.split (specOf (piecesIn (english folded) isLine code))).2 = [])
    (hargs : argumentsIn (english folded) isLine code ≠ []) :
    ∃ arg c, IsLength (english folded) isLine code b arg c ∧
      (b.attrs.category = some .list ↔ IsMenu arg ∧ IsWhole arg) ∧
      (c.attrs.shape = some .dropdown ↔ IsMenu arg ∧ (english folded).header? (Bracket.strip arg) = none) ∧
      (∀ name, listName? b.attrs.category c.toPiece = some name ↔
        c.attrs.shape = some .dropdown ∧ Bracket.strip arg = menuOf name) ∧
      ((b.attrs.category = some .list ↔ c.attrs.shape = some .dropdown) ↔
        (IsMenu arg → (IsWhole arg ↔ (english folded).header? (Bracket.strip arg) = none))) ∧
      (((listName? b.attrs.category c.toPiece).isSome = true → b.attrs.category = some .list) ↔
        (IsMenu arg → (english folded).header? (Bracket.strip arg) = none → IsWhole arg)) := by
  obtain ⟨arg, c, h⟩ := exists_isLength hread hid hplain hargs
  -- the category is settled by the argument as text, the shape by the block that it is read as
  have hcategory : b.attrs.category = some .list ↔ IsMenu arg ∧ IsWhole arg := by
    rw [h.category, ← isSquareMenu_iff]
    split <;> simp [*]
  have hshape := shape_dropdown_iff h.read
  have hname := listName?_lengthOf h
  refine ⟨arg, c, h, hcategory, hshape, hname, ?_, ?_⟩
  · rw [hcategory, hshape]
    exact and_congr_right_iff
  · -- a dropdown has the sign of a menu at its end, so there is a name in front of it
    have hsome : (listName? b.attrs.category c.toPiece).isSome = true ↔ c.attrs.shape = some .dropdown := by
      rw [Option.isSome_iff_exists]
      simp only [hname, exists_and_left, and_iff_left_iff_imp]
      exact fun hdropdown => endsInMenu_iff.1 (hshape.1 hdropdown).1.2
    rw [hsome, hcategory, hshape, and_imp]
    exact forall₂_congr fun hmenu _ => and_iff_right hmenu

/-- The length of a list, in a line of its own. -/
theorem lengthOf_closed_menu :
    ∃ b c, ((english true).readFragment true "length of [foo v]".toList).result = .ok b ∧
      b.attrs.id = some "length of _".toList ∧
      (Override.split (specOf (piecesIn (english true) true "length of [foo v]".toList))).2 = [] ∧
      argumentsIn (english true) true "length of [foo v]".toList ≠ [] ∧
      b.arguments = [c] ∧ b.attrs.category = some .list ∧ c.attrs.shape = some .dropdown ∧
      .list "foo".toList ∈ ((english true).readFragment true "length of [foo v]".toList).sightings := by
  have hspec : Override.split (specOf (piecesIn (english true) true "length of [foo v]".toList)) =
      ("length of _".toList, []) := by
    decide
  have hargs : argumentsIn (english true) true "length of [foo v]".toList = ["[foo v]".toList] := by
    decide
  have hfilled : argumentsIn (english true) true "length of [foo v]".toList ≠ [] := by
    rw [hargs]
    decide
  have hplain := congrArg Prod.snd hspec
  -- neither the line nor the text in the menu is a header
  have hunheaded : (english true).header? "length of [foo v]".toList = none :=
    @english_header?_eq_none true _ 'l' (by decide) (by decide) (by decide)
  have hheader : (english true).header? "foo v".toList = none :=
    @english_header?_eq_none true _ 'o' (by decide) (by decide) (by decide)
  obtain ⟨b, hb, hid⟩ := exists_read_lengthOf (isBlock_of_line hunheaded) hspec (read_ne_tooDeep (by decide))
  obtain ⟨arg, c, h, hcategory, hshape, -⟩ := lengthOf_iff hb hid hplain hfilled
  obtain rfl : "[foo v]".toList = arg := List.singleton_inj.1 (hargs.symm.trans h.argument)
  have hdropdown : c.attrs.shape = some .dropdown := hshape.2 ⟨by decide, hheader⟩
  exact ⟨b, c, hb, hid, hplain, hfilled, h.nested, hcategory.2 ⟨by decide, by decide⟩, hdropdown,
    list_mem_of_isLength h hdropdown rfl⟩

/-- Without the closing bracket it is not the length of a list, but names one. -/
theorem lengthOf_unclosed_menu :
    ∃ b c, ((english true).readFragment true "length of [foo v".toList).result = .ok b ∧
      b.attrs.id = some "length of _".toList ∧
      (Override.split (specOf (piecesIn (english true) true "length of [foo v".toList))).2 = [] ∧
      b.arguments = [c] ∧ b.attrs.category ≠ some .list ∧ c.attrs.shape = some .dropdown ∧
      .list "foo".toList ∈ ((english true).readFragment true "length of [foo v".toList).sightings := by
  have hspec : Override.split (specOf (piecesIn (english true) true "length of [foo v".toList)) =
      ("length of _".toList, []) := by
    decide
  have hargs : argumentsIn (english true) true "length of [foo v".toList = ["[foo v".toList] := by
    decide
  have hunheaded : (english true).header? "length of [foo v".toList = none :=
    @english_header?_eq_none true _ 'l' (by decide) (by decide) (by decide)
  obtain ⟨b, c, hb, hid, h⟩ :=
    exists_isLength_of_spec (isBlock_of_line hunheaded) hspec hargs (read_ne_tooDeep (by decide))
  -- what is in the brackets starts with no header word, so it is an insert
  have hheader : (english true).header? "foo v".toList = none :=
    @english_header?_eq_none true _ 'o' (by decide) (by decide) (by decide)
  have hshape : c.attrs.shape = some .dropdown := (shape_dropdown_iff h.read).2 ⟨by decide, hheader⟩
  refine ⟨b, c, hb, hid, congrArg Prod.snd hspec, h.nested, ?_, hshape, list_mem_of_isLength h hshape rfl⟩
  rw [h.category]
  decide

end Vocabulary

end BlockScript
