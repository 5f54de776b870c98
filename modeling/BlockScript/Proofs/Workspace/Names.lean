import BlockScript.Proofs.Reading.ListUse
import BlockScript.Proofs.Reading.Name
import BlockScript.Proofs.Workspace.Origins

/-!
# Names as they are written

A parameter and a list are registered under their names as they stand in brackets, a reporter under its
padded spec. A reporter goes with its parameter or its list just if padding leaves the name alone, unless
the padded name happens to be another name of the same kind.

## Key results

- `Vocabulary.name_category`: the category of a reporter with a name, in the end
- `Vocabulary.name_category_iff`: when a reporter goes with the parameter or the list of its name
- `Vocabulary.padded_name_lost`: a name with an underscore in a word
-/

namespace BlockScript

namespace Vocabulary

/-! ## What is sighted in a text -/

/-- What is sighted in a text when it is parsed is what `readLine` sights in its lines, one after the
    other. -/
theorem parse_sightings {v : Vocabulary} {text : Text} {w : Workspace} (h : v.parse text = .ok w) :
    w.session.sightings = (Text.writtenLines text).flatMap fun line => (v.readLine line).sightings := by
  obtain ⟨w₀, hlayOut, rfl⟩ := parse_ok h
  obtain ⟨-, hsightings, -⟩ := layOut_ok hlayOut
  exact hsightings

/-- Written lines have no blanks at their ends. -/
private theorem trim_of_mem_writtenLines {text line : Text} (h : line ∈ Text.writtenLines text) :
    Text.trim line = line := by
  obtain ⟨hline, -⟩ := List.mem_filter.1 h
  obtain ⟨line, -, rfl⟩ := List.mem_map.1 hline
  exact Text.trim_trim line

/-- A parameter is registered under the name in its header. -/
private theorem mem_parameters {folded : Bool} {text n : Text} {w : Workspace}
    (h : (english folded).parse text = .ok w) (hn : IsPhrase n)
    (hline : Line.headerOf n ∈ Text.writtenLines text) : n ∈ w.session.parameters := by
  obtain ⟨_, _, -, hsightings⟩ :=
    Line.readLine_headerOf folded hn (trim_of_mem_writtenLines hline)
  rw [Session.parameters, parse_sightings h, List.mem_filterMap]
  refine ⟨.parameter n, List.mem_flatMap.2 ⟨_, hline, ?_⟩, rfl⟩
  rw [hsightings]
  simp

/-- Whether a text has a list block without overrides that has a menu with the given name in the place of
    its list. -/
def UsesList (v : Vocabulary) (text n : Text) : Prop :=
  ∃ line ∈ Text.writtenLines text, ∃ isLine code directive,
    ⟨.fragment isLine code, directive⟩ ∈ v.lineOrigins line ∧
      (Fragment.form v isLine code).listArgument? = some (Bracket.square.enclose (Fragment.menuOf n))

/-- A list is registered under the name in the menu of a list block. -/
private theorem mem_lists {folded : Bool} {text n : Text} {w : Workspace}
    (h : (english folded).parse text = .ok w) (hn : IsName (english folded) n)
    (hlist : UsesList (english folded) text n) : n ∈ w.session.lists := by
  obtain ⟨line, hline, isLine, code, directive, horigin, hargument⟩ := hlist
  obtain ⟨depth, b, hread, hsightings⟩ := exists_read_of_mem_lineOrigins horigin rfl
  have hheader := ((Fragment.isName_iff hn.toIsPhrase).1 hn).1
  have hmem := hsightings _ (Fragment.list_mem_sightings hread hheader hargument) rfl
  rw [Session.lists, parse_sightings h, List.mem_filterMap]
  exact ⟨.list n, List.mem_flatMap.2 ⟨line, hline, hmem⟩, rfl⟩

/-! ## What a reporter goes with -/

/-- The reporter with the given name. -/
def reporterOf (n : Text) : Origin := ⟨.fragment false (Bracket.round.enclose n), none⟩

/-- A reporter for which `IsName` holds is a list if there is one with the padded name, and else a parameter
    if there is one with the padded name. -/
theorem name_category {v : Vocabulary} {n : Text} {s : Session} {a a' : Attrs} (hn : IsName v n)
    (hgives : (reporterOf n).Gives v a) (hends : a.Ends s a') :
    a'.category =
      if Text.padSlots n ∈ s.lists then some .list
      else if Text.padSlots n ∈ s.parameters then some .customArg
      else some .vars := by
  -- the fragment has the form of an unknown reporter, and there are no overrides
  obtain ⟨a₀, ha₀, ha⟩ := hgives.attrs (by simp [reporterOf])
  have hform := Fragment.form_of_isName hn
  simp only [Origin.attrs?, reporterOf, hform, Fragment.Form.attrs?, Override.applyAll, List.map_nil,
    List.foldl_nil, Option.map_some, Option.none_or, ite_self, Option.some.injEq] at ha₀
  subst ha₀
  -- a reporter that is not known waits among the variables
  have hflag : a.flag = none := by rw [ha]; rfl
  have hcategory : a.category = some .vars := by rw [ha]; rfl
  have hnamed : a.namedAs = some (Text.padSlots n) := by rw [ha]; rfl
  rw [hends.unlessEnder (by simp [hflag]) (by simp [hflag])]
  simp only [Session.resolvedCategory, hcategory, hnamed, Option.any_some, List.contains_iff_mem,
    true_and, Option.some.injEq, reduceCtorEq, false_and, if_false]

end Vocabulary

/-! ## Uses of a name -/

namespace Line

/-- A line in which an unknown block is given a reporter. -/
def useOf (n : Text) : Text := "bar ".toList ++ Bracket.round.enclose n

/-- The line is no header: with folding or without, the English word starts with another letter. -/
private theorem header?_useOf (folded : Bool) (n : Text) :
    (Vocabulary.english folded).header? (useOf n) = none := by
  -- the first letter of the line is not one of the word
  have hb : 'b' ∈ (useOf n).take "define".toList.length := List.mem_cons_self
  have hnot : 'b' ∉ Text.key folded "define".toList := by
    cases folded <;> decide +kernel
  rw [Vocabulary.header?, Vocabulary.english_headerWords, List.find?_eq_none]
  intro word hword
  obtain rfl := List.mem_singleton.1 hword
  simp only [Vocabulary.key, Vocabulary.english_folded, Bool.and_eq_true, beq_iff_eq]
  rintro ⟨-, hkey⟩
  exact hnot (hkey ▸ Text.mem_key_of_mem folded (by decide) hb)

/-- The line is taken for a block with one slot, if this is not the spec of a known one. -/
private theorem form_useOf {folded : Bool} {n : Text} (hn : IsPhrase n)
    (hindex : Dictionary.get? ((Vocabulary.english folded).key "bar _".toList)
      (Vocabulary.english folded).index = none) :
    Fragment.form (Vocabulary.english folded) true (useOf n) =
      .block (Fragment.unknownAttrs "bar _".toList .stack) [] ["bar ".toList, ['_']]
        [Bracket.round.enclose n] := by
  have hheader := header?_useOf folded n
  generalize Vocabulary.english folded = v at hheader hindex ⊢
  have hplain : ∀ c ∈ "bar ".toList, Bracket.isPlain c = true :=
    List.all_eq_true.1 (by decide +kernel)
  have htwo := tokenize_plain_argument v.signRule (s := "bar ".toList) (by decide) hplain hn.plain
  have htokens : (tokenize v.signRule (useOf n)).texts = ["bar ".toList, Bracket.round.enclose n] :=
    congrArg Tokens.texts htwo
  have hright : Text.trimRight (Bracket.round.enclose n) = Bracket.round.enclose n := by
    simp [Text.trimRight, Bracket.enclose, Bracket.closer, Text.isBlank]
  -- there is nothing to override in the spec
  have hspec : Override.split (Fragment.specOf ["bar ".toList, Bracket.round.enclose n]) =
      ("bar _".toList, []) := by
    have hslot : Fragment.specOf ["bar ".toList, Bracket.round.enclose n] = "bar _".toList := rfl
    rw [hslot]
    decide +kernel
  have hparts : Fragment.partsAt (Fragment.isMark (some "bar _".toList == some "_ + _".toList))
      "bar _".toList = ["bar ".toList, ['_']] := by
    decide +kernel
  -- and no block of the index has it
  have hidentify := Fragment.identify_of_index_eq_none hindex [Bracket.round.enclose n] .stack
  rw [Fragment.form_of_tokens hheader htokens rfl hright rfl hspec hidentify, ← hparts]
  rfl

/-- The line gives an unknown block and the reporter in it, and sights both. -/
private theorem readLine_useOf {folded : Bool} {n : Text} (hn : IsName (Vocabulary.english folded) n)
    (htrim : Text.trim (useOf n) = useOf n)
    (hlist : Dictionary.get? (Text.padSlots n) Fragment.listArguments = none)
    (hindex : Dictionary.get? ((Vocabulary.english folded).key "bar _".toList)
      (Vocabulary.english folded).index = none) :
    (∃ b key, ((Vocabulary.english folded).readLine (useOf n)).result = .ok b ∧
      ((Vocabulary.english folded).readLine (useOf n)).sightings =
        [.reporter (Text.padSlots n) (some .vars), .call key]) ∧
      (Vocabulary.english folded).lineOrigins (useOf n) =
        [⟨.fragment true (useOf n), none⟩, Vocabulary.reporterOf n] := by
  have hform := form_useOf hn.toIsPhrase hindex
  -- that the block is unknown is all that has to be known of the vocabulary
  generalize Vocabulary.english folded = v at hn hform ⊢
  obtain ⟨b, hb, hreporter⟩ := Fragment.readArgument_of_isName hn hlist
  obtain ⟨hread, hsightings⟩ := Fragment.readFragment_of_form hform (by decide) hb
  -- an unknown block uses no list
  have huse : Fragment.listUse? ⟨Fragment.unknownAttrs "bar _".toList .stack,
      [.text "bar ".toList, b.toPiece]⟩ = none := by
    have hbar : Dictionary.get? "bar _".toList Fragment.listArguments = none := by decide +kernel
    simp only [Fragment.listUse?, Fragment.unknownAttrs, Option.bind_eq_bind, Option.bind_some, hbar,
      Option.bind_none]
  rw [hreporter, huse] at hsightings
  -- no comment starts in the line: neither the words nor a name have two slashes
  have hslash : ¬ "//".toList <:+: "bar ".toList := by decide +kernel
  have hsplit : splitComment [] (useOf n) = none :=
    splitComment_eq_none (not_isInfix_append_enclose .round hslash hn.unslashed) []
  have hline := (readLine_eq_withComment (v := v) htrim hsplit rfl).1
  refine ⟨?_, ?_⟩
  · rw [hline, withComment, hread, hsightings]
    exact ⟨_, _, rfl, rfl⟩
  · rw [(lineOrigins_eq_origins htrim hsplit rfl hread).2]
    obtain ⟨depth, hdepth⟩ := Nat.exists_eq_add_of_le' Fragment.two_le_nestingLimit
    have hreporter : Fragment.origins v (depth + 1) false (Bracket.round.enclose n) =
        [Vocabulary.reporterOf n] := by
      rw [Fragment.origins, Fragment.form_of_isName hn]
      simp [Fragment.Form.slotted, Vocabulary.reporterOf]
    rw [hdepth, Fragment.origins, hform]
    exact congrArg _ ((List.append_nil _).trans hreporter)

end Line

namespace Vocabulary

/-- A text that consists of some line and `useOf` a name is parsed, and the reporter is behind the attributes
    of the second block. -/
theorem parse_useOf {folded : Bool} {text line n : Text} (hn : IsName (english folded) n)
    (hlist : Dictionary.get? (Text.padSlots n) Fragment.listArguments = none)
    (hindex : Dictionary.get? ((english folded).key "bar _".toList) (english folded).index = none)
    (hlines : Text.writtenLines text = [line, Line.useOf n])
    (hline : ∃ b, (english folded).lineBlock line = .ok b) :
    ∃ w b a key, (english folded).parse text = .ok w ∧
      w.session.sightings = ((english folded).readLine line).sightings ++
        [.reporter (Text.padSlots n) (some .vars), .call key] ∧
      (Line.useOf n, b) ∈ (Text.writtenLines text).zip
        ((w.scripts.flatMap Script.blocks).filter fun b => !b.isImplied) ∧
      (reporterOf n, a) ∈ ((english folded).lineOrigins (Line.useOf n)).zip b.allAttrs := by
  have hmem : Line.useOf n ∈ Text.writtenLines text := by
    rw [hlines]
    exact List.mem_cons_of_mem _ (List.mem_singleton_self _)
  have htrim := trim_of_mem_writtenLines hmem
  obtain ⟨⟨_, key, huse, hsighted⟩, horigins⟩ := Line.readLine_useOf hn htrim hlist hindex
  -- a text is parsed if all of its lines are
  obtain ⟨w, hw⟩ : ∃ w, (english folded).parse text = .ok w := by
    refine exists_parse ?_
    simp only [hlines, List.forall_mem_cons, List.not_mem_nil, false_imp_iff, implies_true, and_true]
    exact ⟨hline, ⟨_, lineBlock_of_readLine huse⟩⟩
  have hsightings := parse_sightings hw
  rw [hlines, List.flatMap_cons, List.flatMap_singleton, hsighted] at hsightings
  -- the second line gives the second block, with the reporter behind its own attributes
  have hblocks := parse_origins hw
  rw [hlines] at hblocks ⊢
  obtain ⟨_, _, -, hrest, hfirst⟩ := List.forall₂_cons_left_iff.1 hblocks
  obtain ⟨b, _, hline, -, hsecond⟩ := List.forall₂_cons_left_iff.1 hrest
  rw [horigins] at hline ⊢
  obtain ⟨_, _, -, hargs, hown⟩ := List.forall₂_cons_left_iff.1 hline
  obtain ⟨a, _, -, -, harg⟩ := List.forall₂_cons_left_iff.1 hargs
  refine ⟨w, b, a, key, hw, hsightings, ?_, ?_⟩
  · rw [hfirst, hsecond]
    simp
  · rw [hown, harg]
    simp

/-- A text in which a block is given the parameter of a header: this is the only name that is registered. -/
private theorem parse_headerOf_useOf {folded : Bool} {text n : Text} (hn : IsName (english folded) n)
    (hlist : Dictionary.get? (Text.padSlots n) Fragment.listArguments = none)
    (hindex : Dictionary.get? ((english folded).key "bar _".toList) (english folded).index = none)
    (hlines : Text.writtenLines text = [Line.headerOf n, Line.useOf n]) :
    ∃ w b a, (english folded).parse text = .ok w ∧ w.session.lists = [] ∧
      w.session.parameters = [n] ∧
      (Line.useOf n, b) ∈ (Text.writtenLines text).zip
        ((w.scripts.flatMap Script.blocks).filter fun b => !b.isImplied) ∧
      (reporterOf n, a) ∈ ((english folded).lineOrigins (Line.useOf n)).zip b.allAttrs := by
  have hmem : Line.headerOf n ∈ Text.writtenLines text := by
    rw [hlines]
    exact List.mem_cons_self
  have htrim := trim_of_mem_writtenLines hmem
  -- the header defines a block with this parameter, and nothing else
  obtain ⟨b₀, _, hheader, hdefined⟩ := Line.readLine_headerOf folded hn.toIsPhrase htrim
  obtain ⟨w, b, a, _, hw, hsightings, hblock, hattrs⟩ :=
    parse_useOf hn hlist hindex hlines ⟨b₀, lineBlock_of_readLine hheader⟩
  rw [hdefined] at hsightings
  refine ⟨w, b, a, hw, ?_, ?_, hblock, hattrs⟩
  · rw [Session.lists, hsightings]
    rfl
  · rw [Session.parameters, hsightings]
    rfl

/-- A phrase of letters that no block of the index is made of is a name. -/
private theorem isName_of_letters {n : Text} (hn : IsPhrase n) (hheader : (english true).header? n = none)
    (hshape : Shape.ofArgument (some .round) n = .reporter)
    (h : ((english true).key (Text.padSlots n)).all "bar my_v".toList.contains = true) :
    IsName (english true) n :=
  (Fragment.isName_iff hn).2 ⟨hheader, hshape, index_eq_none_of_letters h⟩

/-- `IsName` holds of a short name. -/
theorem isName_var : IsName (english true) "var".toList := by
  refine isName_of_letters ⟨?_, ?_, List.all_eq_true.1 ?_, ?_, ?_⟩ ?_ ?_ ?_ <;> decide +kernel

/-- `IsName` holds of a name with an underscore. -/
private theorem isName_my_var : IsName (english true) "my_var".toList := by
  refine isName_of_letters ⟨?_, ?_, List.all_eq_true.1 ?_, ?_, ?_⟩ ?_ ?_ ?_ <;> decide +kernel

/-- The block that shows a list is found by its name. -/
private theorem identify_showList (args : List Text) :
    ∃ a, Fragment.identify (english true) "show list _".toList args .stack =
      .ok ⟨a, "show list _".toList⟩ ∧ a.id = some "show list _".toList := by
  -- a spec has a letter that the words have not, or it is the spec, or it has another key
  have hspecs : englishSpecs.all (fun e =>
      (e.1.any fun c => Text.isKept c && !"show list _".toList.contains c) ||
        e.2 == "show list _".toList ||
        Text.key true (Text.padSlots e.1) != Text.key true "show list _".toList) = true := by
    decide +kernel
  have hkey : Text.key true "show list _".toList = "show list _".toList := by decide +kernel
  have honly : ∀ e ∈ englishSpecs,
      Text.key true (Text.padSlots e.1) = Text.key true "show list _".toList →
        e.2 = "show list _".toList := by
    intro e he hsame
    have hspec := List.all_eq_true.1 hspecs e he
    simp only [Bool.or_eq_true, List.any_eq_true, Bool.and_eq_true, beq_iff_eq, bne_iff_ne] at hspec
    rcases hspec with (⟨c, hc, hkept, hletter⟩ | hname) | hother
    · have hmem := Text.mem_key_of_mem true hkept (Text.mem_padSlots_of_mem hc)
      rw [hsame, hkey] at hmem
      simp only [Bool.not_eq_true', List.contains_eq_mem, decide_eq_false_iff_not] at hletter
      exact absurd hmem hletter
    · exact hname
    · exact absurd hsame hother
  have hgroup : (.list, listEntries) ∈ palette := by simp [palette]
  have he : Entry.plain "show list _" ∈ listEntries := by simp [listEntries]
  obtain ⟨f, hfind, hid, ⟨group, hgroup', e, he', hname, hflag⟩, htext⟩ :=
    english_find?_of_mem_palette hgroup he (by decide +kernel) (by decide +kernel)
      (by rw [hkey]; decide) honly args
  -- the block that is found closes nothing: only `end` does
  have hopen : f.attrs.flag ≠ some .cEnd := by
    intro hclosing
    rw [hflag] at hclosing
    have hend := palette_closing group hgroup' e he' hclosing
    rw [hname] at hend
    exact absurd hend (by decide +kernel)
  have hdrawn : drawnText "show list _".toList = "show list _".toList := by decide +kernel
  have hidentify := Fragment.identify_of_find? (by decide) hfind hopen .stack
  rw [htext.trans hdrawn] at hidentify
  exact ⟨_, hidentify, hid⟩

/-- A list that is shown is used, if the words for this are known. -/
private theorem usesList_showList {v : Vocabulary} {a : Attrs} {text : Text}
    (hidentify : Fragment.identify v "show list _".toList ["[var v]".toList] .stack =
      .ok ⟨a, "show list _".toList⟩)
    (hid : a.id = some "show list _".toList)
    (hheader : v.header? "show list [var v]".toList = none)
    (htokens : (tokenize v.signRule "show list [var v]".toList).texts =
      ["show list ".toList, "[var v]".toList])
    (hline : "show list [var v]".toList ∈ Text.writtenLines text) :
    (∃ b, v.lineBlock "show list [var v]".toList = .ok b) ∧ UsesList v text "var".toList := by
  have hspec : Override.split (Fragment.specOf ["show list ".toList, "[var v]".toList]) =
      ("show list _".toList, []) := by
    decide +kernel
  -- the drawn text falls into the words and a slot, and the argument is read into the slot
  have hparts : Fragment.partsAt (Fragment.isMark (a.id == some "_ + _".toList))
      "show list _".toList = ["show list ".toList, ['_']] := by
    rw [hid]
    decide +kernel
  have hform := Fragment.form_of_tokens hheader htokens (by decide +kernel) (by decide +kernel)
    (by decide +kernel) hspec hidentify
  rw [hparts] at hform
  obtain ⟨b, hb⟩ : ∃ b, (Fragment.readArgument v "[var v]".toList).result = .ok b := by
    rw [Fragment.readArgument_eq_readWith,
      show "[var v]".toList = '[' :: ("var v".toList ++ [']']) from rfl, Fragment.readWith_square]
    exact ⟨_, rfl⟩
  obtain ⟨hread, -⟩ := Fragment.readFragment_of_form hform (by decide +kernel) hb
  obtain ⟨hok, horigins⟩ := Line.lineOrigins_eq_origins (by decide +kernel) (by decide +kernel)
    (by decide +kernel) hread
  refine ⟨hok.imp fun _ => lineBlock_of_readLine, _, hline, true, "show list [var v]".toList, none, ?_, ?_⟩
  · rw [horigins]
    exact List.mem_cons_self
  · have hnumber : Dictionary.get? "show list _".toList Fragment.listArguments = some 0 := by
      decide +kernel
    rw [hform, Fragment.Form.listArgument?, hid]
    simp only [Option.bind_eq_bind, Option.bind_some, hnumber]
    rfl

/-- When a text is parsed, every reporter for which `IsName` holds, and that the text declares as a parameter
    and uses as no list, is a parameter in the end just if `padSlots` leaves the name alone, or makes another
    parameter of it and no list. If `UsesList`, which is to say that the text uses the name in a menu as a
    list, the reporter is a list just if `padSlots` leaves the name alone, or makes another list of it. -/
theorem name_category_iff {folded : Bool} {text n : Text} {w : Workspace}
    (h : (english folded).parse text = .ok w) (hn : IsName (english folded) n) :
    List.Forall₂
      (fun line b => List.Forall₂
        (fun o a => o = reporterOf n →
          (Line.headerOf n ∈ Text.writtenLines text → n ∉ w.session.lists →
            (a.category = some .customArg ↔ Text.padSlots n = n ∨
              Text.padSlots n ∈ w.session.parameters ∧ Text.padSlots n ∉ w.session.lists)) ∧
          (UsesList (english folded) text n →
            (a.category = some .list ↔ Text.padSlots n = n ∨ Text.padSlots n ∈ w.session.lists)))
        ((english folded).lineOrigins line) b.allAttrs)
      (Text.writtenLines text) ((w.scripts.flatMap Script.blocks).filter fun b => !b.isImplied) := by
  refine (parse_origins h).imp fun line b hline => hline.imp ?_
  rintro o a ⟨a₀, hgives, hends⟩ rfl
  have hcategory := name_category hn hgives hends
  refine ⟨fun hheader hnoList => ?_, fun hlist => ?_⟩
  · -- a name in a header is registered as it stands, so the padded name is it or another one
    have hparameter := mem_parameters h hn.toIsPhrase hheader
    rw [hcategory]
    -- if the padded name is no list, only a parameter with that name makes one of the reporter
    constructor
    · intro hcustomArg
      right
      by_cases hpaddedList : Text.padSlots n ∈ w.session.lists
      · simp [hpaddedList] at hcustomArg
      · by_cases hpadded : Text.padSlots n ∈ w.session.parameters
        · exact ⟨hpadded, hpaddedList⟩
        · simp [hpaddedList, hpadded] at hcustomArg
    · rintro (hsame | ⟨hpadded, hpaddedList⟩)
      · simp [hsame, hnoList, hparameter]
      · simp [hpaddedList, hpadded]
  · -- so is a name in the menu of a list block
    have hname := mem_lists h hn hlist
    rw [hcategory]
    constructor
    · intro hlist
      right
      by_cases hpaddedList : Text.padSlots n ∈ w.session.lists
      · exact hpaddedList
      · rw [if_neg hpaddedList] at hlist
        split at hlist <;> cases hlist
    · rintro (hsame | hpaddedList)
      · simp [hsame, hname]
      · simp [hpaddedList]

/-- A name of letters, given to a block as a parameter, and as a list that is shown. -/
theorem name_category_iff_of_letters :
    (∃ w b a, (english true).parse "define foo (var)\nbar (var)".toList = .ok w ∧
      (Line.useOf "var".toList, b) ∈ (Text.writtenLines "define foo (var)\nbar (var)".toList).zip
        ((w.scripts.flatMap Script.blocks).filter fun b => !b.isImplied) ∧
      (reporterOf "var".toList, a) ∈
        ((english true).lineOrigins (Line.useOf "var".toList)).zip b.allAttrs ∧
      a.category = some .customArg) ∧
    ∃ w b a, (english true).parse "show list [var v]\nbar (var)".toList = .ok w ∧
      (Line.useOf "var".toList, b) ∈ (Text.writtenLines "show list [var v]\nbar (var)".toList).zip
        ((w.scripts.flatMap Script.blocks).filter fun b => !b.isImplied) ∧
      (reporterOf "var".toList, a) ∈
        ((english true).lineOrigins (Line.useOf "var".toList)).zip b.allAttrs ∧
      a.category = some .list := by
  have hbar : Dictionary.get? ((english true).key "bar _".toList) (english true).index = none :=
    index_eq_none_of_letters (by decide +kernel)
  have hpadded : Text.padSlots "var".toList = "var".toList := Text.padSlots_eq_self (by decide)
  constructor
  · have hlines : Text.writtenLines "define foo (var)\nbar (var)".toList =
        [Line.headerOf "var".toList, Line.useOf "var".toList] := by decide +kernel
    obtain ⟨w, b, a, hw, hlists, -, hblock, hattrs⟩ :=
      parse_headerOf_useOf isName_var (by decide +kernel) hbar hlines
    -- the reporter stands in the line that uses it, so the theorem is about it
    have hiff := List.forall₂_zip (List.forall₂_zip (name_category_iff hw isName_var) hblock) hattrs
    refine ⟨w, b, a, hw, hblock, hattrs, ((hiff rfl).1 ?_ ?_).2 (.inl hpadded)⟩
    · rw [hlines]
      exact List.mem_cons_self
    · rw [hlists]
      exact List.not_mem_nil
  · have hlines : Text.writtenLines "show list [var v]\nbar (var)".toList =
        ["show list [var v]".toList, Line.useOf "var".toList] := by
      decide +kernel
    have hmem : "show list [var v]".toList ∈
        Text.writtenLines "show list [var v]\nbar (var)".toList := by
      rw [hlines]
      exact List.mem_cons_self
    obtain ⟨a₀, hidentify, hid⟩ := identify_showList ["[var v]".toList]
    obtain ⟨hok, huse⟩ :=
      usesList_showList hidentify hid (by decide +kernel) (by decide +kernel) hmem
    obtain ⟨w, b, a, _, hw, -, hblock, hattrs⟩ :=
      parse_useOf isName_var (by decide +kernel) hbar hlines hok
    have hiff := List.forall₂_zip (List.forall₂_zip (name_category_iff hw isName_var) hblock) hattrs
    exact ⟨w, b, a, hw, hblock, hattrs, ((hiff rfl).2 huse).2 (.inl hpadded)⟩

/-- A name with an underscore in a word, given to a block as a parameter. -/
theorem padded_name_lost :
    ∃ w b a, (english true).parse "define foo (my_var)\nbar (my_var)".toList = .ok w ∧
      IsName (english true) "my_var".toList ∧
      Line.headerOf "my_var".toList ∈ Text.writtenLines "define foo (my_var)\nbar (my_var)".toList ∧
      w.session.lists = [] ∧
      (Line.useOf "my_var".toList, b) ∈
        (Text.writtenLines "define foo (my_var)\nbar (my_var)".toList).zip
          ((w.scripts.flatMap Script.blocks).filter fun b => !b.isImplied) ∧
      (reporterOf "my_var".toList, a) ∈
        ((english true).lineOrigins (Line.useOf "my_var".toList)).zip b.allAttrs ∧
      a.category = some .vars := by
  have hbar : Dictionary.get? ((english true).key "bar _".toList) (english true).index = none :=
    index_eq_none_of_letters (by decide +kernel)
  have hlines : Text.writtenLines "define foo (my_var)\nbar (my_var)".toList =
      [Line.headerOf "my_var".toList, Line.useOf "my_var".toList] := by
    decide +kernel
  obtain ⟨w, b, a, hw, hlists, hparameters, hblock, hattrs⟩ :=
    parse_headerOf_useOf isName_my_var (by decide +kernel) hbar hlines
  obtain ⟨a₀, hgives, hends⟩ := List.forall₂_zip (List.forall₂_zip (parse_origins hw) hblock) hattrs
  have hcategory := name_category isName_my_var hgives hends
  -- padding sets the underscore off, and the padded name is registered nowhere
  have hpadded : Text.padSlots "my_var".toList ∉ ["my_var".toList] := by decide +kernel
  refine ⟨w, b, a, hw, isName_my_var, ?_, hlists, hblock, hattrs, ?_⟩
  · rw [hlines]
    exact List.mem_cons_self
  · rw [hcategory, hlists, hparameters, if_neg List.not_mem_nil, if_neg hpadded]

end Vocabulary

end BlockScript
