import BlockScript.Proofs.Reading.Woven
import BlockScript.Proofs.Vocabulary.Bundled
import BlockScript.Proofs.Vocabulary.Specs

/-!
# English blocks are recognised

A line that is made from the spec of an English block by putting arguments into its slots is read as that
block, and each argument as it would be read alone. The text of a spec must not open a bracket for this. Two
specs have a less-than sign, which is a comparison there: it stands between two arguments, or in a phrase that
is known for it.

## Key results

- `isWoven_of_isOrdinary`: such a line is woven from the runs of the spec and the arguments
- `readLine_spec`: it is read as the block with this spec
-/

namespace BlockScript

/-- Whether a block of a line has the name and the flag of an entry, and its shape. A block without a shape of
    its own is put into a script, and what is stopped decides whether a script ends. -/
structure Entry.Describes (e : Entry) (a : Attrs) : Prop where
  id : a.id = some e.spec
  flag : a.flag = e.flag
  shape : e.spec ≠ "stop _".toList → a.shape = e.shape.or (some .stack)
  stop : e.spec = "stop _".toList → a.shape = some .stack ∨ a.shape = some .cap

/-! ## Less-than signs -/

/-- A run opens no bracket if the one sign in it is a comparison. -/
private theorem isBare_of_isComparison {verbal : Nat → Bool} {before s s' after : Text} {c : Char}
    (hs : ∀ d ∈ s, Bracket.ofOpener? d = none) (hs' : ∀ d ∈ s', Bracket.ofOpener? d = none)
    (h : isComparison verbal (s.reverse ++ before) c (s' ++ after) = true) :
    IsBare verbal before (s ++ c :: s') after := by
  intro u d u' hrun hd
  -- neither part has an opening bracket
  have hplain : ∀ {t : Text}, (∀ d ∈ t, Bracket.ofOpener? d = none) → d ∉ t := fun ht hmem => by
    simp [ht d hmem] at hd
  -- a sign can only be the one between the two parts
  rcases List.append_eq_append_iff.1 hrun with ⟨w, rfl, hw⟩ | ⟨w, rfl, hw⟩
  · cases w with
    | nil =>
      obtain ⟨rfl, rfl⟩ := List.cons.inj hw
      simpa using h
    | cons e w =>
      obtain ⟨rfl, rfl⟩ := List.cons.inj hw
      exact absurd (by simp) (hplain hs')
  · cases w with
    | nil =>
      obtain ⟨rfl, rfl⟩ := List.cons.inj hw
      simpa using h
    | cons e w =>
      obtain ⟨rfl, rfl⟩ := List.cons.inj hw
      exact absurd (by simp) (hplain hs)

namespace IsEnclosed

variable {rule : SignRule} {t : Text}

/-- In front of an argument `opensNext` looks past a space. -/
theorem opensNext (h : IsEnclosed rule t) (rest : Text) : opensNext (' ' :: (t ++ rest)) = true := by
  obtain ⟨b, inner, rfl⟩ := h.exists_enclosed
  cases b <;> rfl

/-- So does `closesLast` behind it. -/
theorem closesLast (h : IsEnclosed rule t) (before : Text) :
    closesLast (' ' :: (t.reverse ++ before)) = true := by
  obtain ⟨b, inner, rfl⟩ := h.exists_enclosed
  cases b <;> simp [BlockScript.closesLast, Bracket.enclose, Bracket.ofCloser?, Bracket.closer]

end IsEnclosed

namespace Vocabulary

variable {folded : Bool}

/-- English has one phrase in `signPhrases`, that starts a block with a sign in its own text. -/
theorem english_signPhrases (folded : Bool) :
    (english folded).signPhrases = ["when distance".toList] := by
  cases folded <;> decide +kernel

/-- The phrase that is known for the sign behind it. -/
private theorem takesSigns_distance (folded : Bool) :
    (english folded).takesSigns "when distance ".toList = true := by
  have hkey : Text.key folded "when distance ".toList = "when distance".toList := by
    cases folded <;> decide +kernel
  rw [takesSigns, startsWithPhrase, key, english_folded, english_signPhrases, hkey]
  decide

/-- In the two specs with a less-than sign it is a comparison. -/
private theorem areBare_of_mem_signSpecs {spec : Text} {args : List Text} (hspec : spec ∈ signSpecs)
    (hcount : args.length = spec.count '_')
    (hargs : ∀ arg ∈ args, IsArgument (english folded).signRule arg) :
    AreBare ((english folded).signRule (Text.weave (Text.runsOf spec) args)).holds []
      (Text.runsOf spec) args := by
  have hspace : ∀ d ∈ [' '], Bracket.ofOpener? d = none := by simp [Bracket.ofOpener?]
  have hempty : ∀ verbal before after, IsBare verbal before [] after :=
    isBare_of_ofOpener?_eq_none (by simp)
  simp only [signSpecs, List.map_cons, List.map_nil, List.mem_cons, List.not_mem_nil, or_false] at hspec
  rcases hspec with rfl | rfl
  · -- the sign stands between two arguments
    obtain ⟨a, b, rfl⟩ := List.length_eq_two.1 hcount
    obtain ⟨ha, hb⟩ : IsArgument (english folded).signRule a ∧ IsArgument (english folded).signRule b := by
      simpa using hargs
    have hruns : Text.runsOf "_ < _".toList = [[], [' '] ++ '<' :: [' '], []] := by decide
    -- behind the sign there is an argument, and in front of it there is one
    have hnext : opensNext (' ' :: b) = true := by simpa using hb.opensNext []
    have hlast : closesLast (' ' :: a.reverse) = true := by simpa using ha.closesLast []
    rw [hruns]
    refine ⟨hempty _ _ _, isBare_of_isComparison hspace hspace ?_, hempty _ _ _⟩
    simp [isComparison, hnext, hlast]
  · -- the sign stands behind the phrase
    obtain ⟨a, rfl⟩ := List.length_eq_one_iff.1 hcount
    have hruns : Text.runsOf "when distance < _".toList =
        ["when distance ".toList ++ '<' :: [' '], []] := by decide
    have hphrase : ∀ d ∈ "when distance ".toList, Bracket.ofOpener? d = none := by simp [Bracket.ofOpener?]
    rw [hruns]
    refine ⟨isBare_of_isComparison hphrase hspace ?_, hempty _ _ _⟩
    rw [Text.weave_cons, isComparison, signRule_eq_takesSigns]
    -- what is in front of the sign is the phrase, which takes it
    have hfront : (("when distance ".toList ++ '<' :: [' ']) ++ (a ++ Text.weave [[]] [])).take
        ("when distance ".toList.reverse ++ []).length = "when distance ".toList := by
      simp
    rw [hfront, takesSigns_distance]
    simp

/-! ## Headers -/

/-- A text with a letter in its beginning that is in no word for headers is no `header?`. -/
theorem english_header?_eq_none {t : Text} {c : Char} (hc : c ∈ t.take 6) (hkept : Text.isKept c = true)
    (hforeign : c ∉ "define".toList) : (english folded).header? t = none := by
  have hword : Text.key folded "define".toList = "define".toList := by
    cases folded <;> decide +kernel
  rw [header?, english_headerWords, List.find?_eq_none]
  intro word hmem
  obtain rfl := List.mem_singleton.1 hmem
  simp only [key, english_folded, Bool.and_eq_true, beq_iff_eq, hword]
  rintro ⟨-, hkey⟩
  exact hforeign (hkey ▸ Text.mem_key_of_mem folded hkept hc)

/-- The `briefSpecs` are no headers. -/
private theorem english_header?_of_mem_briefSpecs :
    ∀ spec ∈ briefSpecs, (english folded).header? spec = none := by
  have hwords : ∀ spec ∈ briefSpecs,
      Text.key folded (spec.take "define".toList.length) ≠ Text.key folded "define".toList := by
    cases folded <;> decide +kernel
  intro spec hspec
  rw [header?, english_headerWords, List.find?_eq_none]
  intro word hmem
  obtain rfl := List.mem_singleton.1 hmem
  simp only [key, english_folded, Bool.and_eq_true, beq_iff_eq]
  exact fun hheader => hwords spec hspec hheader.2

/-- A line with a spec that is not the word for headers is no header. -/
private theorem header?_weave {spec : Text} {args : List Text} (hspec : IsOrdinary spec)
    (hcount : args.length = spec.count '_')
    (hargs : ∀ arg ∈ args, IsArgument (english folded).signRule arg) :
    (english folded).header? (Text.weave (Text.runsOf spec) args) = none := by
  have hfits : Text.Fits (Text.runsOf spec) args := by
    rw [Text.fits_iff, Text.length_runsOf, hcount]
  rcases hspec.unheaded with ⟨c, hc, hkept, hforeign⟩ | hbrief
  · rcases hfits.take_slotted (fun arg harg => (hargs arg harg).ne_nil) 6 with htake | ⟨arg, harg, d, hd, hmem⟩
    · rw [Text.slotted_runsOf] at htake
      exact english_header?_eq_none (htake ▸ hc) hkept hforeign
    · -- an argument begins there, with a bracket
      rcases (hargs arg harg).opens with hopen | hopen
      · rw [hd] at hopen
        obtain rfl := Option.some.inj hopen
        exact english_header?_eq_none hmem (by decide) (by decide)
      · rw [hd] at hopen
        obtain rfl := Option.some.inj hopen
        exact english_header?_eq_none hmem (by decide) (by decide)
  · -- there are no arguments
    have hbare : ∀ spec ∈ briefSpecs, spec.count '_' = 0 ∧ Text.runsOf spec = [spec] := by decide +kernel
    obtain ⟨hnone, hruns⟩ := hbare spec hbrief
    obtain rfl : args = [] := List.length_eq_zero_iff.1 (hcount.trans hnone)
    rw [hruns, Text.weave_last]
    exact english_header?_of_mem_briefSpecs spec hbrief

/-! ## Lines with a spec -/

/-- A spec with arguments in its slots `IsWoven` of its runs and the arguments. -/
theorem isWoven_of_isOrdinary {spec : Text} {args : List Text} (hspec : IsOrdinary spec)
    (hcount : args.length = spec.count '_')
    (hargs : ∀ arg ∈ args, IsArgument (english folded).signRule arg) :
    IsWoven (english folded) (Text.runsOf spec) args where
  fits := by rw [Text.fits_iff, Text.length_runsOf, hcount]
  arguments := hargs
  bare := by
    rcases hspec.bare with hplain | hsign
    · exact areBare_of_ofOpener?_eq_none
        (fun run hrun c hc => hplain c ((Text.isInfix_of_mem_runsOf hrun).subset hc)) _ _ _
    · exact areBare_of_mem_signSpecs hsign hcount hargs
  literal := by
    rcases hspec.bare with hplain | hsign
    · intro run hrun
      cases run with
      | nil => rfl
      | cons c run => exact hplain c ((Text.isInfix_of_mem_runsOf hrun).subset List.mem_cons_self)
    · -- of the two specs with a sign no run starts with it
      have hruns : ∀ spec ∈ signSpecs, ∀ run ∈ Text.runsOf spec, Bracket.leading? run = none := by decide
      exact hruns spec hsign
  unslashed := fun run hrun hslashes => hspec.unslashed (hslashes.trans (Text.isInfix_of_mem_runsOf hrun))
  uncoloned := fun run hrun hcolons => hspec.uncoloned (hcolons.trans (Text.isInfix_of_mem_runsOf hrun))
  filled := Text.exists_run_ne_nil hspec.filled
  trimmed := by
    have hfits : Text.Fits (Text.runsOf spec) args := by
      rw [Text.fits_iff, Text.length_runsOf, hcount]
    rw [Text.trim_weave hfits fun arg harg => (hargs arg harg).isTight, hspec.trimmed]
  unheaded := header?_weave hspec hcount hargs

/-- A spec with the `key` of a block is that block, with the shape of its place. Three blocks are left out, for
    their arguments may change what they are. -/
theorem english_identify {group : Category × List Entry} {e : Entry} (hgroup : group ∈ palette)
    (he : e ∈ group.2) (himage : '@' ∉ e.spec) (hflag : e.flag ≠ some .cEnd)
    (hfixed : e.spec ∉ ["_ of _".toList, "length of _".toList, "stop _".toList]) {spec : Text} (hspec : spec ≠ [])
    (hkey : Text.key folded spec = Text.key folded (Text.padSlots e.spec)) (args : List Text) (shape : Shape) :
    ∃ group' ∈ palette, e ∈ group'.2 ∧ Fragment.identify (english folded) spec args shape = .ok
      ⟨Fragment.knownAttrs { e.attrs group'.1 with lang := some englishPack.code } shape, drawnText spec⟩ := by
  obtain ⟨group', hgroup', he', hfind⟩ := english_find?_of_key_eq hgroup he himage hkey args
  have hrefine : (english folded).refine args { e.attrs group'.1 with lang := some englishPack.code } =
      { e.attrs group'.1 with lang := some englishPack.code } := by
    apply refine_eq_self <;>
      · intro hid
        exact hfixed (by rw [Option.some.inj hid]; decide)
  rw [hrefine] at hfind
  exact ⟨group', hgroup', he', Fragment.identify_of_find? hspec hfind hflag shape⟩

/-- A spec that `IsOrdinary` is not empty, padded or not. -/
theorem padSlots_ne_nil {spec : Text} (h : IsOrdinary spec) : Text.padSlots spec ≠ [] := by
  obtain ⟨c, hc, -⟩ := h.filled
  exact List.ne_nil_of_mem (Text.mem_padSlots_of_mem hc)

section Entry

variable {group : Category × List Entry} {e : Entry} (hgroup : group ∈ palette) (he : e ∈ group.2)
  (himage : '@' ∉ e.spec)

section

variable {args : List Text} (hcount : args.length = e.spec.count '_')
  (hargs : ∀ arg ∈ args, IsArgument (english folded).signRule arg)

include hgroup he himage hcount hargs

open Fragment in
/-- A line with the `spec` of a block is taken for the block, and there are slots for all arguments. -/
private theorem form_spec :
    ∃ attrs parts, e.Describes attrs ∧ args.length ≤ parts.count ['_'] ∧
      form (english folded) true (Text.weave (Text.runsOf e.spec) args) = .block attrs [] parts args := by
  have hspec := isOrdinary_of_mem_palette hgroup he himage
  obtain ⟨f, hfind, hid, hflag, htext, hshape, hstop⟩ :=
    @english_find?_spec folded _ _ hgroup he himage args
  -- the text of the line has the spec of the block, so this is what is found
  have hidentify : identify (english folded) (Text.padSlots (Text.slotted (Text.runsOf e.spec))) args .stack =
      .ok ⟨knownAttrs f.attrs .stack, if f.attrs.flag = some .cEnd then [] else f.text⟩ := by
    rw [Text.slotted_runsOf, identify, if_neg (padSlots_ne_nil hspec), hfind]
  -- a shape that the palette leaves open is that of a line
  have hdescribes : e.Describes (knownAttrs f.attrs .stack) := by
    refine ⟨hid, hflag, fun hne => ?_, fun heq => ?_⟩
    · rw [← hshape hne]
      rfl
    · rcases hstop heq with hnone | hcap
      · exact .inl (by rw [knownAttrs, hnone]; rfl)
      · exact .inr (by rw [knownAttrs, hcap]; rfl)
  refine ⟨_, _, hdescribes, ?_, form_of_isWoven (isWoven_of_isOrdinary hspec hcount hargs) hidentify⟩
  rw [count_partsAt]
  split
  · -- the block that closes C blocks is drawn without text, and has no arguments
    rename_i hend
    have hname := palette_closing group hgroup e he (hflag.symm.trans hend)
    rw [hcount, hname]
    decide
  · rw [htext, count_drawnText, Text.count_padSlots (by decide), hcount]

/-- `readLine` reads a line with the spec of a block, woven with arguments in its slots, as the block that the
    entry `Describes`, and its `arguments` are what `readFragment` gives for them alone. -/
theorem readLine_spec
    (hdeep : ((english folded).readLine (Text.weave (Text.runsOf e.spec) args)).result ≠ .error .tooDeep) :
    ∃ b, ((english folded).readLine (Text.weave (Text.runsOf e.spec) args)).result = .ok b ∧
      e.Describes b.attrs ∧
      List.Forall₂ (fun arg b' => ((english folded).readFragment false arg).result = .ok b') args
        b.arguments := by
  obtain ⟨attrs, parts, hattrs, hslots, hform⟩ := form_spec hgroup he himage hcount hargs
  have hwoven := isWoven_of_isOrdinary (isOrdinary_of_mem_palette hgroup he himage) hcount hargs
  obtain ⟨ps, hps, hline⟩ := Line.readLine_ok_of_isWoven (english_drawable folded) hwoven hform hdeep
  have hblocks := (Fragment.fillSlots_eq_ok hps).blocks
  rw [List.take_of_length_le hslots] at hblocks
  refine ⟨_, hline, ⟨hattrs.id, hattrs.flag, hattrs.shape, hattrs.stop⟩, ?_⟩
  -- the arguments have been read with one level less
  exact hblocks.imp fun arg b' => Fragment.readFragment_of_ok

end

include hgroup he himage in
/-- A block without slots is recognised by its `spec` alone, and has no `arguments`. -/
theorem readLine_spec_of_noSlots (hslots : e.spec.count '_' = 0) :
    ∃ b, ((english folded).readLine (Text.weave (Text.runsOf e.spec) [])).result = .ok b ∧
      e.Describes b.attrs ∧ b.arguments = [] := by
  have hcount : ([] : List Text).length = e.spec.count '_' := hslots.symm
  have hargs : ∀ arg ∈ ([] : List Text), IsArgument (english folded).signRule arg := by simp
  obtain ⟨b, hb, hdescribes, harguments⟩ := readLine_spec hgroup he himage hcount hargs fun hdeep => by
    obtain ⟨_, _, -, -, hform⟩ := @form_spec folded _ _ hgroup he himage _ hcount hargs
    have hwoven := isWoven_of_isOrdinary (isOrdinary_of_mem_palette hgroup he himage) hcount hargs
    obtain ⟨arg, harg, -⟩ := Line.exists_arg_of_isWoven hwoven hform hdeep
    simp at harg
  exact ⟨b, hb, hdescribes, List.forall₂_nil_left_iff.1 harguments⟩

end Entry

/-- Signs in square brackets are no more than text. -/
theorem readLine_say :
    ∃ b, ((english true).readLine "say [a < b] for (2) secs".toList).result = .ok b ∧
      (Entry.plain "say _ for _ secs").Describes b.attrs ∧
      List.Forall₂ (fun arg b' => ((english true).readFragment false arg).result = .ok b')
        ["[a < b]".toList, "(2)".toList] b.arguments := by
  have hgroup : (Category.looks, looksEntries) ∈ palette := by simp [palette]
  have he : Entry.plain "say _ for _ secs" ∈ looksEntries := by simp [looksEntries]
  have himage : '@' ∉ (Entry.plain "say _ for _ secs").spec := by decide
  have hargs : ∀ arg ∈ ["[a < b]".toList, "(2)".toList], IsArgument (english true).signRule arg := by
    decide +kernel
  -- both arguments can be read, so neither is nested too deeply
  have hread : ∀ arg ∈ ["[a < b]".toList, "(2)".toList],
      (Fragment.readArgument (english true) arg).result.isOk = true := by
    decide +kernel
  have hline : Text.weave (Text.runsOf (Entry.plain "say _ for _ secs").spec)
      ["[a < b]".toList, "(2)".toList] = "say [a < b] for (2) secs".toList := by
    decide +kernel
  have hsaid := readLine_spec hgroup he himage (by decide) hargs fun hdeep => by
    obtain ⟨_, _, -, -, hform⟩ := form_spec hgroup he himage (by decide) hargs
    have hwoven := isWoven_of_isOrdinary (isOrdinary_of_mem_palette hgroup he himage) (by decide) hargs
    obtain ⟨arg, harg, herror⟩ := Line.exists_arg_of_isWoven hwoven hform hdeep
    have hok := hread arg harg
    rw [herror] at hok
    cases hok
  rwa [hline] at hsaid

end Vocabulary

end BlockScript
