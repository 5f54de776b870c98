import BlockScript.Proofs.Reading.Arguments
import BlockScript.Proofs.Reading.Recognised
import BlockScript.Proofs.Text.Letters
import BlockScript.Proofs.Token.Comparison

/-!
# Comparisons are read as comparisons

In English a sign between two arguments makes a block that compares them, however many spaces are around the
sign. There must be one in front of it, for text that starts with a less-than sign is taken for an argument.
The arguments are read as they are by themselves, whatever is in them.

## Key results

- `Vocabulary.english_sparesBrackets`: no English block that starts with a bracket has a sign in its own text
- `Vocabulary.english_read_comparison`: a comparison in angle brackets
-/

namespace BlockScript

/-! ## The key of a comparison -/

namespace Text

/-- Behind a gap `squeezeAfter` drops all further spaces. -/
private theorem squeezeAfter_spaces (n : Nat) (t : Text) :
    squeezeAfter true (List.replicate n ' ' ++ t) = squeezeAfter true t := by
  induction n with
  | zero => rfl
  | succ n ih => simpa [List.replicate_succ, squeezeAfter, isGap] using ih

variable {sign : Char} (hsign : IsSign sign) (front back : Nat)

include hsign

/-- The slot behind a sign is the only one that may lack a space. -/
private theorem padSlots_spacedSign :
    padSlots ('_' :: (spacedSign sign (front + 1) back ++ ['_'])) =
      '_' :: (spacedSign sign (front + 1) (max back 1) ++ ['_']) := by
  have hslot : ∀ back, '_' ∉ spacedSign sign (front + 1) back := by
    intro back
    rcases hsign with rfl | rfl <;> simp [spacedSign]
  have hspace : sign ≠ ' ' := by
    rcases hsign with rfl | rfl <;> decide
  have hbefore : padBefore ' ' ('_' :: (spacedSign sign (front + 1) back ++ ['_'])) =
      '_' :: (spacedSign sign (front + 1) (max back 1) ++ ['_']) := by
    rw [padBefore, if_neg (by simp), padBefore_append (hslot back)]
    -- a slot is set off in front only if nothing has done so
    cases back with
    | zero => simp [spacedSign, padBefore, hspace]
    | succ back => simp [spacedSign, padBefore, List.getLast?_append, List.getLast?_cons, List.getLast?_replicate]
  have hfilled : startsFilled (spacedSign sign (front + 1) (max back 1) ++ ['_']) = false := rfl
  rw [padSlots, hbefore, padAfter, hfilled, if_neg (by simp), padAfter_append (hslot _)]
  rfl

/-- However many spaces are around the sign, the `key` has one on either side. -/
private theorem key_spacedSign (folded : Bool) :
    key folded (padSlots ('_' :: (spacedSign sign (front + 1) back ++ ['_']))) = ['_', ' ', sign, ' ', '_'] := by
  obtain ⟨back', hback⟩ : ∃ back', max back 1 = back' + 1 := ⟨max back 1 - 1, by omega⟩
  rw [padSlots_spacedSign hsign, hback]
  set t := '_' :: (spacedSign sign (front + 1) (back' + 1) ++ ['_']) with ht
  -- the text is made of four characters, which neither folding nor lower-casing changes
  have hmem : ∀ c ∈ t, c ∈ ['_', ' ', '<', '>'] := by
    intro c hc
    rcases hsign with rfl | rfl <;> simp [ht, spacedSign] at hc ⊢ <;> tauto
  have hsmall : ∀ c ∈ ['_', ' ', '<', '>'], c.toNat < 0x80 ∧ c.toLower = c ∧ isSilent c = false := by
    simp only [List.forall_mem_cons, List.not_mem_nil, false_imp_iff, implies_true, and_true]
    decide
  have hloud : t.filter (fun c => !isSilent c) = t :=
    List.filter_eq_self.2 fun c hc => by simp [(hsmall c (hmem c hc)).2.2]
  have hlower : lower t = t := by
    rw [lower_of_ascii fun c hc => (hsmall c (hmem c hc)).1]
    exact (List.map_congr_left fun c hc => (hsmall c (hmem c hc)).2.1).trans (List.map_id t)
  -- of the spaces on each side one is left
  have hsqueeze : squeeze t = ['_', ' ', sign, ' ', '_'] := by
    rcases hsign with rfl | rfl <;>
      simp [ht, spacedSign, List.replicate_succ, squeeze, squeezeAfter, isGap, squeezeAfter_spaces]
  have hplain : plainKey t = ['_', ' ', sign, ' ', '_'] := by
    rw [plainKey, hloud, hlower, hsqueeze]
    rcases hsign with rfl | rfl <;> decide
  have hbare : bareKey folded t = ['_', ' ', sign, ' ', '_'] := by
    rw [bareKey, hplain]
    rcases hsign with rfl | rfl <;> cases folded <;> decide +kernel
  rw [key_eq_bareKey (by simp [hbare]), hbare]

end Text

/-! ## The fragment -/

/-- Two operands with a sign between them, in angle brackets. -/
def comparison (sign : Char) (front back : Nat) (a b : Text) : Text :=
  Bracket.angle.enclose (a ++ spacedSign sign front back ++ b)

/-- The block that compares with a sign. -/
def comparisonSpec (sign : Char) : Text := ['_', ' ', sign, ' ', '_']

namespace Fragment

section

variable {v : Vocabulary} (hrule : v.signRule.SparesBrackets) {a b : Text} (ha : IsOperand v.signRule a)
  (hb : IsOperand v.signRule b) {sign : Char} (hsign : IsSign sign) (front back : Nat)

include hrule ha hb hsign

/-- The tokens of a comparison in angle brackets are its operands, with the sign and the spaces in between. -/
private theorem texts_comparison :
    (tokenize v.signRule (inside false (comparison sign front back a b))).texts =
      [a, spacedSign sign front back, b] := by
  have hinside : inside false (comparison sign front back a b) = a ++ spacedSign sign front back ++ b :=
    Bracket.strip_enclose .angle _
  rw [hinside, tokenize_comparison hrule ha hb hsign]
  rfl

/-- The pieces of a comparison are what it is made of. -/
private theorem piecesIn_comparison :
    piecesIn v false (comparison sign front back a b) = [a, spacedSign sign front back, b] := by
  have htight : ∀ {t}, IsOperand v.signRule t → Text.IsTight t := by
    intro t ht
    obtain ⟨bracket, inner, -, rfl⟩ := ht.exists_enclosed
    exact bracket.isTight_enclose inner
  rw [piecesIn, texts_comparison hrule ha hb hsign]
  simp only [trimEnds, trimEnds.trimLast, (htight ha).trimLeft_eq_self, (htight hb).trimRight_eq_self]

/-- The operands are its arguments, for with a space in front of it the sign is none. -/
private theorem specOf_comparison :
    specOf (piecesIn v false (comparison sign (front + 1) back a b)) =
        Text.padSlots ('_' :: (spacedSign sign (front + 1) back ++ ['_'])) ∧
      argumentsIn v false (comparison sign (front + 1) back a b) = [a, b] := by
  have hfilled : ∀ {t}, IsOperand v.signRule t → (Bracket.leading? t).isSome = true := by
    intro t ht
    obtain ⟨bracket, inner, hbracket, rfl⟩ := ht.exists_enclosed
    rcases hbracket with rfl | rfl <;> rfl
  have hspaced : (Bracket.leading? (spacedSign sign (front + 1) back)).isSome = false := rfl
  rw [argumentsIn, piecesIn_comparison hrule ha hb hsign]
  constructor
  · simp [specOf, Piece.spec, Piece.inSpec, hfilled ha, hfilled hb, hspaced]
  · simp [argumentsOf, hfilled ha, hfilled hb, hspaced]

/-- There are no words in a comparison. -/
private theorem split_comparison :
    Override.split (specOf (piecesIn v false (comparison sign (front + 1) back a b))) =
      (Text.padSlots ('_' :: (spacedSign sign (front + 1) back ++ ['_'])), []) := by
  rw [(specOf_comparison hrule ha hb hsign front back).1, Override.split_eq_self]
  intro hcolons
  have hcolon : ':' ∈ '_' :: (spacedSign sign (front + 1) back ++ ['_']) :=
    (Text.isInfix_of_isInfix_padSlots (by decide) hcolons).subset (by decide)
  rcases hsign with rfl | rfl <;> simp [spacedSign] at hcolon

/-- There is a boolean in this place. -/
private theorem placeShape_comparison : placeShape v false (comparison sign front back a b) = .boolean := by
  rw [placeShape, texts_comparison hrule ha hb hsign]
  rfl

end

end Fragment

namespace Vocabulary

variable {folded : Bool}

/-! ## The sign -/

/-- No English block has a sign in its own text that starts with a character other than the small `w`, if the
    character is kept in keys. -/
theorem english_signRule_eq_false {c : Char} (hkept : 'Σ' ∉ [c] ∧ Text.bareKey folded [c] = [c]) (hc : c ≠ 'w')
    (t : Text) (n : Nat) : ((english folded).signRule (c :: t)).holds n = false := by
  rw [signRule_eq_takesSigns, takesSigns, startsWithPhrase, key, english_folded, english_signPhrases]
  cases n with
  | zero =>
    rw [List.take_zero]
    cases folded <;> decide +kernel
  | succ n =>
    -- the key starts with the character, for which no phrase has a place
    obtain ⟨k, hk⟩ : ∃ k, Text.key folded (c :: t.take n) = c :: k := by
      have hgrown := Text.bareKey_isPrefix_append folded hkept.1 (t.take n)
      rw [hkept.2] at hgrown
      obtain ⟨k, hk⟩ := hgrown
      have hkey : Text.bareKey folded (c :: t.take n) = c :: k := hk.symm
      exact ⟨k, by rw [Text.key_eq_bareKey (by simp [hkey]), hkey]⟩
    rw [List.take_succ_cons, hk]
    simp [List.isPrefixOf, hc.symm]

/-- The English rule `SparesBrackets`: no block that starts with a bracket has a sign in its own text. -/
theorem english_sparesBrackets (folded : Bool) : (english folded).signRule.SparesBrackets := by
  intro c t hc n
  have hbracket : c = '(' ∨ c = '[' ∨ c = '<' ∨ c = '\x7b' := by
    unfold Bracket.ofOpener? at hc
    grind
  have hkept : 'Σ' ∉ [c] ∧ Text.bareKey folded [c] = [c] := by
    rcases hbracket with rfl | rfl | rfl | rfl <;> cases folded <;> decide +kernel
  have hother : c ≠ 'w' := by
    rcases hbracket with rfl | rfl | rfl | rfl <;> decide
  exact english_signRule_eq_false hkept hother t n

/-! ## The block -/

/-- The blocks that compare with a sign are operators, and have no `shape` of their own. -/
private theorem mem_operatorsEntries_comparison {sign : Char} (hsign : IsSign sign) :
    ∃ e ∈ operatorsEntries, e.spec = comparisonSpec sign ∧ '@' ∉ e.spec ∧ e.shape = none ∧ e.flag = none := by
  rcases hsign with rfl | rfl
  · exact ⟨.plain "_ < _", by simp [operatorsEntries], by decide, by decide, rfl, rfl⟩
  · exact ⟨.plain "_ > _", by simp [operatorsEntries], by decide, by decide, rfl, rfl⟩

/-- The blocks of the `palette` for comparisons are operators. -/
private theorem category_of_comparisonSpec {sign : Char} (hsign : IsSign sign) :
    ∀ group ∈ palette, ∀ e ∈ group.2,
    e.spec = comparisonSpec sign → group.1 = .operators := by
  have hall : ∀ group ∈ palette, ∀ e ∈ group.2,
      e.spec = comparisonSpec '<' ∨ e.spec = comparisonSpec '>' → group.1 = .operators := by
    decide +kernel
  intro group hgroup e he hspec
  rcases hsign with rfl | rfl
  · exact hall group hgroup e he (.inl hspec)
  · exact hall group hgroup e he (.inr hspec)

/-- A sign between two slots is the block that compares, however many spaces are around the sign. -/
private theorem identify_comparison {sign : Char} (hsign : IsSign sign) (front back : Nat)
    (args : List Text) :
    ∃ f, Fragment.identify (english folded)
        (Text.padSlots ('_' :: (spacedSign sign (front + 1) back ++ ['_']))) args .boolean = .ok f ∧
      f.attrs.id = some (comparisonSpec sign) ∧ f.attrs.category = some .operators ∧
      f.attrs.shape = some .boolean ∧ f.attrs.flag = none := by
  obtain ⟨e, he, hspec, himage, hshape, hflag⟩ := mem_operatorsEntries_comparison hsign
  have hgroup : (Category.operators, operatorsEntries) ∈ palette := by simp [palette]
  have hown : Text.key folded (Text.padSlots (comparisonSpec sign)) = comparisonSpec sign := by
    rcases hsign with rfl | rfl <;> cases folded <;> decide +kernel
  -- the key has lost all spaces but one on each side, so it is that of the block
  have hkey : Text.key folded (Text.padSlots ('_' :: (spacedSign sign (front + 1) back ++ ['_']))) =
      Text.key folded (Text.padSlots e.spec) := by
    rw [Text.key_spacedSign hsign, hspec, hown]
    rfl
  -- the block is none of those whose category depends on their arguments
  have hfixed : e.spec ∉ ["_ of _".toList, "length of _".toList, "stop _".toList] := by
    rw [hspec]
    rcases hsign with rfl | rfl <;> decide
  have hspaced : Text.padSlots ('_' :: (spacedSign sign (front + 1) back ++ ['_'])) ≠ [] :=
    List.ne_nil_of_mem (Text.mem_padSlots_of_mem List.mem_cons_self)
  obtain ⟨group, hgroup', he', hidentify⟩ :=
    english_identify hgroup he himage (by simp [hflag]) hfixed hspaced hkey args .boolean
  refine ⟨_, hidentify, congrArg some hspec, ?_, ?_, hflag⟩
  · exact congrArg some (category_of_comparisonSpec hsign group hgroup' e he' hspec)
  · show e.shape.or _ = _
    rw [hshape]
    rfl

/-- A comparison is neither a header nor an insert. -/
private theorem isBlock_comparison {a b : Text} (ha : IsOperand (english folded).signRule a)
    (hb : IsOperand (english folded).signRule b) {sign : Char} (hsign : IsSign sign) (front back : Nat) :
    Fragment.IsBlock (english folded) false (comparison sign front back a b) where
  unheaded := by
    obtain ⟨bracket, inner, hbracket, rfl⟩ := ha.exists_enclosed
    have hopener : Text.isKept bracket.opener = true ∧ bracket.opener ∉ "define".toList := by
      rcases hbracket with rfl | rfl <;> decide
    refine english_header?_eq_none (c := bracket.opener) ?_ hopener.1 hopener.2
    rw [Fragment.inside, if_neg (by decide), comparison, Bracket.strip_enclose, Bracket.enclose]
    simp
  inserted := by
    rw [Fragment.texts_comparison (english_sparesBrackets folded) ha hb hsign]
    rfl

open Fragment in
/-- A `comparison` in angle brackets is one token. Unless it is nested too deeply `readFragment` makes of it
    the boolean block that compares with its sign, and the `arguments` of this are what the two operands are
    read as. -/
theorem english_read_comparison {a b : Text} (ha : IsOperand (english folded).signRule a)
    (hb : IsOperand (english folded).signRule b) {sign : Char} (hsign : IsSign sign) {front : Nat}
    (hfront : 0 < front) (back : Nat) :
    tokenize (english folded).signRule (comparison sign front back a b) =
        ⟨[.bracketed (comparison sign front back a b)], none⟩ ∧
      (((english folded).readFragment false (comparison sign front back a b)).result ≠ .error .tooDeep →
        ∃ c ca cb, ((english folded).readFragment false (comparison sign front back a b)).result = .ok c ∧
          ((english folded).readFragment false a).result = .ok ca ∧
          ((english folded).readFragment false b).result = .ok cb ∧
          c.attrs.id = some (comparisonSpec sign) ∧ c.attrs.category = some .operators ∧
          c.attrs.shape = some .boolean ∧ c.arguments = [ca, cb]) := by
  have hrule := english_sparesBrackets folded
  refine ⟨tokenize_enclosed_comparison hrule ha hb hsign front back, fun hdeep => ?_⟩
  obtain ⟨front, rfl⟩ : ∃ n, front = n + 1 := ⟨front - 1, by omega⟩
  have hblock := isBlock_comparison ha hb hsign (front + 1) back
  have hshape := placeShape_comparison hrule ha hb hsign (front + 1) back
  have hargs := (specOf_comparison hrule ha hb hsign front back).2
  have hsplit := split_comparison hrule ha hb hsign front back
  -- it is identified, and drawn with a slot for each operand
  obtain ⟨attrs, text, hidentify, hform⟩ := hblock.exists_form (english_drawable folded)
  rw [hargs] at hform
  obtain ⟨f, hf, hid, hcategory, hboolean, hflag⟩ := @identify_comparison folded _ hsign front back [a, b]
  rw [hsplit, hargs, hshape, hf] at hidentify
  cases hidentify
  have hslots := length_le_of_block (List.forall_mem_singleton.2 englishPack_keepsSlots)
    (Lexicon.english_eq_ofPacks folded ▸ hform)
  obtain ⟨c, hc⟩ := exists_read (english_drawable folded) hdeep
  -- there are no overrides, so the attributes are those of the block that is known
  have hattrs : attrs = c.attrs := by
    have hread := attrs?_of_readFragment hc
    rw [hform, hsplit] at hread
    exact Option.some.inj hread
  subst hattrs
  have hnested := arguments_of_block hform hslots hc
  -- no ring is drawn around the operands
  have hunringed : c.attrs.flag ≠ some .ring := by
    intro hring
    cases hflag.symm.trans hring
  simp only [if_neg hunringed, List.forall₂_cons_left_iff, List.forall₂_nil_left_iff] at hnested
  obtain ⟨ca, _, ⟨_, hca, rfl⟩, ⟨cb, _, ⟨_, hcb, rfl⟩, rfl, rfl⟩, hpair⟩ := hnested
  exact ⟨c, ca, cb, hc, readFragment_of_ok hca, readFragment_of_ok hcb, hid, hcategory, hboolean, hpair⟩

/-- A sign between a comparison and a text with signs. -/
theorem english_read_comparison_nested :
    IsOperand (english true).signRule "(<(1) < [v]>)".toList ∧
      IsOperand (english true).signRule "[a < b]".toList ∧
      tokenize (english true).signRule "<(<(1) < [v]>)  >[a < b]>".toList =
        ⟨[.bracketed "<(<(1) < [v]>)  >[a < b]>".toList], none⟩ ∧
      ∃ c ca cb,
        ((english true).readFragment false "<(<(1) < [v]>)  >[a < b]>".toList).result = .ok c ∧
        ((english true).readFragment false "(<(1) < [v]>)".toList).result = .ok ca ∧
        ((english true).readFragment false "[a < b]".toList).result = .ok cb ∧
        c.attrs.id = some "_ > _".toList ∧ c.attrs.category = some .operators ∧
        c.attrs.shape = some .boolean ∧ c.arguments = [ca, cb] := by
  have ha : IsOperand (english true).signRule "(<(1) < [v]>)".toList :=
    ⟨by decide, by decide +kernel⟩
  have hb : IsOperand (english true).signRule "[a < b]".toList := ⟨by decide, by decide +kernel⟩
  have hread := english_read_comparison ha hb (.inr rfl) (by decide : 0 < 2) 0
  have htext : comparison '>' 2 0 "(<(1) < [v]>)".toList "[a < b]".toList =
      "<(<(1) < [v]>)  >[a < b]>".toList := by
    decide
  rw [htext] at hread
  exact ⟨ha, hb, hread.1, hread.2 (Fragment.read_ne_tooDeep (by decide))⟩

end Vocabulary

end BlockScript
