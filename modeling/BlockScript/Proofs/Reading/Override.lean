import BlockScript.Proofs.Text.Key
import BlockScript.Reading.Override
import BlockScript.Text.KeyPrefix

/-!
# Words behind two colons

The overrides of a spec are the words behind its last two colons, if nothing else is there and no line
breaks in front. Without them the spec is what it is in front of the colons, less the blanks at the end. Of
the words that name a category the last one counts, and so do the last flag and the last shape.

## Key results

- `Override.split_append`, `Override.split_eq_self_of_not`: which specs have overrides, and what is left of them
- `Override.count_split`: all slots are left
- `Override.applyAll_ofWord_category`, `Override.applyAll_ofWord_flag`, `Override.applyAll_ofWord_shape`: what
  words set
-/

namespace BlockScript

namespace Override

/-! ## Splitting -/

/-- Whether a spec ends in two colons and words, with no line break in front of them. -/
def HasWords (spec : Text) : Prop :=
  ∃ front tail, spec = front ++ "::".toList ++ tail ∧ '\n' ∉ front ∧ ∀ c ∈ tail, isWordChar c = true

/-- `split` gives for such a spec what stands in front of the colons, and the words behind them. -/
theorem split_append {front tail : Text} (hfront : '\n' ∉ front) (htail : ∀ c ∈ tail, isWordChar c = true) :
    split (front ++ "::".toList ++ tail) = (Text.trimRight front, Text.words tail) := by
  have hback : (front ++ "::".toList ++ tail).reverse = tail.reverse ++ ':' :: ':' :: front.reverse := by
    simp
  have htail' : ∀ c ∈ tail.reverse, isWordChar c = true := by simpa using htail
  have hcolon : isWordChar ':' = false := by decide
  have hdrop : (front ++ "::".toList ++ tail).reverse.dropWhile isWordChar = ':' :: ':' :: front.reverse := by
    rw [hback, List.dropWhile_append_of_pos htail', List.dropWhile_cons_of_neg (by simp [hcolon])]
  have htake : (front ++ "::".toList ++ tail).reverse.takeWhile isWordChar = tail.reverse := by
    rw [hback, List.takeWhile_append_of_pos htail', List.takeWhile_cons_of_neg (by simp [hcolon]),
      List.append_nil]
  have hbreak : front.reverse.contains '\n' = false := by simpa using hfront
  simp only [split, hdrop, htake, hbreak, Bool.false_eq_true, if_false, List.reverse_reverse]

/-- `split` leaves any other spec as it is. -/
theorem split_eq_self_of_not {spec : Text} (h : ¬ HasWords spec) : split spec = (spec, []) := by
  unfold split
  dsimp only
  split
  · rename_i front hfront
    split
    · rfl
    · rename_i hbreak
      -- what is split off would be the words of a spec that has words
      refine absurd ⟨front.reverse, (spec.reverse.takeWhile isWordChar).reverse, ?_, ?_, ?_⟩ h
      · have hspec := List.takeWhile_append_dropWhile (p := isWordChar) (l := spec.reverse)
        rw [hfront] at hspec
        simpa using (congrArg List.reverse hspec).symm
      · simpa using hbreak
      · intro c hc
        exact List.mem_takeWhile_imp (List.mem_reverse.1 hc)
  · rfl

/-- A spec that `HasWords` behind it has two colons. -/
theorem HasWords.isInfix {spec : Text} (h : HasWords spec) : "::".toList <:+: spec := by
  obtain ⟨front, tail, hspec, -, -⟩ := h
  exact ⟨front, tail, hspec.symm⟩

/-- `split` finds no overrides in a spec without two colons in a row. -/
theorem split_eq_self {spec : Text} (h : ¬ "::".toList <:+: spec) : split spec = (spec, []) :=
  split_eq_self_of_not fun hwords => h hwords.isInfix

/-- What `split` leaves without overrides is what the spec starts with. -/
theorem split_isPrefix (spec : Text) : (split spec).1 <+: spec := by
  by_cases h : HasWords spec
  · obtain ⟨front, tail, rfl, hfront, htail⟩ := h
    rw [split_append hfront htail, List.append_assoc]
    exact (Text.trimRight_isPrefix_self front).trans (List.prefix_append _ _)
  · simp only [split_eq_self_of_not h, List.prefix_rfl]

/-- The words that `split` takes off take no slots with them. -/
theorem count_split (spec : Text) : (split spec).1.count '_' = spec.count '_' := by
  by_cases h : HasWords spec
  · obtain ⟨front, tail, rfl, hfront, htail⟩ := h
    have hcolons : "::".toList.count '_' = 0 := by decide
    have hwords : tail.count '_' = 0 :=
      List.count_eq_zero.2 fun hmem => absurd (htail _ hmem) (by decide)
    rw [split_append hfront htail, Text.count_trimRight (by decide), List.count_append, List.count_append,
      hcolons, hwords, Nat.add_zero]
  · rw [split_eq_self_of_not h]

/-! ## Words behind a line -/

/-- Two colons and words, as they are written behind a line. -/
def suffix (words : List Text) : Text := " :: ".toList ++ [' '].intercalate words

/-- Whether a text can be a word behind two colons: there are letters and lines in it, and nothing else. -/
structure IsWord (word : Text) : Prop where
  filled : word ≠ []
  letters : ∀ c ∈ word, c.isAlpha = true ∨ c = '-'

instance (word : Text) : Decidable (IsWord word) :=
  decidable_of_iff (word ≠ [] ∧ word.all (fun c => c.isAlpha || c == '-') = true)
    ⟨fun ⟨hfilled, hletters⟩ => ⟨hfilled, by simpa using hletters⟩,
      fun h => ⟨h.filled, by simpa using h.letters⟩⟩

section

variable {words : List Text} (h : ∀ word ∈ words, IsWord word)

include h

/-- Between words there are spaces, so all characters of words that are joined are `isWordChar`. -/
theorem isWordChar_of_mem_intercalate : ∀ c ∈ [' '].intercalate words, isWordChar c = true := by
  have hword : ∀ word ∈ words, ∀ c ∈ word, isWordChar c = true := by
    intro word hmem c hc
    rcases (h word hmem).letters c hc with halpha | rfl
    · simp [isWordChar, halpha]
    · rfl
  -- the induction only needs what the characters are
  clear h
  induction words with
  | nil => simp
  | cons word words ih =>
    obtain ⟨hfirst, hlater⟩ := List.forall_mem_cons.1 hword
    cases words with
    | nil => simpa using hfirst
    | cons next words =>
      rw [List.intercalate_cons_cons]
      exact List.forall_mem_append.2 ⟨List.forall_mem_append.2 ⟨hfirst, by simp [isWordChar]⟩, ih hlater⟩

/-- What is written behind a line is colons, letters, lines and spaces. -/
theorem isWordChar_of_mem_suffix : ∀ c ∈ "::".toList ++ ' ' :: [' '].intercalate words,
    c = ':' ∨ isWordChar c = true := by
  refine List.forall_mem_append.2 ⟨fun c hc => .inl (by simpa using hc), fun c hc => .inr ?_⟩
  rcases List.mem_cons.1 hc with rfl | hc
  · rfl
  · exact isWordChar_of_mem_intercalate h c hc

/-- The words behind the colons are those that are written there. -/
theorem words_intercalate : Text.words (' ' :: [' '].intercalate words) = words := by
  have hspace : ∀ word ∈ words, word ≠ [] ∧ ' ' ∉ word := by
    intro word hmem
    refine ⟨(h word hmem).filled, fun hmem' => ?_⟩
    rcases (h word hmem).letters ' ' hmem' with halpha | hline
    · exact absurd halpha (by decide)
    · exact absurd hline (by decide)
  calc Text.words (' ' :: [' '].intercalate words) = Text.words ([' '].intercalate words) := by
        rw [Text.words, Text.splitAt]
        simp [Text.words]
    _ = words := Text.words_intercalate hspace

/-- The suffix `IsTight`, as neither colons nor words have blanks at their ends. -/
theorem isTight_suffix (hfilled : words ≠ []) :
    Text.IsTight ("::".toList ++ ' ' :: [' '].intercalate words) where
  filled := by simp
  first := rfl
  last := by
    -- the words are filled, so the last character is one of the last word
    obtain ⟨front, last, rfl⟩ := (List.eq_nil_or_concat' words).resolve_left hfilled
    have hword : IsWord last := h last (by simp)
    obtain ⟨c, hc⟩ := Option.ne_none_iff_exists'.1 (mt List.getLast?_eq_none_iff.1 hword.filled)
    have hlast := Text.getLast?_intercalate [' '] front hword.filled
    rw [hc] at hlast
    rw [List.getLast?_append_of_ne_nil _ (List.cons_ne_nil _ _), List.getLast?_cons, hlast]
    rcases hword.letters c (List.mem_of_getLast? hc) with halpha | rfl
    · exact Text.isBlank_of_isAlpha halpha
    · rfl

end

/-! ## Meanings of words -/

/-- A word that names a `flag` names no category. -/
private theorem ofWord_of_flag? {word : Text} {f : Flag} (h : flag? word = some f) :
    ofWord word = .flag f := by
  have hname : f.name = word := by simpa using List.find?_some h
  have hcategory : ∀ f ∈ Flag.standard, category? f.name = none := by decide +kernel
  rw [ofWord, ← hname, hcategory f (List.mem_of_find?_eq_some h), hname, h]

/-- A word that names a `shape` names no category and no flag. -/
private theorem ofWord_of_shape? {word : Text} {s : Shape} (h : shape? word = some s) :
    ofWord word = .shape s := by
  have hname : s.name = word := by simpa using List.find?_some h
  have hother : ∀ s ∈ shapes, category? s.name = none ∧ flag? s.name = none := by decide +kernel
  obtain ⟨hcategory, hflag⟩ := hother s (List.mem_of_find?_eq_some h)
  rw [ofWord, ← hname, hcategory, hflag, hname, h]

/-- Whether a word means nothing. -/
def isUnknown (word : Text) : Bool := (category? word).isNone && (flag? word).isNone && (shape? word).isNone

/-- A word `isUnknown` just if the override of it complains. -/
theorem unknownWord?_ofWord (word : Text) :
    (ofWord word).unknownWord? = if isUnknown word then some word else none := by
  unfold ofWord isUnknown
  cases category? word with
  | some c => rfl
  | none =>
    cases flag? word with
    | some f => rfl
    | none => cases shape? word <;> rfl

/-- What words set is set by the last one of those that say something about it. -/
private theorem applyAll_ofWord {α : Type} (get : Attrs → Option α) (named? : Text → Option α)
    (hword : ∀ word a, get (apply a (ofWord word)) = (named? word).or (get a)) (words : List Text)
    (a : Attrs) :
    get (applyAll (words.map .ofWord) a) = ((words.filterMap named?).getLast?).or (get a) := by
  -- words are applied from the left, so the one that counts is at the end
  induction words using List.reverseRecOn with
  | nil => rfl
  | append_singleton words word ih =>
    have hlast : applyAll ((words ++ [word]).map .ofWord) a =
        apply (applyAll (words.map .ofWord) a) (.ofWord word) := by
      simp [applyAll, List.foldl_append]
    rw [hlast, hword, List.filterMap_append, List.filterMap_cons, List.filterMap_nil]
    cases hnamed : named? word with
    | some c => simp
    | none => simp [ih]

/-- The `category` that words set is that of the last one that names a category. -/
theorem applyAll_ofWord_category (words : List Text) (a : Attrs) :
    (applyAll (words.map .ofWord) a).category =
      ((words.filterMap category?).getLast?).or a.category := by
  refine applyAll_ofWord (·.category) category? (fun word a => ?_) words a
  cases hcategory : category? word with
  | some c => simp [ofWord, hcategory, apply]
  | none =>
    simp only [ofWord, hcategory]
    cases flag? word <;> cases shape? word <;> rfl

/-- The `flag` that words set is that of the last one that names a flag. -/
theorem applyAll_ofWord_flag (words : List Text) (a : Attrs) :
    (applyAll (words.map .ofWord) a).flag = ((words.filterMap flag?).getLast?).or a.flag := by
  refine applyAll_ofWord (·.flag) flag? (fun word a => ?_) words a
  cases hflag : flag? word with
  | some f => simp [ofWord_of_flag? hflag, apply]
  | none =>
    simp only [ofWord, hflag]
    cases category? word <;> cases shape? word <;> rfl

/-- The `shape` that words set is that of the last one that names a shape. -/
theorem applyAll_ofWord_shape (words : List Text) (a : Attrs) :
    (applyAll (words.map .ofWord) a).shape = ((words.filterMap shape?).getLast?).or a.shape := by
  refine applyAll_ofWord (·.shape) shape? (fun word a => ?_) words a
  cases hshape : shape? word with
  | some s => simp [ofWord_of_shape? hshape, apply]
  | none =>
    simp only [ofWord, hshape]
    cases category? word <;> cases flag? word <;> rfl

/-- The words that set something say it. -/
theorem exists_of_getLast?_filterMap {α : Type} {named? : Text → Option α} {words : List Text} {x : α}
    (h : (words.filterMap named?).getLast? = some x) : ∃ word ∈ words, named? word = some x :=
  List.mem_filterMap.1 (List.mem_of_getLast? h)

/-- `applyAll` keeps the shape of a block among those that words can give. -/
theorem applyAll_shape_mem (words : List Text) {a : Attrs}
    (h : ∀ shape, a.shape = some shape → shape ∈ shapes) :
    ∀ shape, (applyAll (words.map .ofWord) a).shape = some shape → shape ∈ shapes := by
  intro shape hshape
  rw [applyAll_ofWord_shape, Option.or_eq_some_iff] at hshape
  rcases hshape with hlast | ⟨-, hown⟩
  · obtain ⟨word, -, hword⟩ := exists_of_getLast?_filterMap hlast
    exact List.mem_of_find?_eq_some hword
  · exact h shape hown

/-- Overrides set the `category`, the shape and the flag alone. -/
theorem applyAll_eq (overrides : List Override) (a : Attrs) :
    applyAll overrides a =
      { a with
        category := (applyAll overrides a).category
        shape := (applyAll overrides a).shape
        flag := (applyAll overrides a).flag } := by
  unfold applyAll
  induction overrides generalizing a with
  | nil => rfl
  | cons o rest ih =>
    rw [List.foldl_cons, ih (o.apply a)]
    cases o <;> rfl

end Override

end BlockScript
