import BlockScript.Proofs.Vocabulary.History

/-!
# Blank keywords

A spec that has an empty key makes no entry in the index. Of the phrases of a pack only the empty ones are
left out, and of its header words the blank ones, before their keys are looked at; an alias is always
entered. But a text of punctuation is neither empty nor blank, and has an empty key. So such a text in a pack
is what it takes to get an empty keyword into a table, and with it a vocabulary in which every text starts
with a phrase, in which nothing is a header, or in which punctuation is a block.

## Key results

- `Vocabulary.nil_mem_keywords_iff`: when there is an empty key among the phrases of a kind
- `Vocabulary.takesSigns_forall_iff`, `Vocabulary.header?_nil_iff`: what an empty keyword does
- `Lexicon.blank_keywords_iff`: both, for all tables, after any loads and resets
-/

namespace BlockScript

namespace Vocabulary

/-! ## Empty keys in the tables -/

/-- There is an empty key in the `index` just if an alias of a known block has one. -/
private theorem index_nil_iff (folded : Bool) (ps : List Pack) :
    Dictionary.get? [] (ofPacks folded ps).index ≠ none ↔
      ∃ p ∈ ps, ∃ e ∈ p.aliases, isKnown e.2 = true ∧ Text.key folded (Text.padSlots e.1) = [] := by
  rw [index_ofPacks_eq, Dictionary.get?_ofList, ne_eq, Dictionary.lastWrite?_eq_none_iff]
  push Not
  constructor
  · rintro ⟨w, hw, hkey⟩
    obtain ⟨p, hp, hw⟩ := List.mem_flatMap.1 hw
    rcases List.mem_append.1 hw with hspec | halias
    · -- specs with an empty key are left out
      simp [hkey] at hspec
    · obtain ⟨e, he, rfl⟩ := List.mem_map.1 halias
      obtain ⟨hmem, hknown⟩ := List.mem_filter.1 he
      exact ⟨p, hp, e, hmem, hknown, hkey⟩
  · rintro ⟨p, hp, e, he, hknown, hkey⟩
    refine ⟨(Text.key folded (Text.padSlots e.1), (e.2, p.code)), ?_, hkey⟩
    exact List.mem_flatMap.2 ⟨p, hp, List.mem_append_right _
      (List.mem_map.2 ⟨e, List.mem_filter.2 ⟨he, hknown⟩, rfl⟩)⟩

/-- There is an empty `key` in a table of phrases just if a phrase of this kind in a pack has one and is not
    empty itself. -/
theorem nil_mem_keywords_iff {table : Vocabulary → List Text} {phrases : Pack → List Text} {folded : Bool}
    (hempty : table (empty folded) = [])
    (hadd : ∀ v p, table (v.add p) = table v ++ v.keysOf (phrases p)) (ps : List Pack) :
    [] ∈ table (ofPacks folded ps) ↔ ∃ p ∈ ps, ∃ t ∈ phrases p, t ≠ [] ∧ Text.key folded t = [] := by
  induction ps using List.reverseRecOn with
  | nil => simp [ofPacks, hempty]
  | append_singleton ps p ih =>
    have hlast : [] ∈ (ofPacks folded ps).keysOf (phrases p) ↔
        ∃ t ∈ phrases p, t ≠ [] ∧ Text.key folded t = [] := by
      simp [keysOf, key, and_assoc]
    rw [ofPacks_concat, hadd, List.mem_append, ih, hlast]
    simp [or_and_right, exists_or]

/-- The `headerWords` of packs are theirs in lower case, one pack after the other. -/
theorem headerWords_ofPacks (folded : Bool) (ps : List Pack) :
    (ofPacks folded ps).headerWords = ps.flatMap fun p => lowerWords p.headerWords := by
  induction ps using List.reverseRecOn with
  | nil => rfl
  | append_singleton ps p ih => simp [ofPacks_concat, add, ih]

/-- There is a header word with an empty key just if a header word of a pack has one when it is trimmed and
    in lower case, and is not blank. -/
private theorem exists_headerWord_iff (folded : Bool) (ps : List Pack) :
    (∃ w ∈ (ofPacks folded ps).headerWords, Text.key folded w = []) ↔
      ∃ p ∈ ps, ∃ w ∈ p.headerWords, Text.trim w ≠ [] ∧
        Text.key folded (Text.lower (Text.trim w)) = [] := by
  simp only [headerWords_ofPacks, lowerWords, List.mem_flatMap, List.mem_map, List.mem_filter]
  constructor
  · rintro ⟨_, ⟨p, hp, w, ⟨hw, hfilled⟩, rfl⟩, hkey⟩
    exact ⟨p, hp, w, hw, by simpa using hfilled, hkey⟩
  · rintro ⟨p, hp, w, hw, hfilled, hkey⟩
    exact ⟨_, ⟨p, hp, w, ⟨hw, by simpa using hfilled⟩, rfl⟩, hkey⟩

/-! ## What empty keywords do -/

@[simp] theorem key_nil (v : Vocabulary) : v.key [] = [] := by
  rw [key]
  cases v.folded <;> rfl

/-- For `takesSigns` every text starts with a phrase just if one of the phrases is empty. -/
theorem takesSigns_forall_iff (v : Vocabulary) : (∀ t, v.takesSigns t = true) ↔ [] ∈ v.signPhrases := by
  constructor
  · intro h
    have hnil := h []
    rw [takesSigns, key_nil, startsWithPhrase, List.any_eq_true] at hnil
    obtain ⟨phrase, hmem, hstarts⟩ := hnil
    obtain rfl := List.prefix_nil.1 (List.isPrefixOf_iff_prefix.1 hstarts)
    exact hmem
  · intro h t
    exact List.any_eq_true.2 ⟨[], h, List.isPrefixOf_iff_prefix.2 List.nil_prefix⟩

/-- Nothing at all is a `header?` just if a header word has an empty key. -/
theorem header?_nil_iff (v : Vocabulary) : v.header? [] ≠ none ↔ ∃ w ∈ v.headerWords, v.key w = [] := by
  rw [header?, ne_eq, List.find?_eq_none]
  push Not
  refine exists_congr fun w => and_congr_right fun _ => ?_
  rw [List.drop_nil, List.take_nil, List.head?_nil, Option.all_none, Bool.true_and, key_nil, beq_iff_eq,
    eq_comm]

/-- A vocabulary that keeps blank keywords as some packs have them: each of its tables has an empty keyword
    just if there is one in a pack that is taken for filled, and what it does is done by nothing else. -/
structure KeepsBlanks (v : Vocabulary) (ps : List Pack) : Prop where
  index : Dictionary.get? [] v.index ≠ none ↔
    ∃ p ∈ ps, ∃ e ∈ p.aliases, isKnown e.2 = true ∧ v.key (Text.padSlots e.1) = []
  signPhrases : [] ∈ v.signPhrases ↔ ∃ p ∈ ps, ∃ t ∈ p.signPhrases, t ≠ [] ∧ v.key t = []
  mathFunctions : [] ∈ v.mathFunctions ↔ ∃ p ∈ ps, ∃ t ∈ p.mathFunctions, t ≠ [] ∧ v.key t = []
  otherScripts : [] ∈ v.otherScripts ↔ ∃ p ∈ ps, ∃ t ∈ p.otherScripts, t ≠ [] ∧ v.key t = []
  headerWords : (∃ w ∈ v.headerWords, v.key w = []) ↔
    ∃ p ∈ ps, ∃ w ∈ p.headerWords, Text.trim w ≠ [] ∧ v.key (Text.lower (Text.trim w)) = []
  /-- Every text is taken for one in which `<` and `>` are text. -/
  takesSigns : (∀ t, v.takesSigns t = true) ↔ [] ∈ v.signPhrases
  /-- Nothing at all is taken for a header. -/
  header : v.header? [] ≠ none ↔ ∃ w ∈ v.headerWords, v.key w = []
  /-- A spec of punctuation is taken for a block. -/
  find : ∀ spec args, v.key spec = [] →
    (v.find? spec args ≠ .ok none ↔ Dictionary.get? [] v.index ≠ none)

end Vocabulary

namespace Lexicon

/-- After any `history` of loads and resets the vocabulary `KeepsBlanks`: there is an empty keyword in a table
    just if one of the `accepted` packs has a text for it that is not empty, and not blank if it starts
    headers, but has an empty key. Specs of blocks bring none into the index, but aliases do. -/
theorem blank_keywords_iff (folded : Bool) (actions : List Action) :
    (history folded actions).current.KeepsBlanks (accepted actions) := by
  rw [history_current]
  have hkey : ∀ t, (Vocabulary.ofPacks folded (accepted actions)).key t = Text.key folded t := by
    intro t
    rw [Vocabulary.key, Vocabulary.ofPacks_folded]
  -- table by table: a keyword is empty if the text it is made of leaves nothing in the key
  constructor
  · simp only [hkey]
    exact Vocabulary.index_nil_iff folded _
  · simp only [hkey]
    exact Vocabulary.nil_mem_keywords_iff rfl (fun _ _ => rfl) _
  · simp only [hkey]
    exact Vocabulary.nil_mem_keywords_iff rfl (fun _ _ => rfl) _
  · simp only [hkey]
    exact Vocabulary.nil_mem_keywords_iff rfl (fun _ _ => rfl) _
  · simp only [hkey]
    exact Vocabulary.exists_headerWord_iff folded _
  · exact Vocabulary.takesSigns_forall_iff _
  · exact Vocabulary.header?_nil_iff _
  · intro spec args hspec
    rw [ne_eq, Vocabulary.find?_eq_none_iff, hspec]

/-- A pack with punctuation for keywords. -/
def punctuationPack : Pack where
  code := "xx".toList
  blocks := []
  aliases := [(['.'], "say _".toList)]
  headerWords := [['?']]
  signPhrases := [['.']]
  mathFunctions := [['.']]
  otherScripts := [['.']]

/-- It is a valid pack, and once it is loaded there is an empty keyword in every table: every text starts with
    a phrase after which signs are text, nothing at all is a header, and a full stop is a block. -/
theorem punctuation_loaded :
    Pack.ofJson punctuationPack.toJson = .ok punctuationPack ∧
      ∃ v, (history true [.load punctuationPack.toJson]).current = v ∧
        Dictionary.get? [] v.index ≠ none ∧ [] ∈ v.signPhrases ∧ [] ∈ v.mathFunctions ∧
        [] ∈ v.otherScripts ∧ (∃ w ∈ v.headerWords, v.key w = []) ∧
        (∀ t, v.takesSigns t = true) ∧ v.header? [] ≠ none ∧ v.find? ['.'] [] ≠ .ok none := by
  have hread : Pack.ofJson punctuationPack.toJson = .ok punctuationPack :=
    Pack.ofJson_toJson (by decide)
  have hcurrent : (history true [.load punctuationPack.toJson]).current =
      Vocabulary.ofPacks true [englishPack, punctuationPack] := by
    rw [history_current, accepted]
    simp [List.rtakeWhile, Action.isReset, Action.pack?, hread, Except.toOption]
  have hpack : punctuationPack ∈ [englishPack, punctuationPack] := List.mem_cons_of_mem _ List.mem_cons_self
  have hstop : Text.key true ['.'] = [] := by decide
  -- an alias, a sign phrase and a header word leave nothing, and neither do the other two lists
  have hindex : Dictionary.get? [] (Vocabulary.ofPacks true [englishPack, punctuationPack]).index ≠ none :=
    (Vocabulary.index_nil_iff true _).2
      ⟨_, hpack, (['.'], "say _".toList), List.mem_cons_self, by decide +kernel, by decide⟩
  have hsigns : [] ∈ (Vocabulary.ofPacks true [englishPack, punctuationPack]).signPhrases :=
    (Vocabulary.nil_mem_keywords_iff rfl (fun _ _ => rfl) _).2
      ⟨_, hpack, ['.'], List.mem_cons_self, by decide, hstop⟩
  have hwords : ∃ w ∈ (Vocabulary.ofPacks true [englishPack, punctuationPack]).headerWords,
      Text.key true w = [] :=
    (Vocabulary.exists_headerWord_iff true _).2
      ⟨_, hpack, ['?'], List.mem_cons_self, by decide, by decide⟩
  refine ⟨hread, _, hcurrent, hindex, hsigns, ?_, ?_, ?_, ?_, ?_, ?_⟩
  · exact (Vocabulary.nil_mem_keywords_iff rfl (fun _ _ => rfl) _).2
      ⟨_, hpack, ['.'], List.mem_cons_self, by decide, hstop⟩
  · exact (Vocabulary.nil_mem_keywords_iff rfl (fun _ _ => rfl) _).2
      ⟨_, hpack, ['.'], List.mem_cons_self, by decide, hstop⟩
  · simpa only [Vocabulary.key, Vocabulary.ofPacks_folded] using hwords
  · exact (Vocabulary.takesSigns_forall_iff _).2 hsigns
  · rw [Vocabulary.header?_nil_iff]
    simpa only [Vocabulary.key, Vocabulary.ofPacks_folded] using hwords
  · rw [ne_eq, Vocabulary.find?_eq_none_iff, Vocabulary.key, Vocabulary.ofPacks_folded, hstop]
    exact hindex

end Lexicon

end BlockScript
