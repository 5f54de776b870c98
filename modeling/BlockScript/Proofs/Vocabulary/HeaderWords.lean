import BlockScript.Proofs.Text.Sigma
import BlockScript.Proofs.Vocabulary.Blanks

/-!
# Words that start headers

A word that starts headers is kept trimmed and in lower case, and what is kept serves two purposes: its
length says how much of a text is compared, and its key says with what. The length is that of the word as
written unless there is a capital I with a dot above in it, and the key is that of the word as written unless
punctuation next to a capital sigma makes a difference. In these two cases the word does not start the headers
that are written with it, unless another word does.

## Key results

- `header?_ne_none_iff`: which texts are headers
- `Heads.append`, `Heads.of_append`: only the beginning of a text matters
- `startsHeaders_iff`: which words of a pack start the headers that are written with them
-/

namespace BlockScript

namespace Vocabulary

variable {v : Vocabulary} {k w : Text}

/-- Whether a word heads a text: the text goes on with a space behind as many characters as the word has, if
    at all, and these have the key of the word. -/
structure Heads (v : Vocabulary) (k t : Text) : Prop where
  apart : (t.drop k.length).head?.all (· == ' ') = true
  alike : v.key (t.take k.length) = v.key k

/-- A text is a `header?` just if one of the words `Heads` it. -/
theorem header?_ne_none_iff {t : Text} : v.header? t ≠ none ↔ ∃ k ∈ v.headerWords, v.Heads k t := by
  rw [ne_eq, header?, List.find?_eq_none]
  simp only [Bool.and_eq_true, beq_iff_eq, not_forall, Decidable.not_not]
  constructor
  · rintro ⟨k, hk, hapart, halike⟩
    exact ⟨k, hk, hapart, halike⟩
  · rintro ⟨k, hk, hheads⟩
    exact ⟨k, hk, hheads.apart, hheads.alike⟩

/-- What `Heads` a text heads it also when more follows behind a space. -/
theorem Heads.append (h : v.Heads k w) (hlength : k.length ≤ w.length) (rest : Text) :
    v.Heads k (w ++ ' ' :: rest) := by
  constructor
  · rw [List.drop_append_of_le_length hlength]
    cases hdrop : w.drop k.length with
    | nil => rfl
    | cons c back =>
      have hapart := h.apart
      rwa [hdrop] at hapart
  · rw [List.take_append_of_le_length hlength]
    exact h.alike

/-- The other way round too, if what heads the longer text is no longer than the text in front. -/
theorem Heads.of_append {rest : Text} (h : v.Heads k (w ++ ' ' :: rest)) (hlength : k.length ≤ w.length) :
    v.Heads k w := by
  have hapart := h.apart
  have halike := h.alike
  rw [List.drop_append_of_le_length hlength] at hapart
  rw [List.take_append_of_le_length hlength] at halike
  refine ⟨?_, halike⟩
  cases hdrop : w.drop k.length with
  | nil => rfl
  | cons c back => rwa [hdrop] at hapart

/-- A word that is longer than the text in front ends in the rest, and the rest has no space there. -/
private theorem length_le_of_heads {n : Nat} (h : v.Heads k (w ++ ' ' :: List.replicate n 'x'))
    (hn : k.length ≤ n) :
    k.length ≤ w.length := by
  by_contra hlong
  have hnext : ((w ++ [' ']) ++ List.replicate n 'x')[k.length]? = some 'x' := by
    have hfront : (w ++ [' ']).length = w.length + 1 := List.length_append
    rw [List.getElem?_append_right (by omega), List.getElem?_replicate, if_pos (by omega)]
  have hapart := h.apart
  rw [List.head?_drop, List.append_cons, hnext] at hapart
  exact absurd hapart (by decide)

/-- Whether a word starts headers, both by itself and with anything behind a space. -/
def StartsHeaders (v : Vocabulary) (w : Text) : Prop :=
  v.header? w ≠ none ∧ ∀ rest, v.header? (w ++ ' ' :: rest) ≠ none

/-- A word starts headers just if a word that is kept heads it and is no longer. -/
private theorem startsHeaders_iff_heads :
    v.StartsHeaders w ↔ ∃ k ∈ v.headerWords, k.length ≤ w.length ∧ v.Heads k w := by
  constructor
  · rintro ⟨-, hrest⟩
    -- a rest without spaces that is longer than all words
    obtain ⟨n, hn⟩ : ∃ n, ∀ k ∈ v.headerWords, k.length ≤ n :=
      ⟨v.headerWords.flatten.length, fun k hk => (List.sublist_flatten_of_mem hk).length_le⟩
    obtain ⟨k, hk, hheads⟩ := header?_ne_none_iff.1 (hrest (List.replicate n 'x'))
    have hlength := length_le_of_heads hheads (hn k hk)
    exact ⟨k, hk, hlength, hheads.of_append hlength⟩
  · rintro ⟨k, hk, hlength, hheads⟩
    exact ⟨header?_ne_none_iff.2 ⟨k, hk, hheads⟩, fun rest =>
      header?_ne_none_iff.2 ⟨k, hk, hheads.append hlength rest⟩⟩

/-- Whether lower-casing a word changes neither its length nor, punctuation aside, what becomes of its
    letters. -/
def IsSteady (w : Text) : Prop :=
  'İ' ∉ w ∧ Text.lower (w.filter fun c => !Text.isSilent c) =
    (Text.lower w).filter fun c => !Text.isSilent c

/-- The `lower` case of a word `Heads` the word and is no longer just if the word `IsSteady`. -/
theorem heads_lower_iff : ((Text.lower w).length ≤ w.length ∧ v.Heads (Text.lower w) w) ↔ IsSteady w := by
  have hlength := Text.length_lower w
  -- the dotted I is the one letter whose lower case is longer
  have hdotted : (Text.lower w).length ≤ w.length ↔ 'İ' ∉ w := by
    rw [← List.count_eq_zero]
    omega
  rw [hdotted, IsSteady, ← Text.key_lower_iff v.folded]
  -- without it the lower case is as long as the word, so all of the word is compared
  refine and_congr_right fun hnone => ?_
  rw [List.count_eq_zero.2 hnone, Nat.add_zero] at hlength
  constructor
  · intro hheads
    have halike := hheads.alike
    rwa [hlength, List.take_length] at halike
  · intro hkey
    refine ⟨?_, ?_⟩
    · rw [hlength, List.drop_length]
      rfl
    · rwa [hlength, List.take_length]

end Vocabulary

namespace Lexicon

open Vocabulary (IsSteady)

/-- After any `history` of loads and resets, a word of an `accepted` pack that is not blank is kept in lower
    case. It `StartsHeaders` that are written with it, alone or with anything behind a space, just if it
    `IsSteady` or another word that is kept `Heads` it and is no longer; and it is steady if there is neither
    a capital I with a dot above nor a capital sigma in it. -/
theorem startsHeaders_iff (folded : Bool) (actions : List Action) {p : Pack} (hp : p ∈ accepted actions)
    {s : Text} (hs : s ∈ p.headerWords) (hfilled : Text.trim s ≠ []) :
    Text.lower (Text.trim s) ∈ (history folded actions).current.headerWords ∧
      ((history folded actions).current.StartsHeaders (Text.trim s) ↔
        IsSteady (Text.trim s) ∨ ∃ k ∈ (history folded actions).current.headerWords,
          k ≠ Text.lower (Text.trim s) ∧ k.length ≤ (Text.trim s).length ∧
            (history folded actions).current.Heads k (Text.trim s)) ∧
      ('İ' ∉ Text.trim s → 'Σ' ∉ Text.trim s → IsSteady (Text.trim s)) := by
  have hkept : Text.lower (Text.trim s) ∈ (history folded actions).current.headerWords := by
    rw [history_current, Vocabulary.headerWords_ofPacks]
    refine List.mem_flatMap.2 ⟨p, hp, ?_⟩
    exact List.mem_map.2 ⟨s, List.mem_filter.2 ⟨hs, by simpa using hfilled⟩, rfl⟩
  refine ⟨hkept, ?_, fun hdotted hsigma => ⟨hdotted, Text.filter_lower_of_notMem hsigma⟩⟩
  rw [Vocabulary.startsHeaders_iff_heads,
    ← Vocabulary.heads_lower_iff (v := (history folded actions).current)]
  constructor
  · rintro ⟨k, hk, hlength, hheads⟩
    -- the word that heads it is its own lower case, or another one
    by_cases hself : k = Text.lower (Text.trim s)
    · rw [hself] at hlength hheads
      exact .inl ⟨hlength, hheads⟩
    · exact .inr ⟨k, hk, hself, hlength, hheads⟩
  · rintro (⟨hlength, hheads⟩ | ⟨k, hk, -, hlength, hheads⟩)
    · exact ⟨_, hkept, hlength, hheads⟩
    · exact ⟨k, hk, hlength, hheads⟩

/-- With `germanPack` loaded its word starts headers, though it has a capital letter, and so does the English
    word. -/
theorem startsHeaders_of_german :
    germanPack ∈ accepted [.load germanPack.toJson] ∧ "Definiere".toList ∈ germanPack.headerWords ∧
      Text.trim "Definiere".toList ≠ [] ∧
      (history true [.load germanPack.toJson]).current.StartsHeaders "Definiere".toList ∧
      (history true [.load germanPack.toJson]).current.StartsHeaders "define".toList := by
  have hread : Pack.ofJson germanPack.toJson = .ok germanPack := Pack.ofJson_toJson (by decide)
  have haccepted : accepted [.load germanPack.toJson] = [englishPack, germanPack] := by
    simp [accepted, List.rtakeWhile, Action.isReset, Action.pack?, hread, Except.toOption]
  have hgerman : germanPack ∈ accepted [.load germanPack.toJson] := by simp [haccepted]
  have henglish : englishPack ∈ accepted [.load germanPack.toJson] := by simp [haccepted]
  have hword : "Definiere".toList ∈ germanPack.headerWords := by decide
  have hfilled : Text.trim "Definiere".toList ≠ [] := by decide
  -- neither word has one of the two letters for which lower-casing is not harmless
  obtain ⟨-, hstarts, hsteady⟩ := startsHeaders_iff true _ hgerman hword hfilled
  obtain ⟨-, hstarts', hsteady'⟩ :=
    startsHeaders_iff true _ henglish (s := "define".toList) (by decide) (by decide)
  exact ⟨hgerman, hword, hfilled, hstarts.2 (.inl (hsteady (by decide) (by decide))),
    hstarts'.2 (.inl (hsteady' (by decide) (by decide)))⟩

/-- A pack with a capital I with a dot above in one word, and a comma behind a capital sigma in another. -/
def unsteadyPack : Pack where
  code := "xx".toList
  blocks := []
  headerWords := ["İlan".toList, "AΣ,B".toList]

/-- It is a valid pack and its words are kept, but the first one does not start the header `İlan x`, and the
    second one does not even start a header by itself. -/
theorem unsteady_words_lost :
    Pack.ofJson unsteadyPack.toJson = .ok unsteadyPack ∧
      ∃ v, (history true [.load unsteadyPack.toJson]).current = v ∧
        v.headerWords = ["define".toList, "i̇lan".toList, "aς,b".toList] ∧
        v.header? "İlan x".toList = none ∧ v.header? "AΣ,B".toList = none := by
  have hread : Pack.ofJson unsteadyPack.toJson = .ok unsteadyPack := Pack.ofJson_toJson (by decide)
  have hcurrent : (history true [.load unsteadyPack.toJson]).current =
      Vocabulary.ofPacks true [englishPack, unsteadyPack] := by
    rw [history_current, accepted]
    simp [List.rtakeWhile, Action.isReset, Action.pack?, hread, Except.toOption]
  -- one letter has become two, and the sigma is a final one in front of the comma
  have hwords : (Vocabulary.ofPacks true [englishPack, unsteadyPack]).headerWords =
      ["define".toList, "i̇lan".toList, "aς,b".toList] := by
    have henglish : Vocabulary.lowerWords englishPack.headerWords = ["define".toList] := by decide
    have hlower : Vocabulary.lowerWords unsteadyPack.headerWords = ["i̇lan".toList, "aς,b".toList] := by
      decide +kernel
    rw [Vocabulary.headerWords_ofPacks, List.flatMap_cons, List.flatMap_singleton, henglish, hlower]
    rfl
  refine ⟨hread, _, hcurrent, hwords, ?_, ?_⟩
  · simp only [Vocabulary.header?, hwords, Vocabulary.key, Vocabulary.ofPacks_folded]
    decide
  · simp only [Vocabulary.header?, hwords, Vocabulary.key, Vocabulary.ofPacks_folded]
    decide +kernel

end Lexicon

end BlockScript
