import BlockScript.Proofs.Reading.Pieces
import BlockScript.Proofs.Token.Trailing

/-!
# Words behind a line

Words behind two colons at the end of a line are the overrides of its block, and nothing else of the block
changes: it has the same spec and the same arguments. There is one exception. Text that starts with a
less-than sign is taken for an argument, also where the sign is a comparison. If a line ends in such text the
words are part of it.

## Key results

- `Fragment.exists_ends`: what text behind a line makes of its last piece
- `Fragment.split_suffix`: words behind a line are its overrides
- `Fragment.split_suffix_of_sign`: behind a sign they are none
-/

namespace BlockScript

/-! ## Trimming -/

namespace Text

variable {t u : Text} (hbreak : '\n' ∉ t) (hu : IsTight u)

include hbreak hu

/-- Text behind a space keeps the blanks in front of it from being trimmed. -/
private theorem exists_trimRight_append_space :
    ∃ gap, (∀ c ∈ gap, isBlank c = true ∧ c ≠ '\n') ∧
      trimRight (t ++ ' ' :: u) = trimRight t ++ (gap ++ u) := by
  obtain ⟨trail, ht, htrail⟩ := exists_eq_trimRight t
  -- what stands behind ends in no blank, so there is nothing to trim
  have hself : trimRight (t ++ ' ' :: u) = t ++ ' ' :: u := by
    have hlast : (t ++ ' ' :: u).getLast?.any isBlank = false := by
      rw [List.getLast?_append_of_ne_nil _ (List.cons_ne_nil _ _), List.getLast?_cons_of_ne_nil hu.filled]
      exact hu.last
    have happend : trimRight ((t ++ ' ' :: u) ++ []) = (t ++ ' ' :: u) ++ trimRight [] :=
      trimRight_append hlast (by simp)
    simpa [trimRight] using happend
  refine ⟨trail ++ [' '], List.forall_mem_append.2 ⟨fun c hc => ⟨htrail c hc, ?_⟩, by simp [isBlank]⟩, ?_⟩
  · rintro rfl
    exact hbreak (ht ▸ List.mem_append_right _ hc)
  · rw [hself]
    conv_lhs => rw [ht]
    simp

/-- If nothing but blanks is in front of it, they are all trimmed. -/
private theorem exists_trim_append_space :
    ∃ gap, (∀ c ∈ gap, isBlank c = true ∧ c ≠ '\n') ∧ trim (t ++ ' ' :: u) = trim t ++ (gap ++ u) := by
  obtain ⟨gap, hgap, hright⟩ := exists_trimRight_append_space hbreak hu
  -- in front of a blank line the gap is trimmed away with it
  by_cases hblank : trim t = []
  · refine ⟨[], by simp, ?_⟩
    have hlead : ∀ c ∈ t ++ [' '], isBlank c = true :=
      List.forall_mem_append.2 ⟨isBlank_of_trim_eq_nil hblank, by simp [isBlank]⟩
    rw [List.append_cons, trim_append_left _ _ hlead, hu.trim_eq_self, hblank]
    rfl
  · refine ⟨gap, hgap, ?_⟩
    rw [← trimLeft_trimRight, hright, ← trimLeft_trimRight t]
    rw [← trimLeft_trimRight] at hblank
    rw [trimLeft, List.dropWhile_append, if_neg (by simpa [trimLeft] using hblank)]
    rfl

end Text

namespace Fragment

/-! ## The end of a line -/

/-- Whether a line ends in text that is taken for an argument, as it starts with a less-than sign. -/
def EndsInSign (v : Vocabulary) (line : Text) : Prop :=
  ∃ t, (tokenize v.signRule line).tokens.getLast? = some (.literal t) ∧
    ∃ p, (piecesIn v true line).getLast? = some p ∧ (Bracket.leading? p).isSome = true

/-- `argumentsOf` goes piece by piece. -/
private theorem argumentsOf_append (pieces pieces' : List Text) :
    argumentsOf (pieces ++ pieces') = argumentsOf pieces ++ argumentsOf pieces' := by
  simp [argumentsOf]

/-- A piece without a bracket in front is no argument. -/
private theorem argumentsOf_literal {p : Text} (h : Bracket.leading? p = none) : argumentsOf [p] = [] := by
  simp [argumentsOf, h]

/-- What pieces say ends in a slot or in text, which may have been trimmed. -/
private theorem trimmed_written {front : List Text} {last : Text}
    (hfront : (written front).getLast?.any Text.isBlank = false)
    (hlast : last.getLast?.any Text.isBlank = false) :
    (written (front ++ [last])).getLast?.any Text.isBlank = false := by
  rw [written_append]
  cases hleading : Bracket.leading? last with
  | some b =>
    rw [written_argument (by rw [hleading]; rfl), List.getLast?_concat]
    rfl
  | none =>
    rw [written_literal hleading]
    cases last with
    | nil => rwa [List.append_nil]
    | cons c last => rwa [List.getLast?_append_of_ne_nil _ (List.cons_ne_nil _ _)]

/-- The last piece of a line, which may be empty, and what text behind a space makes of it. -/
structure Ends (v : Vocabulary) (line u : Text) (front : List Text) (last gap : Text) : Prop where
  spec : written (piecesIn v true line) = written (front ++ [last])
  arguments : argumentsIn v true line = argumentsOf (front ++ [last])
  longer : piecesIn v true (line ++ ' ' :: u) = front ++ [last ++ (gap ++ u)]
  blank : ∀ c ∈ gap, Text.isBlank c = true ∧ c ≠ '\n'
  trimmed : (written (front ++ [last])).getLast?.any Text.isBlank = false
  sign : (Bracket.leading? last).isSome = true ↔ EndsInSign v line

/-- Pieces that end in an argument are trimmed in front alone, also if there is a last piece behind it. -/
private theorem exists_trimEnds_concat (ts : List Text) {arg : Text} (harg : Text.IsTight arg) :
    ∃ front, trimEnds (ts ++ [arg]) = front ++ [arg] ∧
      ∀ last, trimEnds (ts ++ [arg, last]) = front ++ [arg, Text.trimRight last] := by
  cases ts with
  | nil =>
    refine ⟨[], ?_, fun last => ?_⟩
    · simp [trimEnds, harg.trim_eq_self]
    · simpa [harg.trimLeft_eq_self] using trimEnds_concat arg [] last
  | cons t ts =>
    refine ⟨Text.trimLeft t :: ts, ?_, fun last => ?_⟩
    · rw [trimEnds_concat, harg.trimRight_eq_self, List.cons_append]
    · have happend := trimEnds_concat t (ts ++ [arg]) last
      simpa using happend

/-- The pieces of a line are the texts of its `tokens`, trimmed at the ends. -/
private theorem piecesIn_of_texts {v : Vocabulary} {line : Text} {texts : List Text}
    (h : (tokenize v.signRule line).tokens.map Token.text = texts) : piecesIn v true line = trimEnds texts :=
  congrArg trimEnds h

section

variable {v : Vocabulary} {line u : Text} (hbreak : '\n' ∉ line)
  (hclosed : (tokenize v.signRule line).unclosed = none) (hu : Text.IsTight u)
  (hplain : ∀ c ∈ u, Bracket.isPlain c = true)

include hclosed hplain in
/-- With a space and plain text behind it, a line has the `tokens` that it had, and the last one goes on if it
    is literal. -/
private theorem tokenize_append_space : tokenize v.signRule (line ++ ' ' :: u) =
    ⟨Token.trail (' ' :: u) (tokenize v.signRule line).tokens, none⟩ := by
  have hspace : ∀ c ∈ ' ' :: u, Bracket.isPlain c = true := List.forall_mem_cons.2 ⟨rfl, hplain⟩
  exact v.tokenize_append_plain hclosed hspace (List.cons_ne_nil _ _)

include hbreak hclosed hu hplain

/-- A line that is one literal token. -/
private theorem exists_ends_of_literal {t : Text}
    (htokens : (tokenize v.signRule line).tokens = [.literal t]) :
    ∃ gap, Ends v line u [] (Text.trim t) gap := by
  have htexts : (tokenize v.signRule line).tokens.map Token.text = [t] := by rw [htokens]; rfl
  have hpieces : piecesIn v true line = [Text.trim t] := piecesIn_of_texts htexts
  -- a single token is all of the line
  have hline : line = t := by
    have hflatten := flatten_texts_tokenize v.signRule line
    rw [Tokens.texts, htokens] at hflatten
    simpa [Token.text] using hflatten.symm
  obtain ⟨gap, hgap, htrim⟩ := Text.exists_trim_append_space (hline ▸ hbreak) hu
  refine ⟨gap, ⟨by rw [hpieces, List.nil_append], by rw [argumentsIn, hpieces, List.nil_append], ?_, hgap, ?_, ?_⟩⟩
  · have htexts : (tokenize v.signRule (line ++ ' ' :: u)).tokens.map Token.text = [t ++ ' ' :: u] := by
      rw [tokenize_append_space hclosed hplain, htokens]
      rfl
    rw [piecesIn_of_texts htexts, trimEnds, htrim]
    rfl
  · exact trimmed_written rfl (Text.isBlank_of_trim_eq_self (Text.trim_trim t)).2
  · simp [EndsInSign, htokens, hpieces]

omit hbreak in
/-- A line without tokens. -/
private theorem ends_of_nil (htokens : (tokenize v.signRule line).tokens = []) :
    Ends v line u [] [] [] := by
  have htexts : (tokenize v.signRule line).tokens.map Token.text = [] := by rw [htokens]; rfl
  have hpieces : piecesIn v true line = [] := piecesIn_of_texts htexts
  refine ⟨by rw [hpieces]; rfl, by rw [argumentsIn, hpieces]; rfl, ?_, by simp, rfl, ?_⟩
  · have htexts : (tokenize v.signRule (line ++ ' ' :: u)).tokens.map Token.text = [' ' :: u] := by
      rw [tokenize_append_space hclosed hplain, htokens]
      rfl
    -- the space in front is trimmed away
    have htrim : Text.trim (' ' :: u) = u := by
      have hspace := Text.trim_append_left [' '] u (by simp [Text.isBlank])
      exact hspace.trans hu.trim_eq_self
    rw [piecesIn_of_texts htexts, trimEnds, htrim]
    rfl
  · simp [EndsInSign, htokens, Bracket.leading?]

omit hclosed hplain in
/-- A line with an argument in front of its last text. It makes no difference whether that is there if it is
    empty. -/
private theorem exists_ends_of_argument {ts : List Text} {arg t : Text} (harg : Text.IsTight arg)
    (hslot : (Bracket.leading? arg).isSome = true) (ht : ∀ c ∈ t, c ∈ line)
    (hpieces : piecesIn v true line = trimEnds (ts ++ [arg, t]) ∨
      t = [] ∧ piecesIn v true line = trimEnds (ts ++ [arg]))
    (hlonger : piecesIn v true (line ++ ' ' :: u) = trimEnds (ts ++ [arg, t ++ ' ' :: u]))
    (hsign : (Bracket.leading? (Text.trimRight t)).isSome = true ↔ EndsInSign v line) :
    ∃ front gap, Ends v line u front (Text.trimRight t) gap := by
  obtain ⟨front, hlone, htrim⟩ := exists_trimEnds_concat ts harg
  obtain ⟨gap, hgap, hright⟩ := Text.exists_trimRight_append_space (fun hmem => hbreak (ht _ hmem)) hu
  -- an empty text behind the argument is written as nothing and is no argument
  have hwritten : written (piecesIn v true line) = written (front ++ [arg, Text.trimRight t]) ∧
      argumentsIn v true line = argumentsOf (front ++ [arg, Text.trimRight t]) := by
    rw [argumentsIn]
    rcases hpieces with hpieces | ⟨rfl, hpieces⟩
    · rw [hpieces, htrim]
      exact ⟨rfl, rfl⟩
    · rw [hpieces, hlone, List.append_cons front arg [_], written_append (front ++ [arg]),
        argumentsOf_append (front ++ [arg])]
      exact ⟨(List.append_nil _).symm, (List.append_nil _).symm⟩
  refine ⟨front ++ [arg], gap, ⟨?_, ?_, ?_, hgap, ?_, hsign⟩⟩
  · rw [hwritten.1, List.append_assoc]
    rfl
  · rw [hwritten.2, List.append_assoc]
    rfl
  · rw [hlonger, htrim, hright, List.append_assoc]
    rfl
  · -- behind an argument there is no blank to trim
    refine trimmed_written ?_ (Text.isBlank_getLast?_trimRight t)
    rw [written_append, written_argument hslot, List.getLast?_concat]
    rfl

/-- Every line that leaves no bracket open `Ends` in some way. -/
theorem exists_ends : ∃ front last gap, Ends v line u front last gap := by
  -- the characters of the tokens are those of the line
  have hmem : ∀ token ∈ (tokenize v.signRule line).tokens, ∀ c ∈ token.text, c ∈ line := by
    intro token htoken c hc
    rw [← flatten_texts_tokenize v.signRule line]
    exact List.mem_flatten.2 ⟨token.text, List.mem_map_of_mem htoken, hc⟩
  -- as no bracket is left open, an argument is a text between two brackets
  have harg : ∀ arg, .bracketed arg ∈ (tokenize v.signRule line).tokens →
      Text.IsTight arg ∧ (Bracket.leading? arg).isSome = true := by
    intro arg htoken
    obtain ⟨b, inner, rfl⟩ := exists_enclosed_of_mem htoken hclosed
    exact ⟨b.isTight_enclose inner, leading?_of_isBracketed htoken rfl⟩
  -- literal tokens do not follow each other, and the text that is added goes on with the last one
  have hchain := (cuts_tokenize v.signRule line).isChain
  have hlonger := congrArg Tokens.tokens (tokenize_append_space hclosed hplain)
  obtain hnil | ⟨tokens, last, htokens⟩ := List.eq_nil_or_concat' (tokenize v.signRule line).tokens
  · exact ⟨[], [], [], ends_of_nil hclosed hu hplain hnil⟩
  · cases last with
    | bracketed arg =>
      -- with the text there is one piece more, so we count an empty piece without it
      obtain ⟨htight, hslot⟩ := harg arg (by simp [htokens])
      have hpieces : piecesIn v true line = trimEnds (tokens.map Token.text ++ [arg]) :=
        piecesIn_of_texts (by simp [htokens, Token.text])
      rw [htokens, Token.trail_concat] at hlonger
      obtain ⟨front, gap, hends⟩ := exists_ends_of_argument (t := []) hbreak hu htight hslot (by simp)
        (.inr ⟨rfl, hpieces⟩) (piecesIn_of_texts (by simp [hlonger, Token.text]))
        (by simp [EndsInSign, htokens, Text.trimRight, Bracket.leading?])
      exact ⟨front, _, gap, hends⟩
    | literal t =>
      obtain rfl | ⟨tokens', previous, rfl⟩ := List.eq_nil_or_concat' tokens
      · obtain ⟨gap, hends⟩ := exists_ends_of_literal hbreak hclosed hu hplain htokens
        exact ⟨[], _, gap, hends⟩
      · -- two literal tokens never follow each other
        obtain ⟨arg, rfl⟩ : ∃ arg, previous = .bracketed arg := by
          rw [htokens, List.append_assoc, List.isChain_append] at hchain
          cases previous with
          | bracketed arg => exact ⟨arg, rfl⟩
          | literal s => simp [Token.isBracketed] at hchain
        obtain ⟨htight, hslot⟩ := harg arg (by simp [htokens])
        have hpieces : piecesIn v true line = trimEnds (tokens'.map Token.text ++ [arg, t]) :=
          piecesIn_of_texts (by simp [htokens, Token.text])
        rw [htokens, Token.trail_concat] at hlonger
        obtain ⟨front, gap, hends⟩ := exists_ends_of_argument hbreak hu htight hslot
          (hmem (.literal t) (by simp [htokens])) (.inl hpieces)
          (piecesIn_of_texts (by simp [hlonger, Token.text])) (by
            obtain ⟨front, -, htrim⟩ := exists_trimEnds_concat (tokens'.map Token.text) htight
            simp [EndsInSign, htokens, hpieces, htrim, Token.text])
        exact ⟨front, _, gap, hends⟩

end

/-! ## The spec with words behind it -/

/-- The characters of words are no brackets. -/
private theorem isPlain_of_isWordChar {c : Char} (h : Override.isWordChar c = true) :
    Bracket.isPlain c = true := by
  rw [Bracket.isPlain, Bool.and_eq_true, Option.isNone_iff_eq_none, Option.isNone_iff_eq_none,
    Option.eq_none_iff_forall_ne_some, Option.eq_none_iff_forall_ne_some]
  constructor
  · intro b hb
    obtain rfl := Bracket.ofOpener?_eq_some_iff.1 hb
    revert h
    cases b <;> decide
  · intro b hb
    obtain rfl := Bracket.ofCloser?_eq_some_iff.1 hb
    revert h
    cases b <;> decide

/-- Two texts that start with no bracket do not start with one together. -/
private theorem leading?_append {s t : Text} (hs : Bracket.leading? s = none)
    (ht : Bracket.leading? t = none) :
    Bracket.leading? (s ++ t) = none := by
  cases s with
  | nil => exact ht
  | cons c s => exact hs

namespace Ends

variable {v : Vocabulary} {line u : Text} {front : List Text} {last gap : Text}

/-- Text behind a line is part of its spec, and leaves its arguments as they are. -/
private theorem written_longer (h : Ends v line u front last gap) (hsign : ¬ EndsInSign v line)
    (hu : Bracket.leading? u = none) :
    written (piecesIn v true (line ++ ' ' :: u)) = written (piecesIn v true line) ++ (gap ++ u) ∧
      argumentsIn v true (line ++ ' ' :: u) = argumentsIn v true line := by
  have hlast : Bracket.leading? last = none := by simpa using mt h.sign.1 hsign
  have hgap : Bracket.leading? gap = none := by
    cases gap with
    | nil => rfl
    | cons c gap => exact Bracket.ofOpener?_of_isBlank (h.blank c List.mem_cons_self).1
  have hlonger := leading?_append hlast (leading?_append hgap hu)
  rw [argumentsIn, h.longer, h.spec, h.arguments, written_append, written_append, argumentsOf_append,
    argumentsOf_append, written_literal hlonger, written_literal hlast, argumentsOf_literal hlonger,
    argumentsOf_literal hlast, List.append_assoc]
  exact ⟨rfl, rfl⟩

/-- Where a line ends in a sign it is part of the argument there. -/
private theorem written_longer_of_sign (h : Ends v line u front last gap) (hsign : EndsInSign v line) :
    written (piecesIn v true (line ++ ' ' :: u)) = written (piecesIn v true line) := by
  have hlast := h.sign.2 hsign
  obtain ⟨c, last, rfl⟩ : ∃ c rest, last = c :: rest := by
    cases last with
    | nil => cases hlast
    | cons c rest => exact ⟨c, rest, rfl⟩
  have hlonger : (Bracket.leading? (c :: last ++ (gap ++ u))).isSome = true := hlast
  rw [h.longer, h.spec, written_append, written_append, written_argument hlonger, written_argument hlast]

end Ends

/-- No line breaks are added to a line. -/
private theorem not_mem_specOf {v : Vocabulary} {line : Text} (hbreak : '\n' ∉ line) :
    '\n' ∉ specOf (piecesIn v true line) := by
  -- the characters of a spec are those of the line, and the spaces and slots that are put in
  have hpieces : ∀ p ∈ piecesIn v true line, ∀ c ∈ p, c ∈ line := by
    intro p hp c hc
    obtain ⟨lead, trail, hline, -⟩ := flatten_trimEnds (tokenize v.signRule line).texts
    rw [flatten_texts_tokenize] at hline
    have hmem : c ∈ (piecesIn v true line).flatten := List.mem_flatten.2 ⟨p, hp, hc⟩
    rw [hline]
    exact List.mem_append_left _ (List.mem_append_right _ hmem)
  rw [specOf_eq_padSlots]
  intro hmem
  -- padding puts in spaces, and what is written of an argument is a slot
  have hcount := Text.count_padSlots (by decide : '\n' ≠ ' ') (written (piecesIn v true line))
  have hwritten : '\n' ∈ written (piecesIn v true line) :=
    List.count_pos_iff.1 (hcount ▸ List.count_pos_iff.2 hmem)
  obtain ⟨piece, hpiece, hmem⟩ := List.mem_flatMap.1 hwritten
  obtain ⟨p, hp, rfl⟩ := List.mem_map.1 hpiece
  rw [Piece.inSpec] at hmem
  split at hmem
  · simp at hmem
  · exact hbreak (hpieces p hp _ hmem)

section

variable {v : Vocabulary} {line : Text} {words : List Text} (hbreak : '\n' ∉ line)
  (hclosed : (tokenize v.signRule line).unclosed = none) (hfilled : words ≠ [])
  (hwords : ∀ word ∈ words, Override.IsWord word)

include hbreak hclosed hfilled hwords

omit hbreak hclosed hfilled in
/-- There are no brackets in a suffix. -/
private theorem isPlain_of_mem_suffix : ∀ c ∈ "::".toList ++ ' ' :: [' '].intercalate words,
    Bracket.isPlain c = true := by
  intro c hc
  rcases Override.isWordChar_of_mem_suffix hwords c hc with rfl | hword
  · rfl
  · exact isPlain_of_isWordChar hword

omit hbreak hfilled in
/-- A `suffix` of words leaves no bracket open. -/
theorem unclosed_suffix : (tokenize v.signRule (line ++ Override.suffix words)).unclosed = none :=
  congrArg Tokens.unclosed (tokenize_append_space hclosed (isPlain_of_mem_suffix hwords))

/-- So a line with words behind `::` has an end in the sense of `Ends`. -/
private theorem exists_ends_suffix :
    ∃ front last gap, Ends v line ("::".toList ++ ' ' :: [' '].intercalate words) front last gap :=
  exists_ends hbreak hclosed (Override.isTight_suffix hwords hfilled) (isPlain_of_mem_suffix hwords)

/-- The `suffix` of a line that does not end in a sign is its overrides, and all that is new. -/
theorem split_suffix (hsign : ¬ EndsInSign v line) :
    Override.split (specOf (piecesIn v true (line ++ Override.suffix words))) =
        (specOf (piecesIn v true line), words) ∧
      argumentsIn v true (line ++ Override.suffix words) = argumentsIn v true line := by
  obtain ⟨front, last, gap, hends⟩ := exists_ends_suffix hbreak hclosed hfilled hwords
  obtain ⟨hwritten, hargs⟩ := hends.written_longer hsign rfl
  refine ⟨?_, hargs⟩
  have htail : ∀ c ∈ ' ' :: [' '].intercalate words, Override.isWordChar c = true :=
    List.forall_mem_cons.2 ⟨rfl, Override.isWordChar_of_mem_intercalate hwords⟩
  have hslot : '_' ∉ gap ++ ("::".toList ++ ' ' :: [' '].intercalate words) := by
    rw [List.mem_append, not_or]
    refine ⟨fun hmem => absurd (hends.blank _ hmem).1 (by decide), fun hmem => ?_⟩
    exact absurd (Override.isWordChar_of_mem_suffix hwords _ hmem) (by decide)
  -- the suffix has no slots, so padding stops in front of it
  obtain ⟨n, hpadded⟩ := Text.exists_padSlots_append (written (piecesIn v true line)) hslot
  have hblank : ∀ c ∈ List.replicate n ' ' ++ gap, Text.isBlank c = true ∧ c ≠ '\n' := by
    refine List.forall_mem_append.2 ⟨fun c hc => ?_, hends.blank⟩
    rw [List.eq_of_mem_replicate hc]
    decide
  have hbreak' : '\n' ∉ specOf (piecesIn v true line) ++ (List.replicate n ' ' ++ gap) := by
    rw [List.mem_append, not_or]
    exact ⟨not_mem_specOf hbreak, fun hmem => (hblank _ hmem).2 rfl⟩
  -- and what is in front of its blanks has none at the end
  have htrimmed : (specOf (piecesIn v true line)).getLast?.any Text.isBlank = false := by
    rw [specOf_eq_padSlots, Text.getLast?_padSlots, hends.spec]
    exact hends.trimmed
  calc Override.split (specOf (piecesIn v true (line ++ Override.suffix words)))
      = Override.split (specOf (piecesIn v true line) ++ (List.replicate n ' ' ++ gap) ++ "::".toList ++
          ' ' :: [' '].intercalate words) := by
        have hlonger : specOf (piecesIn v true (line ++ Override.suffix words)) = _ :=
          (congrArg Text.padSlots hwritten).trans hpadded
        rw [hlonger]
        simp [specOf_eq_padSlots]
    _ = _ := by
        rw [Override.split_append hbreak' htail, Override.words_intercalate hwords,
          Text.trimRight_append_blank htrimmed fun c hc => (hblank c hc).1]

/-- If the line `EndsInSign` they are no overrides. -/
theorem split_suffix_of_sign (hsign : EndsInSign v line)
    (hspec : ¬ Override.HasWords (specOf (piecesIn v true line))) :
    Override.split (specOf (piecesIn v true (line ++ Override.suffix words))) =
      (specOf (piecesIn v true line), []) := by
  obtain ⟨front, last, gap, hends⟩ := exists_ends_suffix hbreak hclosed hfilled hwords
  have hsame : specOf (piecesIn v true (line ++ Override.suffix words)) = specOf (piecesIn v true line) :=
    congrArg Text.padSlots (hends.written_longer_of_sign hsign)
  rw [hsame, Override.split_eq_self_of_not hspec]

end

end Fragment

end BlockScript
