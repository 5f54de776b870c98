import BlockScript.Proofs.Reading.Comment
import BlockScript.Proofs.Reading.Success

/-!
# How deep a line is nested

Each argument is shorter than the fragment that it stands in, for its brackets are taken off before it is read.
So a fragment is not nested deeper than it is long, and a line of fewer characters than there are levels is
never nested too deeply.

## Key results

- `Fragment.read_ne_tooDeep`: a fragment can be read with as many levels as it has characters
- `Vocabulary.readLine_ne_tooDeep`: so can a short line
-/

namespace BlockScript

/-- `strip` takes at least the bracket in front off a fragment that has one. -/
theorem Bracket.length_strip_lt {code : Text} (h : (leading? code).isSome = true) :
    (strip code).length < code.length := by
  cases code with
  | nil => cases h
  | cons c rest =>
    obtain ⟨b, hb⟩ := Option.isSome_iff_exists.1 h
    have hopener : ofOpener? c = some b := hb
    rw [strip, hopener, List.length_cons]
    dsimp only
    -- with the closing bracket it loses two
    split
    · rw [List.length_dropLast]
      omega
    · omega

/-- `strip` makes no fragment longer. -/
private theorem Bracket.length_strip_le (code : Text) : (strip code).length ≤ code.length := by
  cases h : leading? code with
  | some b => exact (length_strip_lt (by rw [h]; rfl)).le
  | none =>
    cases code with
    | nil => exact Nat.le_refl 0
    | cons c rest =>
      have hopener : ofOpener? c = none := h
      rw [strip, hopener]

namespace Fragment

/-- The arguments of a fragment are in brackets, and no longer than the fragment without its own ones. -/
private theorem length_le_of_mem_arguments {v : Vocabulary} {isLine : Bool} {code : Text} {attrs : Attrs}
    {words parts args : List Text} (h : form v isLine code = .block attrs words parts args) :
    ∀ arg ∈ args, (Bracket.leading? arg).isSome = true ∧
      arg.length ≤ (if isLine then code else Bracket.strip code).length := by
  unfold form at h
  dsimp only at h
  generalize (if isLine = true then code else Bracket.strip code) = inner at h ⊢
  split at h
  · -- a header
    cases h
  · split at h
    · -- an insert
      cases h
    · split at h
      · -- a block that cannot be drawn
        cases h
      · cases h
        intro arg harg
        obtain ⟨hpiece, hleading⟩ := List.mem_filter.1 harg
        -- an argument is a piece, and the pieces together are a part of the text
        obtain ⟨lead, trail, hflatten, -⟩ := flatten_trimEnds (tokenize v.signRule inner).texts
        rw [flatten_texts_tokenize] at hflatten
        refine ⟨hleading, ?_⟩
        have hlength := (List.sublist_flatten_of_mem hpiece).length_le
        rw [hflatten, List.length_append, List.length_append]
        omega

/-- A fragment can be `read` with as many levels as it has characters, and one. -/
theorem read_ne_tooDeep {v : Vocabulary} {depth : Nat} {isLine : Bool} {code : Text}
    (h : (if isLine then code else Bracket.strip code).length < depth) :
    (read v depth isLine code).result ≠ .error .tooDeep := by
  induction depth generalizing isLine code with
  -- without levels there would be no characters
  | zero => cases h
  | succ depth ih =>
    rw [read_succ_result]
    cases hform : form v isLine code with
    | missing id => simp [Form.read, Outcome.fail]
    | whole b => simp [Form.read, Outcome.done]
    | block attrs words parts args =>
      -- the fault comes from one of the arguments, and it is shorter
      intro hdeep
      obtain ⟨arg, harg, herror⟩ := fillSlots_eq_error (finish_eq_error hdeep)
      obtain ⟨hleading, hlength⟩ := length_le_of_mem_arguments hform arg harg
      have hshorter := Bracket.length_strip_lt hleading
      exact ih (by rw [if_neg (by simp)]; omega) herror

end Fragment

namespace Line

/-- A short line without a comment is not nested too deeply. -/
private theorem readBare_ne_tooDeep {v : Vocabulary} {line : Text}
    (h : line.length < Fragment.nestingLimit) :
    (readBare v line).result ≠ .error .tooDeep := by
  unfold readBare
  split
  · intro hdeep
    have hlength := Bracket.length_strip_le line
    exact Fragment.read_ne_tooDeep (by rw [if_neg (by simp)]; omega) (Outcome.map_eq_error hdeep)
  · exact Fragment.read_ne_tooDeep (by rwa [if_pos rfl])

/-- What stands in front of a comment is no longer than the line. -/
private theorem length_le_of_splitComment {t front back : Text}
    (h : splitComment [] t = some (front, back)) :
    front.length ≤ t.length := by
  obtain ⟨u, hfront, ht, -⟩ := splitComment_eq_some h
  rw [hfront, ht, List.reverse_nil, List.nil_append, List.length_append]
  omega

end Line

open Line in
/-- `readLine` reads every line with fewer characters than `nestingLimit`. -/
theorem Vocabulary.readLine_ne_tooDeep {v : Vocabulary} {line : Text}
    (h : line.length < Fragment.nestingLimit) : (v.readLine line).result ≠ .error .tooDeep := by
  have htrimmed := (Text.length_trim_le line).trans_lt h
  intro hdeep
  unfold readLine at hdeep
  dsimp only at hdeep
  split at hdeep
  · -- there is no comment
    exact readBare_ne_tooDeep htrimmed (withComment_eq_error hdeep)
  · rename_i front back hsplit
    split at hdeep
    · cases hdeep
    · -- only what is in front of the comment is read
      have hfront := (Text.length_trim_le front).trans (length_le_of_splitComment hsplit)
      exact readBare_ne_tooDeep (hfront.trans_lt htrimmed) (withComment_eq_error hdeep)

/-- So it gives a block, if the vocabulary is `Drawable`. -/
theorem Vocabulary.exists_readLine_of_short {v : Vocabulary} (hv : v.Drawable) {line : Text}
    (h : line.length < Fragment.nestingLimit) : ∃ b, (v.readLine line).result = .ok b := by
  cases hread : (v.readLine line).result with
  | error f =>
    obtain rfl := readLine_eq_error hv hread
    exact absurd hread (readLine_ne_tooDeep h)
  | ok b => exact ⟨b, rfl⟩

end BlockScript
