import Mathlib.Data.List.Forall2
import BlockScript.Proofs.Reading.Override
import BlockScript.Reading.Fragment

/-!
# How a spec starts

The spec of a fragment is put together from its pieces, so text at its start stands at the start of the
fragment too, after blanks. For comments this matters: a block has the name that comments have only if
its fragment starts with two slashes.

## Key results

- `Fragment.forall₂_trimEnds`: what trimming the ends leaves of each piece
- `Fragment.starts_with_slashes`: a fragment whose spec is two slashes starts with them
-/

namespace BlockScript

namespace Fragment

/-! ## Pieces and their spec -/

/-- What pieces say, with a slot for each argument. -/
def written (pieces : List Text) : Text := (pieces.map Piece.text).flatMap Piece.inSpec

/-- `specOf` is what the pieces say, padded. -/
theorem specOf_eq_padSlots (pieces : List Text) : specOf pieces = Text.padSlots (written pieces) := rfl

/-- What is `written` by pieces one after another is written one after another. -/
theorem written_append (pieces pieces' : List Text) :
    written (pieces ++ pieces') = written pieces ++ written pieces' := by
  simp [written]

/-- A literal piece is `written` as it stands. -/
theorem written_literal {p : Text} (h : Bracket.leading? p = none) : written [p] = p := by
  simp [written, Piece.inSpec, h]

/-- An argument is `written` as a slot. -/
theorem written_argument {p : Text} (h : (Bracket.leading? p).isSome = true) : written [p] = ['_'] := by
  simp [written, Piece.inSpec, h]

/-- Text without slots at the start of what pieces say is text at the start of the pieces. -/
private theorem flatten_of_written {pieces : List Text} {start rest : Text}
    (h : written pieces = start ++ rest) (hstart : '_' ∉ start) :
    ∃ rest', pieces.flatten = start ++ rest' := by
  rw [written] at h
  induction pieces generalizing start with
  | nil =>
    obtain ⟨rfl, rfl⟩ := List.append_eq_nil_iff.1 h.symm
    exact ⟨[], rfl⟩
  | cons p pieces ih =>
    simp only [List.map_cons, List.flatMap_cons, Piece.inSpec] at h
    split at h
    · -- an argument leaves a slot, with which the start cannot begin
      cases start with
      | nil => exact ⟨_, rfl⟩
      | cons c start =>
        have hc : '_' = c := (List.cons.inj h).1
        exact absurd (hc ▸ List.mem_cons_self) hstart
    · -- the start ends in a later piece, or within this one
      obtain ⟨start', hstart', hpieces⟩ | ⟨rest', hp, -⟩ := List.append_eq_append_iff.1 h
      · obtain ⟨rest', hrest'⟩ := ih hpieces fun hm => hstart (hstart' ▸ List.mem_append_right _ hm)
        exact ⟨rest', by rw [List.flatten_cons, hrest', hstart', List.append_assoc]⟩
      · exact ⟨rest' ++ pieces.flatten, by rw [List.flatten_cons, hp, List.append_assoc]⟩

/-! ## The ends of the pieces -/

/-- Trimming the last piece drops something at its end. -/
private theorem flatten_trimLast (pieces : List Text) :
    ∃ trail, pieces.flatten = (trimEnds.trimLast pieces).flatten ++ trail := by
  induction pieces with
  | nil => exact ⟨[], rfl⟩
  | cons t ts ih =>
    cases ts with
    | nil =>
      -- the last piece is the one that loses its blanks
      refine ⟨t.rtakeWhile Text.isBlank, ?_⟩
      simp [trimEnds.trimLast, Text.trimRight_eq_rdropWhile, List.rdropWhile_append_rtakeWhile]
    | cons u us =>
      obtain ⟨trail, htrail⟩ := ih
      refine ⟨trail, ?_⟩
      rw [trimEnds.trimLast, List.flatten_cons, htrail, List.flatten_cons, List.append_assoc]
      simp

/-- `trimEnds` drops blanks in front of the pieces and something at their end. -/
theorem flatten_trimEnds (pieces : List Text) :
    ∃ lead trail, pieces.flatten = lead ++ (trimEnds pieces).flatten ++ trail ∧
      ∀ c ∈ lead, Text.isBlank c = true := by
  cases pieces with
  | nil => exact ⟨[], [], rfl, by simp⟩
  | cons t ts =>
    -- a single piece is trimmed on both sides, and of several ones the first and the last
    cases ts with
    | nil =>
      obtain ⟨lead, trail, ht, hlead, -⟩ := Text.exists_eq_trim t
      exact ⟨lead, trail, by simpa [trimEnds] using ht, hlead⟩
    | cons u us =>
      obtain ⟨trail, htrail⟩ := flatten_trimLast (u :: us)
      refine ⟨t.takeWhile Text.isBlank, trail, ?_, fun c hc => List.mem_takeWhile_imp hc⟩
      rw [trimEnds, List.flatten_cons, htrail, List.flatten_cons, Text.trimLeft,
        ← List.append_assoc (t.takeWhile _), List.takeWhile_append_dropWhile, List.append_assoc]
      simp

/-- `trimLast` leaves the start of the last piece, and drops blanks alone. -/
private theorem forall₂_trimLast (ts : List Text) :
    List.Forall₂ (fun t t' => t' <+: t ∧ Text.trim t' = Text.trim t) ts (trimEnds.trimLast ts) := by
  induction ts with
  | nil => exact .nil
  | cons t ts ih =>
    cases ts with
    | nil => exact .cons ⟨Text.trimRight_isPrefix_self t, Text.trim_trimRight t⟩ .nil
    | cons u us => exact .cons ⟨List.prefix_rfl, rfl⟩ ih

/-- `trimEnds` leaves a part of each piece, and drops blanks alone. -/
theorem forall₂_trimEnds (ts : List Text) :
    List.Forall₂ (fun t t' => t' <:+: t ∧ Text.trim t' = Text.trim t) ts (trimEnds ts) := by
  match ts with
  | [] => exact .nil
  | [t] => exact .cons ⟨Text.trim_isInfix t, Text.trim_trim t⟩ .nil
  | t :: u :: us =>
    refine .cons ⟨(List.dropWhile_suffix _).isInfix, Text.trim_trimLeft t⟩ ?_
    exact (forall₂_trimLast (u :: us)).imp fun _ _ h => ⟨h.1.isInfix, h.2⟩

/-- So `trimEnds` leaves as many pieces as before. -/
theorem length_trimEnds (ts : List Text) : (trimEnds ts).length = ts.length :=
  (forall₂_trimEnds ts).length_eq.symm

/-- Of several pieces the last one alone is trimmed at its end. -/
private theorem trimLast_concat (ts : List Text) (last : Text) :
    trimEnds.trimLast (ts ++ [last]) = ts ++ [Text.trimRight last] := by
  induction ts with
  | nil => rfl
  | cons t ts ih =>
    obtain ⟨u, us, hus⟩ : ∃ u us, ts ++ [last] = u :: us := by
      cases ts <;> exact ⟨_, _, rfl⟩
    rw [List.cons_append, hus, trimEnds.trimLast, ← hus, ih]
    · rfl
    · simp

/-- And `trimEnds` trims the first one alone at its start. -/
theorem trimEnds_concat (t : Text) (ts : List Text) (last : Text) :
    trimEnds (t :: ts ++ [last]) = Text.trimLeft t :: (ts ++ [Text.trimRight last]) := by
  have hlast := trimLast_concat ts last
  cases ts with
  | nil => exact congrArg _ hlast
  | cons u us => exact congrArg _ hlast

/-- A fragment whose `specOf` is two slashes, apart from overrides, starts with them, after blanks. -/
theorem starts_with_slashes {rule : SignRule} {t : Text}
    (h : (Override.split (specOf (trimEnds (tokenize rule t).texts))).1 = "//".toList) :
    ∃ lead rest, t = lead ++ '/' :: '/' :: rest ∧ ∀ c ∈ lead, Text.isBlank c = true := by
  obtain ⟨rest, hspec⟩ := h ▸ Override.split_isPrefix (specOf (trimEnds (tokenize rule t).texts))
  -- padding adds nothing in front of the slashes or between them
  obtain ⟨rest, hpadded⟩ := Text.isPrefix_of_isPrefix_padSlots (by decide) ⟨rest, hspec⟩
  have hstart : '_' ∉ "//".toList := by decide
  obtain ⟨rest, hpieces⟩ := flatten_of_written hpadded.symm hstart
  obtain ⟨lead, trail, hends, hlead⟩ := flatten_trimEnds (tokenize rule t).texts
  refine ⟨lead, rest ++ trail, ?_, hlead⟩
  rw [← flatten_texts_tokenize rule t, hends, hpieces]
  simp

end Fragment

end BlockScript
