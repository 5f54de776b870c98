import Mathlib.Data.List.Nodup
import BlockScript.Proofs.Token.Inner
import BlockScript.Proofs.Reading.Patch
import BlockScript.Reading.Session

/-!
# Brackets that are left open

A line that ends inside a bracket is complained about, in whatever way it is read. The one way that might miss
it is that of a line which is a single argument, for its brackets are taken off before it is cut again. If its
last character matches the first one, it closes another bracket there, so the text between the two ends inside
a bracket by itself. A complaint that comes up at several levels is recorded once.

## Key results

- `unclosed_of_enclose`: what is left open between brackets is left open by itself
- `Line.exists_unterminated`: a line that leaves a bracket open is complained about
- `Complaint.IsLocal.message_injective`: the complaints of a reading differ in words
- `Vocabulary.unclosed_reported`: so it is recorded, and no text is recorded twice
-/

namespace BlockScript

/-! ## Left open between brackets -/

/-- Between square brackets nothing opens, so they stay the only ones. -/
private theorem openAfter_square {gs : List Glyph}
    (h : ∀ front, front <+: gs → openAfter [.square] front ≠ []) :
    openAfter [.square] gs = [.square] := by
  induction gs using List.reverseRecOn with
  | nil => rfl
  | append_singleton gs g ih =>
    have hgs := ih fun front hfront => h front (hfront.trans (List.prefix_append gs [g]))
    -- and after the last one something is open still
    have hlast := h (gs ++ [g]) List.prefix_rfl
    rw [openAfter_append, hgs] at hlast ⊢
    -- all but the last glyph leave just the square bracket
    simp only [openAfter_cons, openAfter_nil] at hlast ⊢
    cases hrole : g.role with
    | opens b => simp [Role.change]
    | closes b =>
      rw [hrole, Role.change] at hlast
      rw [Role.change]
      split at hlast
      · exact absurd rfl hlast
      · rename_i hother
        rw [if_neg hother]
    | plain => rfl

/-- The `glyphs` of a text that is one argument stay open if they are left open. -/
private theorem staysOpen_of_unclosed {rule : SignRule} {t : Text}
    (hlone : (tokenize rule t).tokens.length = 1)
    (hopen : (tokenize rule t).unclosed ≠ none) : StaysOpen (glyphs rule t) := by
  obtain ⟨b, hb⟩ := Option.ne_none_iff_exists'.1 hopen
  obtain ⟨pre, g, u, htokens, -⟩ := (cuts_tokenize rule t).exists_last_of_unclosed hb
  obtain rfl : pre = [] := by simpa [htokens] using hlone
  obtain ⟨front, run, back, hglyphs, hfront, -, -, hplace⟩ := (cuts_tokenize rule t).exists_place htokens
  obtain rfl : front = [] := by simpa using hfront
  rcases hplace with ⟨-, hmore⟩ | ⟨hstays, rfl, -⟩
  · exact absurd hmore (by simp [hb])
  · rwa [hglyphs, List.nil_append, List.append_nil]

section Enclose

variable {rule : SignRule} (hsilent : ∀ t n, (rule t).holds n = false) {b : Bracket} {t : Text}

include hsilent

/-- A text has the same `glyphs` between brackets as by itself. -/
private theorem glyphs_enclose : glyphs rule (b.enclose t) =
    ⟨b.opener, .opens b⟩ :: (glyphs rule t ++ [⟨b.closer, .closes b⟩]) := by
  have hopener : Role.ofChar b.opener = .opens b := by simp [Role.ofChar]
  have hcloser : Role.ofChar b.closer = .closes b := by simp [Role.ofChar, Bracket.ofOpener?_closer]
  -- a bracket is no sign, so only the roles of the inner text are in question
  have hfirst : ∀ rest, isComparison (rule (b.enclose t)).holds [] b.opener rest = false := by
    simp [isComparison]
  have hlast : ∀ before, isComparison (rule (b.enclose t)).holds before b.closer [] = false := by
    simp [isComparison, opensNext, hsilent]
  -- between the brackets the glyphs are those of the text alone
  have hinner := glyphsFrom_enclosed (hsilent (b.enclose t)) (hsilent t) b b [] [] [] t
  calc glyphs rule (b.enclose t)
      = ⟨b.opener, .opens b⟩ :: glyphsFrom (rule (b.enclose t)).holds [b.opener] (t ++ [b.closer]) := by
        rw [glyphs, Bracket.enclose, List.cons_append, glyphsFrom, ← List.cons_append, ← Bracket.enclose,
          hfirst, hopener]
        rfl
    _ = _ := by
        rw [List.nil_append] at hinner
        rw [hinner, glyphsFrom, hlast, hcloser]
        rfl

/-- If a text is one argument with the matching character at its end, but leaves a bracket open, then what is
    between the two characters leaves one open by itself. -/
theorem unclosed_of_enclose (hlone : (tokenize rule (b.enclose t)).tokens.length = 1)
    (hopen : (tokenize rule (b.enclose t)).unclosed ≠ none) :
    b ≠ .square ∧ (tokenize rule t).unclosed ≠ none := by
  have hstays : StaysOpen (⟨b.opener, .opens b⟩ :: (glyphs rule t ++ [⟨b.closer, .closes b⟩])) := by
    rw [← glyphs_enclose hsilent]
    exact staysOpen_of_unclosed hlone hopen
  -- the outer bracket stays open to the end
  have hinside : ∀ front, front <+: glyphs rule t ++ [⟨b.closer, .closes b⟩] → openAfter [b] front ≠ [] := by
    intro front hfront
    have hopened : Role.change [] (.opens b) = [b] := rfl
    simpa [hopened] using hstays.stays (⟨b.opener, .opens b⟩ :: front) (List.cons_ne_nil _ _)
      (List.cons_prefix_cons.2 ⟨rfl, hfront⟩)
  have hwithin : ∀ front, front <+: glyphs rule t → openAfter [b] front ≠ [] :=
    fun front hfront => hinside front (hfront.trans (List.prefix_append _ _))
  -- the last character would close the only bracket
  have hmore : openAfter [b] (glyphs rule t) ≠ [b] := by
    intro hone
    have hend := hinside _ List.prefix_rfl
    rw [openAfter_append, hone] at hend
    exact hend (by simp [Role.change])
  -- in square brackets nothing else can be open
  have hsquare : b ≠ .square := by
    rintro rfl
    exact hmore (openAfter_square hwithin)
  refine ⟨hsquare, fun hclosed => hmore ?_⟩
  rw [openAfter_concat hsquare hwithin, (cuts_tokenize rule t).unclosed_eq_none_iff.1 hclosed, List.nil_append]

end Enclose

/-! ## Complaints about brackets -/

/-- A text that `isClosed` by its last character is what `strip` leaves of it, in its brackets. -/
theorem Bracket.eq_enclose_strip {b : Bracket} {t : Text} (h : leading? t = some b)
    (hclosed : b.isClosed t = true) : t = b.enclose (strip t) := by
  cases t with
  | nil => cases h
  | cons c rest =>
    obtain rfl := ofOpener?_eq_some_iff.1 h
    simp only [isClosed, List.length_cons, Bool.and_eq_true, decide_eq_true_eq, beq_iff_eq] at hclosed
    have hfilled : rest ≠ [] := List.ne_nil_of_length_pos (by omega)
    -- there is more than one character, so the closing bracket is the last one of the rest
    have hlast : rest.getLast? = some b.closer := by
      rw [← hclosed.2, List.getLast?_cons_of_ne_nil hfilled]
    have hrest : rest.dropLast ++ [b.closer] = rest := by
      rw [List.getLast?_eq_some_getLast hfilled, Option.some.injEq] at hlast
      rw [← hlast, List.dropLast_append_getLast]
    rw [strip, ofOpener?_opener]
    dsimp only
    rw [if_pos hlast, enclose, List.cons_append, hrest]

namespace Fragment

/-- What is said against the brackets of a fragment is said when it is read. -/
private theorem mem_read_complaints {v : Vocabulary} {isLine : Bool} {code : Text} {c : Complaint}
    (h : c ∈ bracketComplaints v isLine code) (depth : Nat) :
    c ∈ (read v (depth + 1) isLine code).complaints := by
  rw [read, readWith_eq_form]
  exact List.mem_append_left _ h

/-- A line is complained about if it leaves a bracket open. -/
private theorem exists_unterminated_of_line {v : Vocabulary} {line : Text}
    (h : (tokenize v.signRule line).unclosed ≠ none) :
    ∃ b, .unterminated b ∈ bracketComplaints v true line := by
  obtain ⟨b, hb⟩ := Option.ne_none_iff_exists'.1 h
  refine ⟨b, List.mem_append_right _ ?_⟩
  simp [innerComplaints, outerBracket, hb]

/-- An `unterminated` complaint is made too for a single argument that leaves a bracket open. -/
private theorem exists_unterminated_of_argument {v : Vocabulary} (hv : v.signPhrases = []) {line : Text}
    (hbracket : (Bracket.leading? line).isSome = true)
    (hlone : (tokenize v.signRule line).tokens.length = 1) (h : (tokenize v.signRule line).unclosed ≠ none) :
    ∃ b, .unterminated b ∈ bracketComplaints v false line := by
  obtain ⟨b, hb⟩ := Option.isSome_iff_exists.1 hbracket
  cases hclosed : b.isClosed line with
  | false =>
    refine ⟨b, List.mem_append_left _ ?_⟩
    simp [outerComplaints, outerBracket, hb, hclosed]
  | true =>
    -- the last character closes another bracket
    have hline := Bracket.eq_enclose_strip hb hclosed
    rw [hline] at hlone h
    obtain ⟨hsquare, hinner⟩ := unclosed_of_enclose (Vocabulary.signRule_of_signPhrases_nil hv) hlone h
    obtain ⟨b', hb'⟩ := Option.ne_none_iff_exists'.1 hinner
    refine ⟨b', List.mem_append_right _ ?_⟩
    simp [innerComplaints, outerBracket, hb, hsquare, hb']

end Fragment

namespace Line

/-- If a line leaves a bracket open, there is an `unterminated` among its complaints. -/
theorem exists_unterminated {v : Vocabulary} (hv : v.signPhrases = []) {line : Text}
    (h : (tokenize v.signRule (bareText line)).unclosed ≠ none) :
    ∃ b, .unterminated b ∈ (v.readLine line).complaints := by
  have hfilled : bareText line ≠ [] := by
    intro hnil
    rw [hnil] at h
    exact h rfl
  rw [readLine_of_bareText v hfilled, withComment_complaints, readBare]
  -- a line that is one argument complains of its outer bracket, any other of an inner one
  split
  · rename_i hlone
    simp only [isLoneArgument, Bool.and_eq_true, beq_iff_eq] at hlone
    obtain ⟨b, hb⟩ := Fragment.exists_unterminated_of_argument hv hlone.1 hlone.2 h
    exact ⟨b, Fragment.mem_read_complaints hb _⟩
  · obtain ⟨b, hb⟩ := Fragment.exists_unterminated_of_line h
    exact ⟨b, Fragment.mem_read_complaints hb _⟩

end Line

/-! ## Each text once -/

/-- Whether a complaint is one of those that a reading makes: about a bracket, or about a word. -/
inductive Complaint.IsLocal : Complaint → Prop
  | unterminated (b : Bracket) : IsLocal (.unterminated b)
  | unknownOverride (word : Text) : IsLocal (.unknownOverride word)

/-- A complaint about a bracket and one about a word differ in their third letter. -/
private theorem Complaint.message_unterminated_ne (b : Bracket) (word : Text) :
    (unterminated b).message ≠ (unknownOverride word).message := by
  intro h
  have hletter : some 't' = some 'k' := congrArg (·[2]?) h
  cases hletter

/-- Complaints that are `IsLocal` differ in their `message`. -/
theorem Complaint.IsLocal.message_injective {c d : Complaint} (hc : c.IsLocal) (hd : d.IsLocal)
    (h : c.message = d.message) : c = d := by
  -- the two kinds start differently, and within a kind the bracket or the word makes the difference
  cases hc with
  | unterminated b =>
    cases hd with
    | unterminated b' =>
      have hwords : "Unterminated \"".toList ++ b.opener :: "\" bracket".toList =
          "Unterminated \"".toList ++ b'.opener :: "\" bracket".toList := h
      -- the sentences are the same but for the bracket
      have hopener : b.opener = b'.opener := (List.cons.inj (List.append_cancel_left hwords)).1
      have hsame := congrArg Bracket.ofOpener? hopener
      rw [Bracket.ofOpener?_opener, Bracket.ofOpener?_opener] at hsame
      rw [Option.some.inj hsame]
    | unknownOverride word => exact absurd h (message_unterminated_ne b word)
  | unknownOverride word =>
    cases hd with
    | unterminated b => exact absurd h.symm (message_unterminated_ne b word)
    | unknownOverride word' =>
      have hword : "Unknown override \"".toList ++ word = "Unknown override \"".toList ++ word' :=
        List.append_cancel_right h
      rw [List.append_cancel_left hword]

namespace Fragment

/-- `fillSlots` has the complaints of the arguments, and they are local if these are. -/
private theorem isLocal_of_mem_fillSlots {nested : Text → Outcome Block}
    (h : ∀ arg, ∀ c ∈ (nested arg).complaints, c.IsLocal) (parts args : List Text) :
    ∀ c ∈ (fillSlots nested parts args).complaints, c.IsLocal := by
  induction parts generalizing args with
  | nil => simp [fillSlots, Outcome.done]
  | cons part parts ih =>
    unfold fillSlots
    split
    · rename_i arg args
      unfold Outcome.andThen
      split
      · exact h arg
      · exact List.forall_mem_append.2 ⟨h arg, ih args⟩
    · exact ih args

/-- `finish` adds complaints about words, which are local. -/
private theorem isLocal_of_mem_finish {attrs : Attrs} {words : List Text} {pieces : Outcome (List Piece)}
    (h : ∀ c ∈ pieces.complaints, c.IsLocal) : ∀ c ∈ (finish attrs words pieces).complaints, c.IsLocal := by
  unfold finish
  split
  · exact h
  · refine List.forall_mem_append.2 ⟨h, fun c hc => ?_⟩
    obtain ⟨o, -, ho⟩ := List.mem_filterMap.1 hc
    obtain ⟨word, -, rfl⟩ := Option.map_eq_some_iff.1 ho
    exact .unknownOverride word

/-- The `bracketComplaints` of a fragment are `IsLocal`. -/
private theorem isLocal_of_mem_bracketComplaints (v : Vocabulary) (isLine : Bool) (code : Text) :
    ∀ c ∈ bracketComplaints v isLine code, c.IsLocal := by
  refine List.forall_mem_append.2 ⟨fun c hc => ?_, fun c hc => ?_⟩
  · -- the brackets around it, and then those in it
    unfold outerComplaints at hc
    split at hc
    · split at hc
      · cases hc
      · rw [List.mem_singleton.1 hc]
        exact .unterminated _
    · cases hc
  · unfold innerComplaints at hc
    split at hc
    · cases hc
    · obtain ⟨b, -, rfl⟩ := List.mem_map.1 hc
      exact .unterminated b

/-- All `complaints` of a reading are about brackets and words, however deep it is nested. -/
private theorem isLocal_of_mem_read (v : Vocabulary) (depth : Nat) (isLine : Bool) (code : Text) :
    ∀ c ∈ (read v depth isLine code).complaints, c.IsLocal := by
  induction depth generalizing isLine code with
  | zero => simp [read, Outcome.fail]
  | succ depth ih =>
    rw [read, readWith_eq_form]
    refine List.forall_mem_append.2 ⟨isLocal_of_mem_bracketComplaints v isLine code, ?_⟩
    cases form v isLine code with
    | whole b => simp [Form.read, Outcome.done]
    | missing id => simp [Form.read, Outcome.fail]
    | block attrs words parts args =>
      exact isLocal_of_mem_finish (isLocal_of_mem_fillSlots (fun arg => ih false arg) parts args)

end Fragment

/-- All `complaints` about a line are about brackets and words. -/
private theorem Line.isLocal_of_mem_readLine (v : Vocabulary) (line : Text) :
    ∀ c ∈ (v.readLine line).complaints, c.IsLocal := by
  have hbare : ∀ t, ∀ c ∈ (readBare v t).complaints, c.IsLocal := by
    intro t
    unfold readBare
    split <;> exact Fragment.isLocal_of_mem_read v _ _ t
  obtain ⟨comment, -, hread, -⟩ | ⟨comment, front, hread, -⟩ := readOrigins_cases v line
  · simp [hread, Outcome.done]
  · rw [hread, withComment_complaints]
    exact hbare front

/-- `addComplaints` leaves out what is known, and nothing else. -/
private theorem mem_addComplaints {c : Complaint} {known new : List Complaint} :
    c ∈ addComplaints known new ↔ c ∈ known ∨ c ∈ new := by
  rw [addComplaints_eq, List.mem_append, List.mem_eraseDups, List.mem_filter]
  by_cases hc : c ∈ known <;> simp [hc]

/-- Complaints that are added to different ones are still different. -/
private theorem nodup_addComplaints {known : List Complaint} (h : known.Nodup) (new : List Complaint) :
    (addComplaints known new).Nodup := by
  induction new generalizing known with
  | nil => exact h
  | cons c new ih =>
    have hstep : (if c ∈ known then known else known ++ [c]).Nodup := by
      split
      · exact h
      · rename_i hc
        exact h.append (List.nodup_singleton c) (by simpa using hc)
    exact ih hstep

namespace Vocabulary

open Line

/-- In a vocabulary without `signPhrases`, a line that ends inside a bracket, its comment and the blanks at
    its ends aside, has an `unterminated` complaint recorded for it, whether it is a block, a header or a
    single argument. In any vocabulary the complaints that are recorded for a line differ in their
    `message`. -/
theorem unclosed_reported (v : Vocabulary) (line : Text) {s : Session} (hs : s.pending = []) :
    (v.signPhrases = [] → (tokenize v.signRule (bareText line)).unclosed ≠ none →
      ∃ b, .unterminated b ∈ (s.record (v.readLine line)).pending) ∧
    ((s.record (v.readLine line)).pending.map Complaint.message).Nodup := by
  have hpending : (s.record (v.readLine line)).pending = addComplaints [] (v.readLine line).complaints := by
    rw [Session.record, hs]
  rw [hpending]
  constructor
  · intro hv hopen
    obtain ⟨b, hb⟩ := exists_unterminated hv hopen
    exact ⟨b, mem_addComplaints.2 (.inr hb)⟩
  · refine List.Nodup.map_on (fun c hc d hd => ?_) (nodup_addComplaints List.nodup_nil _)
    rw [mem_addComplaints] at hc hd
    exact (isLocal_of_mem_readLine v line c (hc.resolve_left (by simp))).message_injective
      (isLocal_of_mem_readLine v line d (hd.resolve_left (by simp)))

/-- The last character of this line matches the first one, but closes nothing. -/
theorem unclosed_reported_of_argument :
    (empty true).signPhrases = [] ∧
      (tokenize (empty true).signRule (bareText "<a (b> // (c".toList)).unclosed ≠ none ∧
      (∃ b, .unterminated b ∈ (Session.record {} ((empty true).readLine "<a (b> // (c".toList)).pending) ∧
      ((Session.record {} ((empty true).readLine "<a (b> // (c".toList)).pending.map
        Complaint.message).Nodup := by
  have hopen : (tokenize (empty true).signRule (bareText "<a (b> // (c".toList)).unclosed ≠ none := by
    decide
  obtain ⟨hreported, honce⟩ := unclosed_reported (empty true) "<a (b> // (c".toList (s := {}) rfl
  exact ⟨rfl, hopen, hreported rfl hopen, honce⟩

end Vocabulary

end BlockScript
