import BlockScript.Proofs.Reading.Comment
import BlockScript.Proofs.Reading.Fragment

/-!
# What reading a line gives

A line gives a comment or a block. Blocks with a flag carry a language, and only comments are named
like one. The attributes of the block remember, at any depth, what the line has registered: the names of
unknown reporters, and the key of an unknown block.

## Key results

- `Vocabulary.readLine_ok`: what is known of the block that a line gives
- `Vocabulary.readLine_registered`: what a line sights and what its block remembers are the same
- `Vocabulary.readLine_trim`: blanks at the ends of a line play no part
-/

namespace BlockScript

namespace Line

/-! ## The block of a line -/

/-- The category that a comment names. -/
def directed? (comment : Option Text) : Option Category := (comment.bind categoryOf?).map (·.1)

/-- A comment changes nothing of a block but its `category`, its comment and its key, and it leaves the
    category of a header alone. -/
theorem withComment_ok {v : Vocabulary} {comment : Option Text} {o : Outcome Block} {b : Block}
    (h : (withComment v comment o).result = .ok b) :
    ∃ b₀, o.result = .ok b₀ ∧ b.pieces = b₀.pieces ∧
      b.attrs = { b₀.attrs with
        category := if b₀.attrs.shape = some .defineHat then b₀.attrs.category
          else (directed? comment).or b₀.attrs.category
        comment := b.attrs.comment
        calledAs := b.attrs.calledAs } := by
  unfold withComment at h
  -- a header, a comment that is no directive, or one that is
  split at h
  · cases h
  · rename_i b₀ hb₀
    simp only [Except.ok.injEq] at h
    subst h
    refine ⟨b₀, hb₀, ?_⟩
    unfold applyDirective directed?
    split
    · exact ⟨rfl, rfl⟩
    · split
      · rename_i hnamed
        rw [hnamed]
        exact ⟨rfl, rfl⟩
      · rename_i hnone
        rw [hnone]
        exact ⟨rfl, rfl⟩

/-- `withComment` has nothing to complain of. -/
theorem withComment_complaints (v : Vocabulary) (comment : Option Text) (o : Outcome Block) :
    (withComment v comment o).complaints = o.complaints := by
  unfold withComment
  split <;> rfl

/-- The character that opens a bracket is no slash and no colon. -/
private theorem opener_ne {c : Char} {b : Bracket} (h : Bracket.ofOpener? c = some b) :
    c ≠ '/' ∧ c ≠ ':' := by
  rw [Bracket.ofOpener?_eq_some_iff] at h
  subst h
  cases b <;> decide

private theorem blank_ne {c : Char} (h : Text.isBlank c = true) : c ≠ '/' ∧ c ≠ ':' := by
  constructor
  · rintro rfl
    exact absurd h (by decide)
  · rintro rfl
    exact absurd h (by decide)

/-- What is in the brackets of a text stands after a bracket. -/
private theorem exists_eq_strip {t : Text} (h : (Bracket.leading? t).isSome = true) :
    ∃ c trail, t = c :: Bracket.strip t ++ trail ∧ c ≠ '/' ∧ c ≠ ':' := by
  cases t with
  | nil => cases h
  | cons c rest =>
    obtain ⟨b, hb⟩ := Option.isSome_iff_exists.1 h
    have hb : Bracket.ofOpener? c = some b := hb
    simp only [Bracket.strip, hb]
    -- the bracket at the end is taken off only if it is the one that closes the first
    split
    · rename_i hlast
      refine ⟨c, [b.closer], ?_, opener_ne hb⟩
      -- there is something behind the first bracket, as it ends with the other one
      have hrest : rest ≠ [] := by
        rintro rfl
        cases hlast
      have hlast : rest.getLast hrest = b.closer := by
        rw [List.getLast?_eq_some_getLast hrest] at hlast
        exact Option.some.inj hlast
      rw [List.cons_append, ← hlast, List.dropLast_append_getLast]
    · exact ⟨c, [], by simp, opener_ne hb⟩

/-- An uncommented text gives a block that is not named like a comment, and has a language if it has a
    `flag`. -/
private theorem readBare_ok {v : Vocabulary} {line : Text} (hline : Uncommented line) {b : Block}
    (h : (readBare v line).result = .ok b) :
    b.attrs.id ≠ some "//".toList ∧ (b.attrs.flag ≠ none → b.attrs.lang ≠ none) := by
  -- an insert that stands alone is read with its brackets, any other line without
  have hread : ∀ {isLine : Bool} {b : Block}, (v.readFragment isLine line).result = .ok b →
      (isLine = false → (Bracket.leading? line).isSome = true) →
      b.attrs.id ≠ some "//".toList ∧ (b.attrs.flag ≠ none → b.attrs.lang ≠ none) := by
    intro isLine b hb hbracket
    rw [Fragment.readFragment_eq_readWith] at hb
    obtain ⟨hflag, hid⟩ | ⟨hlang, hid⟩ := Fragment.readWith_ok hb
    · exact ⟨by simp [hid], fun hf => absurd hflag hf⟩
    · refine ⟨fun hname => ?_, fun _ => hlang⟩
      -- the slashes would stand where a comment starts
      obtain ⟨lead, rest, hinner, hlead⟩ := hid hname
      have hlead : ∀ c ∈ lead, c ≠ '/' ∧ c ≠ ':' := fun c hc => blank_ne (hlead c hc)
      cases isLine with
      | true => exact hline lead rest hlead hinner
      | false =>
        obtain ⟨c, trail, hstrip, hc⟩ := exists_eq_strip (hbracket rfl)
        have hinner : Bracket.strip line = lead ++ '/' :: '/' :: rest := hinner
        refine hline (c :: lead) (rest ++ trail) (List.forall_mem_cons.2 ⟨hc, hlead⟩) ?_
        rw [hstrip, hinner]
        simp
  unfold readBare at h
  split at h
  · rename_i hlone
    simp only [isLoneArgument, Bool.and_eq_true] at hlone
    obtain ⟨b₀, hfragment, rfl⟩ := Outcome.map_eq_ok h
    obtain ⟨hid, hlang⟩ := hread hfragment fun _ => hlone.1
    unfold lone
    split
    · -- the block around an argument has neither a name nor a flag
      exact ⟨by simp, fun hf => absurd rfl hf⟩
    · exact ⟨hid, hlang⟩
  · exact hread h fun hf => by cases hf

end Line

namespace Vocabulary

open Line

/-- Blanks at the ends of a line play no part in `readLine`. -/
theorem readLine_trim (v : Vocabulary) (line : Text) : v.readLine (Text.trim line) = v.readLine line := by
  simp only [readLine, Text.trim_trim]

/-- A block that a line gives has a language if it has a `flag`, and has none if it is a comment. -/
theorem readLine_ok {v : Vocabulary} {line : Text} {b : Block}
    (h : (v.readLine line).result = .ok b) :
    (b.attrs.flag ≠ none → b.attrs.lang ≠ none) ∧ (b.isComment = true → b.attrs.flag = none) := by
  -- whatever is in front of a comment is read like a line without one
  have hbare : ∀ {t : Text} {comment : Option Text}, Uncommented t →
      (withComment v comment (readBare v t)).result = .ok b →
      (b.attrs.flag ≠ none → b.attrs.lang ≠ none) ∧
        (b.isComment = true → b.attrs.flag = none) := by
    intro t comment ht hb
    obtain ⟨b₀, hb₀, -, hattrs⟩ := withComment_ok hb
    obtain ⟨hid, hlang⟩ := readBare_ok ht hb₀
    constructor
    · rw [hattrs]
      exact hlang
    · intro hcomment
      rw [Block.isComment, hattrs] at hcomment
      exact absurd (by simpa using hcomment) hid
  unfold readLine at h
  dsimp only at h
  split at h
  · rename_i hsplit
    exact hbare (uncommented_of_splitComment_eq_none hsplit) h
  · rename_i front back hsplit
    split at h
    · -- a comment that stands on its own has no flag
      cases h
      exact ⟨fun hf => absurd rfl hf, fun _ => rfl⟩
    · exact hbare (uncommented_of_splitComment hsplit) h

end Vocabulary

namespace Vocabulary

open Line

/-- A block that `readLine` gives and that is named like a comment is one, made from a line that starts with
    its slashes. -/
theorem readLine_isComment {v : Vocabulary} {line : Text} {b : Block}
    (h : (v.readLine line).result = .ok b) (hb : b.isComment = true) :
    ∃ comment, b = Block.comment comment := by
  have hbare : ∀ {t : Text} {comment : Option Text}, Uncommented t →
      (withComment v comment (readBare v t)).result ≠ .ok b := by
    intro t comment ht hread
    obtain ⟨b₀, hb₀, -, hattrs⟩ := withComment_ok hread
    -- what stands in front of a comment is not named like one
    have hid : b₀.attrs.id ≠ some "//".toList := (readBare_ok ht hb₀).1
    rw [Block.isComment, hattrs] at hb
    exact hid (by simpa using hb)
  unfold readLine at h
  dsimp only at h
  split at h
  · rename_i hsplit
    exact absurd h (hbare (uncommented_of_splitComment_eq_none hsplit))
  · rename_i front back hsplit
    split at h
    · -- nothing is in front of the slashes
      cases h
      exact ⟨_, rfl⟩
    · exact absurd h (hbare (uncommented_of_splitComment hsplit))

end Vocabulary

/-! ## What a line registers -/

/-- An outcome whose block remembers just what is sighted: the names of reporters, and the key of an
    unknown block. Without a block nothing is registered as a call. -/
structure Outcome.Registered (o : Outcome Block) : Prop where
  names : ∀ b, o.result = .ok b →
    o.sightings.filterMap Sighting.name? = b.allAttrs.filterMap (·.namedAs)
  calls : ∀ b, o.result = .ok b →
    o.sightings.filterMap Sighting.call? = b.allAttrs.filterMap (·.calledAs)
  failed : ∀ f, o.result = .error f → o.sightings.filterMap Sighting.call? = []

namespace Line

/-- `readBare` marks its complaints and its blocks like a fragment. -/
private theorem readBare_marked (v : Vocabulary) (line : Text) :
    (readBare v line).Marked Block.allAttrs := by
  -- the block that is put around an argument has no marks of its own
  have hlone : ∀ {α : Type} (g : Attrs → Option α) (b : Block),
      g { id := some ['_'], category := some .obsolete, shape := some .stack } = none →
      (lone b).allAttrs.filterMap g = b.allAttrs.filterMap g := by
    intro α g b hg
    unfold lone
    split
    · simp [Block.allAttrs, Block.toPiece, List.filterMap_cons, hg]
    · rfl
  unfold readBare
  split
  · refine (Fragment.read_marked v _ false line).map lone ?_ ?_
    · exact fun b => hlone _ b rfl
    · exact fun b => hlone _ b rfl
  · exact Fragment.read_marked v _ true line

/-- `recategorise` changes nothing that is sighted but the category of a reporter. -/
theorem filterMap_recategorise {α : Type} {g : Sighting → Option α}
    (hg : ∀ n c c', g (.reporter n c) = g (.reporter n c')) (b : Block) (c : Option Category)
    (ss : List Sighting) : (recategorise b c ss).filterMap g = ss.filterMap g := by
  unfold recategorise
  split
  · rename_i name category rest _
    rw [List.filterMap_cons, List.filterMap_cons, hg name c category]
  · rfl

/-- A header sights what it defines and the parameters of that, and nothing else. -/
private theorem filterMap_headerSightings {α : Type} {g : Sighting → Option α}
    (hdefinition : ∀ key, g (.definition key) = none) (hparameter : ∀ name, g (.parameter name) = none)
    (v : Vocabulary) (b : Block) : (headerSightings v b).filterMap g = [] := by
  refine List.filterMap_eq_nil_iff.2 fun s hs => ?_
  rcases List.mem_cons.1 hs with rfl | hs
  · exact hdefinition _
  · obtain ⟨p, -, hp⟩ := List.mem_filterMap.1 hs
    obtain ⟨name, -, rfl⟩ := Option.map_eq_some_iff.1 hp
    exact hparameter name

/-- By its `lineSightings` a line sights, apart from what a header does, a call if its block is unknown. -/
theorem filterMap_lineSightings {α : Type} {g : Sighting → Option α}
    (hdefinition : ∀ key, g (.definition key) = none) (hparameter : ∀ name, g (.parameter name) = none)
    (v : Vocabulary) (b : Block) :
    (lineSightings v b).filterMap g =
      if isUnknownBlock b then (g (.call (v.key b.spec))).toList else [] := by
  have hheader := filterMap_headerSightings hdefinition hparameter v b
  unfold lineSightings
  rw [List.filterMap_append]
  split <;> split <;> simp [hheader, List.filterMap_cons] <;> cases g _ <;> rfl

/-- Completing a line by its comment registers its block if that is unknown. -/
private theorem withComment_registered {v : Vocabulary} {comment : Option Text} {o : Outcome Block}
    (ho : o.Marked Block.allAttrs) : (withComment v comment o).Registered := by
  unfold withComment
  cases hresult : o.result with
  | error f =>
    refine ⟨?_, ?_, fun _ _ => ho.calls⟩
    · intro b hb
      cases hb
    · intro b hb
      cases hb
  | ok b₀ =>
    dsimp only
    have hnames' : (lineSightings v (applyDirective comment b₀).1).filterMap Sighting.name? = [] := by
      rw [filterMap_lineSightings (fun _ => rfl) fun _ => rfl]
      exact ite_self []
    have hcalls' := filterMap_lineSightings (g := Sighting.call?) (fun _ => rfl) (fun _ => rfl) v
      (applyDirective comment b₀).1
    -- the directive of a comment leaves all marks and the pieces alone
    have hdirective : (applyDirective comment b₀).1.pieces = b₀.pieces ∧
        (applyDirective comment b₀).1.attrs.namedAs = b₀.attrs.namedAs := by
      unfold applyDirective
      split
      · exact ⟨rfl, rfl⟩
      · split <;> exact ⟨rfl, rfl⟩
    -- only a whole line is called, so nothing that is nested is
    have huncalled : (b₀.pieces.flatMap Piece.allAttrs).filterMap (·.calledAs) = [] := by
      have hall := ho.uncalled b₀ hresult
      rw [Block.allAttrs, List.filterMap_cons] at hall
      split at hall
      · exact hall
      · cases hall
    refine ⟨fun b hb => ?_, fun b hb => ?_, fun f hf => ?_⟩
    · -- the names are those that were sighted: completing the line adds none
      cases hb
      rw [List.filterMap_append, filterMap_recategorise fun _ _ _ => rfl, hnames', List.append_nil,
        ho.names b₀ hresult]
      simp only [Block.allAttrs, settleLine, List.filterMap_cons, hdirective]
    · -- the call that is added is the one that the block remembers
      cases hb
      rw [List.filterMap_append, filterMap_recategorise fun _ _ _ => rfl, hcalls', ho.calls, List.nil_append]
      simp only [Block.allAttrs, settleLine, List.filterMap_cons, hdirective, huncalled]
      split <;> rfl
    · cases hf

end Line

namespace Vocabulary

open Line

/-- What `readLine` gives is `Registered`: the names of reporters and the key of a call that its block
    remembers. -/
theorem readLine_registered (v : Vocabulary) (line : Text) : (v.readLine line).Registered := by
  unfold readLine
  dsimp only
  split
  · exact withComment_registered (readBare_marked v _)
  · split
    · refine ⟨fun b hb => ?_, fun b hb => ?_, fun f hf => ?_⟩
      · -- a comment alone remembers nothing and sights nothing
        cases hb
        rfl
      · cases hb
        rfl
      · cases hf
    · exact withComment_registered (readBare_marked v _)

end Vocabulary

end BlockScript
