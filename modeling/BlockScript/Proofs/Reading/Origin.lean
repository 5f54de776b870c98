import BlockScript.Proofs.Lists
import BlockScript.Proofs.Reading.Form
import BlockScript.Proofs.Reading.Line

/-!
# Where blocks come from

Each block that a line gives has an origin in the text: the fragment that it has been read from, or one
of a few things that are no fragments. The origins of a line can be told without reading it, in the order
in which its attributes are listed, and an origin tells the attributes of its block: those that the form
of the fragment gives, in the category that a comment names for the whole line.

## Key results

- `Fragment.read_origins`: the attributes of a fragment are those that its origins give
- `Vocabulary.readLine_origins`: so are those of a line
- `Vocabulary.exists_read_of_mem_lineOrigins`: the fragments of a line have all been read
-/

namespace BlockScript

/-! ## Origins -/

/-- What a block of a line has been made from. -/
inductive Source where
  /-- A fragment: a line without its comment, or an argument with its brackets. -/
  | fragment (isLine : Bool) (code : Text)
  /-- The outline in the header of a defined block, or a parameter in it. -/
  | outline
  /-- The place around an insert that stands alone. -/
  | place
  /-- A line that is a comment. -/
  | comment
  /-- A line that is nested too deeply. -/
  | unread (line : Text)
  deriving DecidableEq

/-- Where a block comes from, with the category that the comment of its line names for it. -/
structure Origin where
  source : Source
  directive : Option Category := none
  deriving DecidableEq

namespace Origin

/-- The attributes of a block of the given origin when it has just been read, as far as the origin tells
    them. -/
def attrs? (v : Vocabulary) (o : Origin) : Option Attrs :=
  match o.source with
  | .fragment isLine code => (Fragment.form v isLine code).attrs?.map fun a =>
      { a with
        category := if a.shape = some .defineHat then a.category else o.directive.or a.category }
  | .outline => none
  | .place => some
      { id := some ['_'], category := o.directive.or (some .obsolete), shape := some .stack }
  | .comment => some { id := some "//".toList }
  | .unread line => some
      { id := some (Text.trim line), category := some .obsolete, shape := some .stack }

/-- What an origin tells of the attributes of its block. Left open are the comment and the key of a call,
    which a line adds, and the ring, which the block around it draws. -/
structure Gives (v : Vocabulary) (o : Origin) (a : Attrs) : Prop where
  attrs : o.source ≠ .outline → ∃ a₀, o.attrs? v = some a₀ ∧
    a = { a₀ with comment := a.comment, ringed := a.ringed, calledAs := a.calledAs }
  uncalled : ∀ line, o.source = .unread line → a.calledAs = none

/-- The given origins, the first of which is named a category for. -/
def direct (directive : Option Category) : List Origin → List Origin
  | [] => []
  | o :: os => { o with directive := directive } :: os

end Origin

/-- A ring around pieces changes none of their attributes but the ring. -/
private theorem Piece.forall₂_allAttrs_ring (ps : List Piece) :
    List.Forall₂ (fun a a' => a' = { a with ringed := a'.ringed })
      (ps.flatMap Piece.allAttrs) ((ps.map Piece.ring).flatMap Piece.allAttrs) := by
  -- a ring is drawn around the piece itself, and what is nested in it is left alone
  have hpiece : ∀ p : Piece, List.Forall₂ (fun a a' => a' = { a with ringed := a'.ringed })
      p.allAttrs p.ring.allAttrs := by
    intro p
    cases p with
    | text t => simp [ring]
    | block a qs =>
      rw [ring, allAttrs_block, allAttrs_block]
      exact .cons rfl (List.forall₂_same.2 fun _ _ => rfl)
  rw [List.flatMap_map]
  induction ps with
  | nil => exact .nil
  | cons p ps ih => exact List.rel_append (hpiece p) ih

namespace Fragment

/-- The origins of the blocks of a fragment that is read with the given number of levels left. -/
def origins (v : Vocabulary) : Nat → Bool → Text → List Origin
  | 0, _, _ => []
  | depth + 1, isLine, code =>
    ⟨.fragment isLine code, none⟩ ::
      match form v isLine code with
      | .whole b => (b.pieces.flatMap Piece.allAttrs).map fun _ => ⟨.outline, none⟩
      | f => f.slotted.flatMap (origins v depth false)

/-- However deep a fragment is nested, its attributes are those that its `origins` give. -/
theorem read_origins {v : Vocabulary} {depth : Nat} {isLine : Bool} {code : Text} {b : Block}
    (h : (read v depth isLine code).result = .ok b) :
    List.Forall₂ (Origin.Gives v) (origins v depth isLine code) b.allAttrs := by
  -- by induction on the depth: the first attributes are those of the fragment, the others come from arguments
  induction depth generalizing isLine code b with
  | zero => cases h
  | succ depth ih =>
    have hown : Origin.Gives v ⟨.fragment isLine code, none⟩ b.attrs := by
      refine ⟨fun _ => ⟨b.attrs, ?_, rfl⟩, fun line hsource => by cases hsource⟩
      rw [read_succ_result] at h
      simp only [Origin.attrs?, Form.attrs?_of_read h, Option.map_some, Option.none_or, ite_self]
    simp only [origins]
    refine .cons hown ?_
    obtain hform | ⟨attrs, words, parts, args, hform, hfinish⟩ := read_succ_eq_ok h
    · rw [hform]
      -- an origin in a header tells nothing
      have houtline : ∀ a, Origin.Gives v ⟨.outline, none⟩ a :=
        fun a => ⟨fun hsource => absurd rfl hsource, fun line hsource => by cases hsource⟩
      rw [List.forall₂_map_left_iff, List.forall₂_same]
      exact fun a _ => houtline a
    · rw [hform]
      obtain ⟨ps, hps, -, hpieces, -⟩ := finish_eq_ok hfinish
      have harguments : List.Forall₂ (Origin.Gives v)
          ((args.take (parts.count ['_'])).flatMap (origins v depth false))
          (ps.flatMap Piece.allAttrs) := by
        rw [← Block.flatMap_allAttrs_blocks]
        exact List.rel_flatMap (fillSlots_eq_ok hps).blocks fun arg b hb => ih hb
      rcases hpieces with hpieces | hpieces
      · rw [hpieces]
        exact harguments
      · -- the rings that overrides draw play no part
        rw [hpieces]
        refine (Lists.forall₂_comp harguments (Piece.forall₂_allAttrs_ring ps)).imp ?_
        rintro o a' ⟨a, hgives, hring⟩
        refine ⟨fun hsource => ?_, fun line hsource => ?_⟩
        · obtain ⟨a₀, ha₀, ha⟩ := hgives.attrs hsource
          exact ⟨a₀, ha₀, by rw [hring, ha]⟩
        · rw [hring]
          exact hgives.uncalled line hsource

/-- The fragments from which a block and its arguments come have all been read, and what they sight is
    sighted by the fragment around them. -/
private theorem exists_read_of_mem_origins {v : Vocabulary} {depth : Nat} {isLine isLine' : Bool}
    {code code' : Text} {b : Block} {o : Origin} (h : (read v depth isLine code).result = .ok b)
    (ho : o ∈ origins v depth isLine code) (hsource : o.source = .fragment isLine' code') :
    ∃ depth' b', (read v (depth' + 1) isLine' code').result = .ok b' ∧
      ∀ s ∈ (read v (depth' + 1) isLine' code').sightings, s ∈ (read v depth isLine code).sightings := by
  induction depth generalizing isLine code b with
  | zero => cases h
  | succ depth ih =>
    rw [origins] at ho
    rcases List.mem_cons.1 ho with rfl | ho
    · -- the fragment is the one that is read here
      cases hsource
      exact ⟨depth, b, h, fun s hs => hs⟩
    · rw [read_succ_sightings]
      obtain hform | ⟨attrs, words, parts, args, hform, hfinish⟩ := read_succ_eq_ok h
      · rw [hform] at ho
        -- what is in a header or an insert is no fragment
        obtain ⟨a, -, rfl⟩ := List.mem_map.1 ho
        cases hsource
      · rw [hform] at ho ⊢
        obtain ⟨arg, harg, ho⟩ := List.mem_flatMap.1 ho
        obtain ⟨ps, hps, -⟩ := finish_eq_ok hfinish
        have hfilled := fillSlots_eq_ok hps
        -- the argument has been read in its slot, so what it sights is among what the slots sight
        obtain ⟨i, hi⟩ := List.getElem?_of_mem harg
        obtain ⟨b₁, -, hb₁⟩ := Lists.exists_getElem?_of_forall₂ hfilled.blocks hi
        obtain ⟨depth', b', hread, hsightings⟩ := ih hb₁ ho
        refine ⟨depth', b', hread, fun s hs => ?_⟩
        have hslots : s ∈ (fillSlots (read v depth false) parts args).sightings := by
          rw [hfilled.sightings]
          exact List.mem_flatMap_of_mem harg (hsightings s hs)
        rw [Form.read, finish_sightings hfinish]
        simp [hslots]

end Fragment

/-! ## Lines -/

namespace Line

/-- The origins of the blocks of a line without its comment, which names the given category. -/
def bareOrigins (v : Vocabulary) (directive : Option Category) (line : Text) : List Origin :=
  if isLoneArgument v line then
    let os := Fragment.origins v Fragment.nestingLimit false line
    if (Fragment.form v false line).attrs?.bind (·.category) = none then
      ⟨.place, directive⟩ :: os
    else Origin.direct directive os
  else Origin.direct directive (Fragment.origins v Fragment.nestingLimit true line)

/-- The category that the comment of a line names. -/
def directiveOf (line : Text) : Option Category :=
  (splitComment [] (Text.trim line)).bind fun parts => directed? (some (Text.trim parts.2))

/-- The origins of the blocks of a line that is not nested too deeply. -/
def readOrigins (v : Vocabulary) (line : Text) : List Origin :=
  let line := Text.trim line
  match splitComment [] line with
  | none => bareOrigins v none line
  | some (front, back) =>
    let directive := directed? (some (Text.trim back))
    match Text.trim front with
    | [] => [⟨.comment, directive⟩]
    | front => bareOrigins v directive front

end Line

/-- The origins of the blocks of a line. -/
def Vocabulary.lineOrigins (v : Vocabulary) (line : Text) : List Origin :=
  match (v.readLine line).result with
  | .ok _ => Line.readOrigins v line
  | .error _ => [⟨.unread line, Line.directiveOf line⟩]

/-- A fragment gives its block the `category` that a comment names, unless it is a header. -/
theorem Origin.Gives.directed {v : Vocabulary} {isLine : Bool} {code : Text} {a a' : Attrs}
    {directive : Option Category} (h : Gives v ⟨.fragment isLine code, none⟩ a)
    (ha : a' = { a with
      category := if a.shape = some .defineHat then a.category else directive.or a.category
      comment := a'.comment, calledAs := a'.calledAs }) :
    Gives v ⟨.fragment isLine code, directive⟩ a' := by
  obtain ⟨a₀, ha₀, hread⟩ := h.attrs (by simp)
  -- without a comment the attributes are those of the form
  simp only [attrs?, Option.none_or, ite_self, Option.map_id'] at ha₀
  have hattrs : attrs? v ⟨.fragment isLine code, directive⟩ = some { a₀ with
      category := if a₀.shape = some .defineHat then a₀.category else directive.or a₀.category } := by
    simp only [attrs?, ha₀, Option.map_some]
  refine ⟨fun _ => ⟨_, hattrs, ?_⟩, fun line hline => by cases hline⟩
  rw [hread] at ha
  rw [ha]

namespace Line

/-- A line without its comment gives the attributes that its origins tell, in the category that the
    comment names. -/
private theorem withComment_origins {v : Vocabulary} {comment : Option Text} {line : Text} {b : Block}
    (h : (withComment v comment (readBare v line)).result = .ok b) :
    List.Forall₂ (Origin.Gives v) (bareOrigins v (directed? comment) line) b.allAttrs := by
  obtain ⟨b₀, hbare, hpieces, hattrs⟩ := withComment_ok h
  -- all but an insert that stands alone is the block of its fragment
  have hdirect : ∀ isLine, (v.readFragment isLine line).result = .ok b₀ →
      List.Forall₂ (Origin.Gives v)
        (Origin.direct (directed? comment) (Fragment.origins v Fragment.nestingLimit isLine line))
        b.allAttrs := by
    intro isLine hread
    have hgives := Fragment.read_origins hread
    rw [Block.allAttrs] at hgives
    rw [Block.allAttrs, hpieces]
    -- the comment is about the first block, which is that of the whole line
    cases hgives with
    | cons hown hrest => exact .cons (hown.directed hattrs) hrest
  unfold readBare at hbare
  unfold bareOrigins
  split at hbare
  · rename_i hlone
    obtain ⟨b₁, hread, rfl⟩ := Outcome.map_eq_ok hbare
    rw [if_pos hlone, Fragment.attrs?_of_readFragment hread, Option.bind_some]
    unfold lone at hpieces hattrs hdirect
    split
    · -- an insert, which is the only piece of the block that is put around it
      rename_i hinsert
      rw [if_pos hinsert] at hpieces hattrs
      rw [Block.allAttrs, hpieces, List.flatMap_singleton, Block.allAttrs_toPiece]
      refine .cons ⟨fun _ => ⟨_, rfl, ?_⟩, fun line hline => by cases hline⟩
        (Fragment.read_origins hread)
      rw [hattrs]
      rfl
    · rename_i hinsert
      rw [if_neg hinsert] at hdirect
      exact hdirect false hread
  · rename_i hlone
    rw [if_neg hlone]
    exact hdirect true hbare

end Line

/-- By its `readOrigins` a line is a comment, or it is a block that may have a comment. -/
theorem Line.readOrigins_cases (v : Vocabulary) (line : Text) :
    (∃ comment directive, v.readLine line = .done (Block.comment comment) ∧
        readOrigins v line = [⟨.comment, directive⟩]) ∨
      ∃ comment front, v.readLine line = withComment v comment (readBare v front) ∧
        readOrigins v line = bareOrigins v (directed? comment) front := by
  unfold Vocabulary.readLine readOrigins
  dsimp only
  cases splitComment [] (Text.trim line) with
  | none => exact .inr ⟨none, Text.trim line, rfl, rfl⟩
  | some parts =>
    cases hfront : Text.trim parts.1 with
    | nil => exact .inl ⟨Text.trim parts.2, _, by simp only [hfront], by simp only [hfront]; rfl⟩
    | cons c rest =>
      exact .inr ⟨some (Text.trim parts.2), c :: rest, by simp only [hfront], by simp only [hfront]⟩

/-- The attributes of the block that `readLine` gives are those that the `lineOrigins` tell. -/
theorem Vocabulary.readLine_origins {v : Vocabulary} {line : Text} {b : Block}
    (h : (v.readLine line).result = .ok b) :
    List.Forall₂ (Origin.Gives v) (v.lineOrigins line) b.allAttrs := by
  have horigins : v.lineOrigins line = Line.readOrigins v line := by
    rw [lineOrigins, h]
  rw [horigins]
  obtain ⟨comment, directive, hread, hcomment⟩ | ⟨comment, front, hread, hbare⟩ :=
    Line.readOrigins_cases v line
  · rw [hread] at h
    cases h
    rw [hcomment]
    exact .cons ⟨fun _ => ⟨_, rfl, rfl⟩, fun line hline => by cases hline⟩ .nil
  · rw [hread] at h
    rw [hbare]
    exact Line.withComment_origins h

namespace Line

/-- A fragment among the origins of a line has been read on some level, and what it sights the line sights. -/
private theorem exists_read_of_mem_bareOrigins {v : Vocabulary} {directive : Option Category}
    {line code : Text}
    {isLine : Bool} {b : Block} {o : Origin} (h : (readBare v line).result = .ok b)
    (ho : o ∈ bareOrigins v directive line) (hsource : o.source = .fragment isLine code) :
    ∃ depth b', (Fragment.read v (depth + 1) isLine code).result = .ok b' ∧
      ∀ s ∈ (Fragment.read v (depth + 1) isLine code).sightings, s ∈ (readBare v line).sightings := by
  -- a directive changes no source
  have hdirect : ∀ os, o ∈ Origin.direct directive os → ∃ o' ∈ os, o'.source = o.source := by
    intro os ho
    cases os with
    | nil => cases ho
    | cons o' os =>
      rcases List.mem_cons.1 ho with rfl | ho
      · exact ⟨o', List.mem_cons_self, rfl⟩
      · exact ⟨o, List.mem_cons_of_mem _ ho, rfl⟩
  -- so it is enough to look at the fragment of the whole line
  have horigins : ∀ isLine', (∃ b', (v.readFragment isLine' line).result = .ok b') →
      (∃ o' ∈ Fragment.origins v Fragment.nestingLimit isLine' line, o'.source = o.source) →
      (v.readFragment isLine' line).sightings = (readBare v line).sightings →
      ∃ depth b', (Fragment.read v (depth + 1) isLine code).result = .ok b' ∧
        ∀ s ∈ (Fragment.read v (depth + 1) isLine code).sightings,
          s ∈ (readBare v line).sightings := by
    rintro isLine' ⟨b', hb'⟩ ⟨o', ho', hsource'⟩ hsightings
    rw [← hsightings]
    exact Fragment.exists_read_of_mem_origins hb' ho' (hsource'.trans hsource)
  unfold bareOrigins at ho
  split at ho
  · rename_i hlone
    -- an argument that stands alone has been read in its brackets
    have hsightings : (v.readFragment false line).sightings = (readBare v line).sightings := by
      rw [readBare, if_pos hlone]
      rfl
    rw [readBare, if_pos hlone] at h
    obtain ⟨b', hb', -⟩ := Outcome.map_eq_ok h
    refine horigins false ⟨b', hb'⟩ ?_ hsightings
    dsimp only at ho
    split at ho
    · -- the place around an insert is no fragment
      rcases List.mem_cons.1 ho with rfl | ho
      · cases hsource
      · exact ⟨o, ho, rfl⟩
    · exact hdirect _ ho
  · rename_i hlone
    -- any other line has been read as a line
    have hbare : readBare v line = v.readFragment true line := if_neg hlone
    rw [hbare] at h
    exact horigins true ⟨b, h⟩ (hdirect _ ho) (by rw [hbare])

/-- A comment changes nothing of what is sighted but the categories of reporters. -/
private theorem mem_withComment_sightings {v : Vocabulary} {comment : Option Text} {o : Outcome Block}
    {s : Sighting} (hs : s ∈ o.sightings) (hreporter : s.reporter? = none) :
    s ∈ (withComment v comment o).sightings := by
  have hrecategorised : ∀ (b : Block) (c : Option Category), s ∈ recategorise b c o.sightings := by
    intro b c
    unfold recategorise
    -- only the sighting at the head can be a reporter that a comment speaks of
    split
    · rename_i name category rest _ hsightings
      rw [hsightings] at hs
      rcases List.mem_cons.1 hs with rfl | hs
      · cases hreporter
      · exact List.mem_cons_of_mem _ hs
    · exact hs
  unfold withComment
  split
  · exact hs
  · exact List.mem_append_left _ (hrecategorised _ _)

end Line

/-- The fragments among the `lineOrigins` have all been read, and what they sight is sighted by the line,
    apart from the categories of reporters. -/
theorem Vocabulary.exists_read_of_mem_lineOrigins {v : Vocabulary} {line code : Text} {isLine : Bool}
    {o : Origin} (ho : o ∈ v.lineOrigins line) (hsource : o.source = .fragment isLine code) :
    ∃ depth b, (Fragment.read v (depth + 1) isLine code).result = .ok b ∧
      ∀ s ∈ (Fragment.read v (depth + 1) isLine code).sightings, s.reporter? = none →
        s ∈ (v.readLine line).sightings := by
  unfold lineOrigins at ho
  cases hresult : (v.readLine line).result with
  -- a line that cannot be read has no origins but itself
  | error f =>
    rw [hresult, List.mem_singleton] at ho
    subst ho
    cases hsource
  | ok b =>
    rw [hresult] at ho
    -- a line is a comment, or it is read without its comment
    obtain ⟨comment, directive, -, hcomment⟩ | ⟨comment, front, hread, hbare⟩ :=
      Line.readOrigins_cases v line
    · simp only [hcomment, List.mem_singleton] at ho
      subst ho
      cases hsource
    · rw [hread] at hresult ⊢
      obtain ⟨b₀, hb₀, -⟩ := Line.withComment_ok hresult
      obtain ⟨depth, b', hfragment, hsightings⟩ :=
        Line.exists_read_of_mem_bareOrigins hb₀ (hbare ▸ ho) hsource
      refine ⟨depth, b', hfragment, fun s hs hreporter => ?_⟩
      -- a comment takes nothing away but what is sighted of a reporter
      exact Line.mem_withComment_sightings (hsightings s hs) hreporter

end BlockScript
