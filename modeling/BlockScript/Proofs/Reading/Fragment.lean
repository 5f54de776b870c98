import BlockScript.Proofs.Block.Attrs
import BlockScript.Proofs.Reading.Spec
import BlockScript.Proofs.Vocabulary.Found

/-!
# What reading a fragment gives

A fragment that is read gives a block together with what is sighted on the way. Two things are shown
about it. The block carries a language unless it is a header or an insert, and it is named like a
comment only if its text starts like one. And its attributes, at any depth, remember just the names of
reporters that have been sighted.

## Key results

- `Fragment.readWith_ok`: what is known of the block that a fragment gives
- `Fragment.finish_eq_ok`, `Fragment.finish_sightings`: what overrides make of a block, and what is sighted
- `Fragment.read_marked`: sightings of reporters and the names that attributes remember are the same
-/

namespace BlockScript

/-! ## Outcomes that are results -/

namespace Outcome

variable {α β γ : Type}

/-- What `map` gives it gives of something. -/
theorem map_eq_ok {o : Outcome α} {f : α → β} {b : β} (h : (o.map f).result = .ok b) :
    ∃ a, o.result = .ok a ∧ b = f a := by
  simp only [map] at h
  cases ho : o.result with
  | error e => simp [ho, Except.map] at h
  | ok a =>
    simp only [ho, Except.map, Except.ok.injEq] at h
    exact ⟨a, rfl, h.symm⟩

/-- A reading with `andThen` that joins two results gives what both give. -/
theorem andThen_map_eq_ok {o : Outcome α} {next : Outcome β} {join : α → β → γ} {c : γ}
    (h : (o.andThen fun a => next.map (join a)).result = .ok c) :
    ∃ a b, o.result = .ok a ∧ next.result = .ok b ∧ c = join a b := by
  unfold andThen at h
  cases ho : o.result with
  | error e => simp [ho] at h
  | ok a =>
    simp only [ho] at h
    obtain ⟨b, hb, hc⟩ := map_eq_ok h
    exact ⟨a, b, rfl, hb, hc⟩

end Outcome

/-! ## Marks -/

/-- The name under which an unknown reporter is sighted. -/
def Sighting.name? (s : Sighting) : Option Text := s.reporter?.map (·.1)

/-- An outcome whose result remembers, in its attributes, the reporters that are sighted, one by one and
    in order. No calls are sighted or remembered. -/
structure Outcome.Marked {α : Type} (attrs : α → List Attrs) (o : Outcome α) : Prop where
  names : ∀ a, o.result = .ok a →
    o.sightings.filterMap Sighting.name? = (attrs a).filterMap (·.namedAs)
  calls : o.sightings.filterMap Sighting.call? = []
  uncalled : ∀ a, o.result = .ok a → (attrs a).filterMap (·.calledAs) = []

namespace Outcome.Marked

variable {α β γ : Type} {attrs : α → List Attrs} {attrs' : β → List Attrs}
  {attrs'' : γ → List Attrs}

/-- A result without any marks is `Marked` without sightings. -/
theorem done {a : α} (hnamed : (attrs a).filterMap (·.namedAs) = [])
    (hcalled : (attrs a).filterMap (·.calledAs) = []) : (Outcome.done a).Marked attrs := by
  refine ⟨?_, rfl, ?_⟩
  · intro b hb
    cases hb
    exact hnamed.symm
  · intro b hb
    cases hb
    exact hcalled

/-- A failure leaves no result that could remember anything. -/
private theorem of_error {o : Outcome α} {f : Fault} (h : o.result = .error f)
    (hcalls : o.sightings.filterMap Sighting.call? = []) : o.Marked attrs := by
  refine ⟨?_, hcalls, ?_⟩
  · intro a ha
    simp [h] at ha
  · intro a ha
    simp [h] at ha

/-- `Marked` is kept by a change of the result that leaves its marks alone. -/
theorem map {o : Outcome α} (ho : o.Marked attrs) (f : α → β)
    (hnamed : ∀ a, (attrs' (f a)).filterMap (·.namedAs) = (attrs a).filterMap (·.namedAs))
    (hcalled : ∀ a, (attrs' (f a)).filterMap (·.calledAs) = (attrs a).filterMap (·.calledAs)) :
    (o.map f).Marked attrs' := by
  refine ⟨?_, ho.calls, ?_⟩
  · intro b hb
    obtain ⟨a, ha, rfl⟩ := Outcome.map_eq_ok hb
    rw [hnamed]
    exact ho.names a ha
  · intro b hb
    obtain ⟨a, ha, rfl⟩ := Outcome.map_eq_ok hb
    rw [hcalled]
    exact ho.uncalled a ha

/-- `Marked` is kept by two readings after each other, with a result that joins the marks of both. -/
theorem andThen {o : Outcome α} {next : Outcome β} (ho : o.Marked attrs)
    (hnext : next.Marked attrs') (join : α → β → γ)
    (hjoin : ∀ a b, attrs'' (join a b) = attrs a ++ attrs' b) :
    (o.andThen fun a => next.map (join a)).Marked attrs'' := by
  unfold Outcome.andThen
  cases hresult : o.result with
  -- the second reading does not happen, and a failure has only calls to answer for
  | error e => exact .of_error rfl ho.calls
  | ok a =>
    refine ⟨?_, ?_, ?_⟩
    · intro c hc
      obtain ⟨b, hb, rfl⟩ := Outcome.map_eq_ok hc
      simp only [Outcome.map, List.filterMap_append, hjoin, ho.names a hresult, hnext.names b hb]
    · simp only [Outcome.map, List.filterMap_append, ho.calls, hnext.calls, List.append_nil]
    · intro c hc
      obtain ⟨b, hb, rfl⟩ := Outcome.map_eq_ok hc
      simp only [List.filterMap_append, hjoin, ho.uncalled a hresult, hnext.uncalled b hb,
        List.append_nil]

end Outcome.Marked

namespace Fragment

/-! ## Blocks -/

/-- What is identified has a language and no key of a call, and is named like a comment only by its
    spec. -/
private theorem identify_attrs {v : Vocabulary} {spec : Text} {args : List Text} {shape : Shape} {f : Found}
    (h : identify v spec args shape = .ok f) :
    f.attrs.lang ≠ none ∧ f.attrs.calledAs = none ∧
      (f.attrs.id = some "//".toList → spec = "//".toList) := by
  unfold identify at h
  split at h
  · cases h
  · cases h
    exact ⟨by simp [unknownAttrs], rfl, fun hid => Option.some.inj hid⟩
  · rename_i attrs text hfound
    cases h
    split at hfound
    · cases hfound
    · obtain ⟨hlang, hid, -, hcalled⟩ := Vocabulary.find?_attrs hfound
      exact ⟨hlang, hcalled, fun h => absurd h hid⟩

/-- What `finish` makes of a block that is read: overrides set its attributes, and may draw rings. -/
theorem finish_eq_ok {attrs : Attrs} {words : List Text} {pieces : Outcome (List Piece)} {b : Block}
    (h : (finish attrs words pieces).result = .ok b) :
    ∃ ps, pieces.result = .ok ps ∧
      b.attrs = Override.applyAll (words.map .ofWord) attrs ∧
      (b.pieces = ps ∨ b.pieces = ps.map Piece.ring) ∧
      (words = [] → b.pieces = ps) := by
  unfold finish at h
  split at h
  · cases h
  · rename_i ps hps
    refine ⟨ps, hps, ?_⟩
    simp only [Except.ok.injEq] at h
    subst h
    by_cases hwords : words = []
    · subst hwords
      exact ⟨rfl, .inl rfl, fun _ => rfl⟩
    · rw [if_neg hwords]
      refine ⟨rfl, ?_, fun h => absurd h hwords⟩
      -- with words there may be rings around the pieces
      simp only [override]
      split
      · exact .inr rfl
      · exact .inl rfl

/-- What `finish` sights: the block itself, what its pieces sight, and without overrides a list. -/
theorem finish_sightings {attrs : Attrs} {words : List Text} {pieces : Outcome (List Piece)} {b : Block}
    (h : (finish attrs words pieces).result = .ok b) :
    (finish attrs words pieces).sightings = ownSighting b.attrs ++ pieces.sightings ++
      (if words = [] then (listUse? b).toList.map .list else []) := by
  unfold finish at h ⊢
  split at h
  · cases h
  · rename_i ps hps
    simp only [Except.ok.injEq] at h
    simp only [h]

/-- What is known of the block that `readWith` gives: it is a header or an insert, or it has a language, and
    then it is named like a comment only if its text starts like one. -/
theorem readWith_ok {v : Vocabulary} {nested : Text → Outcome Block} {isLine : Bool} {code : Text}
    {b : Block} (h : (readWith v nested isLine code).result = .ok b) :
    b.attrs.flag = none ∧ b.attrs.id = none ∨
      b.attrs.lang ≠ none ∧ (b.attrs.id = some "//".toList →
        ∃ lead rest, (if isLine then code else Bracket.strip code) = lead ++ '/' :: '/' :: rest ∧
          ∀ c ∈ lead, Text.isBlank c = true) := by
  simp only [readWith, Outcome.after] at h
  split at h
  · -- a header
    cases h
    exact .inl ⟨rfl, rfl⟩
  · split at h
    · -- an insert
      cases h
      exact .inl ⟨rfl, rfl⟩
    · unfold readBlock at h
      dsimp only at h
      split at h
      · -- a block that cannot be drawn
        cases h
      · rename_i attrs text hfound
        obtain ⟨hlang, -, hid⟩ := identify_attrs hfound
        obtain ⟨ps, -, hattrs, -⟩ := finish_eq_ok h
        rw [Override.applyAll_eq] at hattrs
        refine .inr ⟨by rw [hattrs]; exact hlang, fun hb => ?_⟩
        -- overrides leave the name alone, so it is the spec
        rw [hattrs] at hb
        exact starts_with_slashes (hid hb)

/-! ## Marks of fragments -/

/-- `fillSlots` marks what it reads like the readings of the arguments. -/
private theorem fillSlots_marked {nested : Text → Outcome Block}
    (h : ∀ t, (nested t).Marked Block.allAttrs) (parts args : List Text) :
    (fillSlots nested parts args).Marked (·.flatMap Piece.allAttrs) := by
  induction parts generalizing args with
  | nil =>
    rw [fillSlots]
    exact .done rfl rfl
  | cons part parts ih =>
    unfold fillSlots
    split
    · rename_i arg args
      refine (h arg).andThen (ih args) (fun b ps => b.toPiece :: ps) fun b ps => ?_
      rw [List.flatMap_cons, Block.allAttrs_toPiece]
    · exact (ih args).map _ (fun ps => by simp) (fun ps => by simp)

/-- A block is sighted under the name that it remembers. -/
private theorem filterMap_name?_ownSighting (a : Attrs) :
    (ownSighting a).filterMap Sighting.name? = a.namedAs.toList := by
  unfold ownSighting
  cases a.namedAs <;> rfl

/-- By its `ownSighting` a block is sighted as a reporter only. -/
theorem filterMap_ownSighting {α : Type} {g : Sighting → Option α} (hg : ∀ n c, g (.reporter n c) = none)
    (a : Attrs) : (ownSighting a).filterMap g = [] := by
  unfold ownSighting
  cases a.namedAs with
  | none => rfl
  | some n => simp [hg]

/-- Rings are drawn without a trace in the marks. -/
private theorem filterMap_allAttrs_of_pieces {α : Type} (g : Attrs → Option α)
    (hg : ∀ a : Attrs, g { a with ringed := true } = g a) {b : Block} {ps : List Piece}
    (hpieces : b.pieces = ps ∨ b.pieces = ps.map Piece.ring) :
    b.allAttrs.filterMap g = (g b.attrs).toList ++ (ps.flatMap Piece.allAttrs).filterMap g := by
  have hring : ((ps.map Piece.ring).flatMap Piece.allAttrs).filterMap g =
      (ps.flatMap Piece.allAttrs).filterMap g := by
    simp only [List.flatMap_map, List.filterMap_flatMap, Piece.filterMap_allAttrs_ring g hg]
  have hps : (b.pieces.flatMap Piece.allAttrs).filterMap g = (ps.flatMap Piece.allAttrs).filterMap g := by
    rcases hpieces with hpieces | hpieces <;> rw [hpieces]
    exact hring
  rw [Block.allAttrs, List.filterMap_cons, hps]
  cases g b.attrs <;> rfl

/-- A finished block remembers its own name and the marks of its pieces. -/
private theorem finish_marked {attrs : Attrs} (hcalled : attrs.calledAs = none) (words : List Text)
    {pieces : Outcome (List Piece)} (h : pieces.Marked (·.flatMap Piece.allAttrs)) :
    (finish attrs words pieces).Marked Block.allAttrs := by
  have hcalls : ∀ a : Attrs, (ownSighting a).filterMap Sighting.call? = [] :=
    filterMap_ownSighting fun _ _ => rfl
  refine ⟨fun b hb => ?_, ?_, fun b hb => ?_⟩
  · -- the block is sighted before its pieces, as its attributes stand before theirs
    obtain ⟨ps, hps, -, hpieces, -⟩ := finish_eq_ok hb
    have hlists : (if words = [] then (listUse? b).toList.map Sighting.list else []).filterMap
        Sighting.name? = [] := by
      split
      · cases listUse? b <;> rfl
      · rfl
    rw [filterMap_allAttrs_of_pieces (·.namedAs) (fun _ => rfl) hpieces, ← h.names ps hps,
      finish_sightings hb, List.filterMap_append, List.filterMap_append, filterMap_name?_ownSighting,
      hlists, List.append_nil]
  · -- calls are not sighted, whether the pieces fail or not
    unfold finish
    split
    · simp [List.filterMap_append, hcalls, h.calls]
    · dsimp only
      split <;> simp [List.filterMap_append, hcalls, h.calls, Sighting.call?]
  · obtain ⟨ps, hps, hattrs, hpieces, -⟩ := finish_eq_ok hb
    rw [filterMap_allAttrs_of_pieces (·.calledAs) (fun _ => rfl) hpieces, h.uncalled ps hps, hattrs,
      Override.applyAll_eq, hcalled]
    rfl

/-- A block remembers what is sighted in it if what is nested in it does. -/
private theorem readBlock_marked {v : Vocabulary} {nested : Text → Outcome Block}
    (h : ∀ t, (nested t).Marked Block.allAttrs) (shape : Shape) (pieces : List Text) :
    (readBlock v nested shape pieces).Marked Block.allAttrs := by
  unfold readBlock
  dsimp only
  split
  · exact .of_error rfl rfl
  · rename_i attrs text hfound
    obtain ⟨-, hcalled, -⟩ := identify_attrs hfound
    exact finish_marked hcalled _ (fillSlots_marked h _ _)

/-- An `outlinePiece?` is a parameter, or text that does not look like one. -/
theorem eq_of_outlinePiece? {t : Text} {p : Piece} (h : outlinePiece? t = some p) :
    p = (parameter t).toPiece ∨ Bracket.leading? t = none ∧ p = .text t := by
  unfold outlinePiece? at h
  split at h
  · cases h
    exact .inl rfl
  · rename_i hliteral
    split at h
    · cases h
    · cases h
      exact .inr ⟨Option.not_isSome_iff_eq_none.1 hliteral, rfl⟩

/-- Nothing in the header of a defined block remembers a name or a call. -/
private theorem unmarked_of_mem_definition {code word : Text} {pieces : List Text} {a : Attrs}
    (h : a ∈ (definition code word pieces).allAttrs) : a.namedAs = none ∧ a.calledAs = none := by
  simp only [definition, Block.allAttrs, List.flatMap_cons, List.flatMap_nil, Piece.allAttrs_text,
    Piece.allAttrs_block, List.nil_append, List.append_nil, List.mem_cons] at h
  rcases h with rfl | rfl | h
  · exact ⟨rfl, rfl⟩
  · exact ⟨rfl, rfl⟩
  · obtain ⟨p, hp, ha⟩ := List.mem_flatMap.1 h
    obtain ⟨t, -, ht⟩ := List.mem_filterMap.1 hp
    rcases eq_of_outlinePiece? ht with rfl | ⟨-, rfl⟩
    · obtain rfl : a = (parameter t).attrs := by simpa [Block.toPiece, parameter] using ha
      exact ⟨rfl, rfl⟩
    · simp at ha

/-- The parameters in the header of a defined block have no marks. -/
private theorem definition_marked (code word : Text) (pieces : List Text) :
    (Outcome.done (definition code word pieces)).Marked Block.allAttrs := by
  refine .done ?_ ?_
  · exact List.filterMap_eq_nil_iff.2 fun a ha => (unmarked_of_mem_definition ha).1
  · exact List.filterMap_eq_nil_iff.2 fun a ha => (unmarked_of_mem_definition ha).2

/-- So does `readWith`, if the arguments do. -/
private theorem readWith_marked {v : Vocabulary} {nested : Text → Outcome Block}
    (h : ∀ t, (nested t).Marked Block.allAttrs) (isLine : Bool) (code : Text) :
    (readWith v nested isLine code).Marked Block.allAttrs := by
  have hafter : ∀ (complaints : List Complaint) (o : Outcome Block), o.Marked Block.allAttrs →
      (o.after complaints []).Marked Block.allAttrs :=
    fun complaints o ho => ⟨ho.names, ho.calls, ho.uncalled⟩
  refine hafter _ _ ?_
  split
  · exact definition_marked _ _ _
  · split
    · exact .done rfl rfl
    · exact readBlock_marked h _ _

/-- However deep a fragment is nested, what `read` gives is `Marked`: its block remembers what is sighted in
    it. -/
theorem read_marked (v : Vocabulary) (depth : Nat) (isLine : Bool) (code : Text) :
    (read v depth isLine code).Marked Block.allAttrs := by
  -- the arguments are read with one level less
  induction depth generalizing isLine code with
  | zero => exact .of_error rfl rfl
  | succ depth ih =>
    rw [read]
    exact readWith_marked (ih false) isLine code

/-! ## Levels -/

/-- `nestingLimit` leaves levels enough for a line with arguments. -/
theorem two_le_nestingLimit : 2 ≤ nestingLimit := by
  decide

/-- Read what is nested in a fragment that `Vocabulary.readFragment` reads: with one level less. -/
def readArgument (v : Vocabulary) : Text → Outcome Block :=
  read v (nestingLimit - 1) false

/-- There is at least one level, so `Vocabulary.readFragment` reads the fragment itself. -/
theorem readFragment_eq_readWith (v : Vocabulary) (isLine : Bool) (code : Text) :
    v.readFragment isLine code = readWith v (readArgument v) isLine code := by
  have hlimit : nestingLimit = nestingLimit - 1 + 1 := by
    have := two_le_nestingLimit
    omega
  rw [Vocabulary.readFragment, hlimit, read]
  rfl

/-- And there are two, so `readArgument` reads an argument of it. -/
theorem readArgument_eq_readWith (v : Vocabulary) (arg : Text) :
    readArgument v arg = readWith v (read v (nestingLimit - 2) false) false arg := by
  have hlimit : nestingLimit - 1 = nestingLimit - 2 + 1 := by
    have := two_le_nestingLimit
    omega
  rw [readArgument, hlimit, read]

end Fragment

end BlockScript
