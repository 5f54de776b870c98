import BlockScript.Proofs.Workspace.Conservation

/-!
# Resolution is exact

The attributes of the blocks of a text remember what has been registered for them while the lines were
read: the key of an unknown block, and the name of an unknown reporter. What resolution does to a block,
at any depth, can therefore be told from the tables of keys and names.

## Key results

- `Vocabulary.layOut_calls`, `Vocabulary.layOut_names`: what is remembered is what has been registered
- `Vocabulary.resolution_exact`: what resolution changes, and that neither the order of the lines nor
  another resolution plays a part
-/

namespace BlockScript

/-! ## What blocks remember -/

/-- Laying out a block changes none of its data but category, shape and mark. -/
private theorem Block.Settled.filterMap_allAttrs {b b' : Block} (h : b.Settled b')
    (g : Attrs → Option Text)
    (hg : ∀ a c s e, g { a with category := c, shape := s, capEnd := e } = g a) :
    b'.allAttrs.filterMap g = b.allAttrs.filterMap g := by
  have hattrs : g b'.attrs = g b.attrs := by
    rw [h.attrs, hg]
  rw [allAttrs, allAttrs, List.filterMap_cons, List.filterMap_cons, h.pieces, hattrs]

/-- An end that nobody wrote remembers nothing. -/
private theorem Block.filterMap_allAttrs_of_isImplied {b : Block} (h : b.isImplied = true) :
    b.allAttrs.filterMap (·.namedAs) = [] ∧ b.allAttrs.filterMap (·.calledAs) = [] := by
  obtain ⟨c, e, rfl⟩ := (isImplied_iff b).1 h
  exact ⟨rfl, rfl⟩

namespace Vocabulary

/-- The attributes of scripts are those of their blocks. -/
private theorem flatMap_allAttrs (scripts : List Script) (g : Attrs → Option Text) :
    (scripts.flatMap Script.allAttrs).filterMap g =
      (scripts.flatMap Script.blocks).flatMap fun b => b.allAttrs.filterMap g := by
  simp only [Script.allAttrs, List.filterMap_flatMap, List.flatMap_assoc]

/-- What `readLine` sights as calls is what the block of the line remembers. -/
theorem lineBlock_calls {v : Vocabulary} {line : Text} {b : Block} (h : v.lineBlock line = .ok b) :
    (v.readLine line).sightings.filterMap Sighting.call? = b.allAttrs.filterMap (·.calledAs) := by
  have hregistered := v.readLine_registered line
  obtain hread | ⟨hread, rfl⟩ := lineBlock_ok h
  · exact hregistered.calls b hread
  · exact hregistered.failed _ hread

/-- What `readLine` sights as names is what the block of the line remembers, and more only if it is nested too
    deeply. -/
theorem lineBlock_names {v : Vocabulary} {line : Text} {b : Block} (h : v.lineBlock line = .ok b) :
    (b.allAttrs.filterMap (·.namedAs)).Sublist
      ((v.readLine line).sightings.filterMap Sighting.name?) := by
  obtain hread | ⟨-, rfl⟩ := lineBlock_ok h
  · rw [(v.readLine_registered line).names b hread]
  · exact List.nil_sublist _

/-- The blocks that `layOut` gives remember just the calls that have been registered, in order. -/
theorem layOut_calls {v : Vocabulary} {text : Text} {w : Workspace} (h : v.layOut text = .ok w) :
    (w.scripts.flatMap Script.allAttrs).filterMap (·.calledAs) =
      w.session.sightings.filterMap Sighting.call? := by
  obtain ⟨-, hsightings, -, -⟩ := layOut_ok h
  rw [flatMap_allAttrs, ← Lists.flatMap_filter_of_nil (p := fun b => !b.isImplied) ?_,
    hsightings, List.filterMap_flatMap]
  · refine (Lists.flatMap_eq_of_forall₂ (layOut_settled h) ?_).symm
    rintro line b ⟨b₀, hline, hb⟩
    rw [lineBlock_calls hline, hb.filterMap_allAttrs _ fun _ _ _ _ => rfl]
  · intro b hb
    exact (Block.filterMap_allAttrs_of_isImplied (by simpa using hb)).2

/-- The names that the blocks which `layOut` gives remember have been registered, in order. -/
theorem layOut_names {v : Vocabulary} {text : Text} {w : Workspace} (h : v.layOut text = .ok w) :
    ((w.scripts.flatMap Script.allAttrs).filterMap (·.namedAs)).Sublist
      (w.session.sightings.filterMap Sighting.name?) := by
  obtain ⟨-, hsightings, -, -⟩ := layOut_ok h
  rw [flatMap_allAttrs, ← Lists.flatMap_filter_of_nil (p := fun b => !b.isImplied) ?_,
    hsightings, List.filterMap_flatMap]
  · refine Lists.flatMap_sublist_of_forall₂ (layOut_settled h) ?_
    rintro line b ⟨b₀, hline, hb⟩
    rw [hb.filterMap_allAttrs _ fun _ _ _ _ => rfl]
    exact lineBlock_names hline
  · intro b hb
    exact (Block.filterMap_allAttrs_of_isImplied (by simpa using hb)).1

end Vocabulary

/-! ## What resolution changes -/

/-- Attributes but for the category. -/
def Attrs.uncategorised (a : Attrs) : Attrs := { a with category := none }

/-- To `resolve` once more changes nothing. -/
theorem Workspace.resolve_resolve (w : Workspace) : w.resolve.resolve = w.resolve := by
  have honce : w.session.resolved ∘ w.session.resolved = w.session.resolved :=
    funext w.session.resolved_resolved
  simp only [resolve, Layout.resolve_eq, Layout.mapAttrs_mapAttrs, honce]

namespace Vocabulary

/-- The order of the lines plays no part in what `resolved` does to a block. -/
theorem layOut_resolved_eq_of_perm {v : Vocabulary} {text text' : Text} {w w' : Workspace}
    (h : v.layOut text = .ok w) (h' : v.layOut text' = .ok w')
    (hperm : (Text.writtenLines text').Perm (Text.writtenLines text)) :
    w'.session.resolved = w.session.resolved := by
  obtain ⟨-, hsightings, -, -⟩ := layOut_ok h
  obtain ⟨-, hsightings', -, -⟩ := layOut_ok h'
  refine Session.resolved_congr ?_
  rw [hsightings, hsightings']
  exact hperm.flatMap_right _

/-- `parse` is `layOut` and then `resolve`, which changes nothing but the categories of blocks, at any depth:
    the attributes become what `Resolves` allows by the tables of calls, lists and parameters, in which the
    blocks have been registered while the lines were read, and all else is as it was `uncategorised`. It makes
    no difference in which order the lines stand, and to `resolve` once more changes nothing. -/
theorem resolution_exact {v : Vocabulary} {text : Text} {w : Workspace}
    (h : v.layOut text = .ok w) :
    v.parse text = .ok w.resolve ∧
      List.Forall₂ (Attrs.Resolves w.session) (w.scripts.flatMap Script.allAttrs)
        (w.resolve.scripts.flatMap Script.allAttrs) ∧
      w.resolve.scripts.map (Script.mapAttrs Attrs.uncategorised) =
        w.scripts.map (Script.mapAttrs Attrs.uncategorised) ∧
      (w.scripts.flatMap Script.allAttrs).filterMap (·.calledAs) =
        w.session.sightings.filterMap Sighting.call? ∧
      ((w.scripts.flatMap Script.allAttrs).filterMap (·.namedAs)).Sublist
        (w.session.sightings.filterMap Sighting.name?) ∧
      (∀ text' w', v.layOut text' = .ok w' →
        (Text.writtenLines text').Perm (Text.writtenLines text) →
          w'.session.resolved = w.session.resolved) ∧
      w.resolve.resolve = w.resolve := by
  refine ⟨?_, ?_, ?_, layOut_calls h, layOut_names h,
    fun text' w' h' hperm => layOut_resolved_eq_of_perm h h' hperm, w.resolve_resolve⟩
  · rw [parse_eq, h]
    rfl
  · -- each attribute is resolved by itself, where it stands
    have hattrs : w.resolve.scripts.flatMap Script.allAttrs =
        (w.scripts.flatMap Script.allAttrs).map w.session.resolved := by
      simp only [Workspace.scripts_resolve, List.flatMap_map, List.map_flatMap,
        Script.allAttrs_mapAttrs]
    rw [hattrs, List.forall₂_map_right_iff, List.forall₂_same]
    exact fun a _ => w.session.resolves a
  · -- resolution sets the category, which `uncategorised` forgets
    have hcategory : Attrs.uncategorised ∘ w.session.resolved = Attrs.uncategorised := by
      funext a
      rw [Function.comp_apply, Session.resolved_eq]
      rfl
    simp only [Workspace.scripts_resolve, List.map_map]
    refine List.map_congr_left fun s _ => ?_
    rw [Function.comp_apply, Script.mapAttrs_mapAttrs, hcategory]

/-- A vocabulary that knows how to define a block and nothing else. -/
def defining : Vocabulary := { empty true with headerWords := ["define".toList] }

/-- A block that is called before it is defined. -/
theorem resolution_exact_of_late_definition :
    ∃ w, defining.layOut "foo\n\ndefine foo".toList = .ok w ∧
      defining.parse "foo\n\ndefine foo".toList = .ok w.resolve ∧
      List.Forall₂ (Attrs.Resolves w.session) (w.scripts.flatMap Script.allAttrs)
        (w.resolve.scripts.flatMap Script.allAttrs) := by
  obtain ⟨w, hw⟩ : ∃ w, defining.layOut "foo\n\ndefine foo".toList = .ok w :=
    exists_eq_ok_of_isOk (by decide +kernel)
  obtain ⟨hparse, hresolves, -⟩ := resolution_exact hw
  exact ⟨w, hw, hparse, hresolves⟩

end Vocabulary

end BlockScript
