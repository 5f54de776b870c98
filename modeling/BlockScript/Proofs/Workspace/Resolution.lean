import BlockScript.Proofs.Script.Forest
import BlockScript.Workspace.Basic

/-!
# Resolution is a single change of attributes

The three passes that resolve names come to one change of attributes, which sets the category alone and
depends on nothing but the sets of keys and names that have been sighted.

## Key results

- `Layout.resolve_eq`: the three passes are one change of attributes
- `Session.resolves`: which categories it changes, and to what
- `Session.resolved_resolved`: what has been resolved stays as it is
-/

namespace BlockScript

/-! ## One change -/

/-- The attributes of a block after resolution. -/
def Session.resolved (s : Session) (a : Attrs) : Attrs :=
  resolveParameters s (resolveLists s (resolveCalls s a))

/-- One `mapAttrs` after another is a single one in a branch. -/
theorem Branch.mapAttrs_mapAttrs (g f : Attrs → Attrs) (b : Branch) :
    (b.mapAttrs f).mapAttrs g = b.mapAttrs (g ∘ f) := by
  simp only [mapAttrs, Node.map_mapAttrs_mapAttrs, Block.mapAttrs_mapAttrs]

/-- `mapAttrs` twice, on an open C block, is `mapAttrs` with the one change after the other. -/
theorem Frame.mapAttrs_mapAttrs (g f : Attrs → Attrs) (frame : Frame) :
    (frame.mapAttrs f).mapAttrs g = frame.mapAttrs (g ∘ f) := by
  have hbranches : (frame.branches.map (Branch.mapAttrs f)).map (Branch.mapAttrs g) =
      frame.branches.map (Branch.mapAttrs (g ∘ f)) := by
    rw [List.map_map]
    exact List.map_congr_left fun b _ => b.mapAttrs_mapAttrs g f
  simp only [mapAttrs, Node.map_mapAttrs_mapAttrs, Block.mapAttrs_mapAttrs, hbranches]

/-- `mapAttrs` twice, on a nesting, is `mapAttrs` with the one change after the other. -/
theorem Nesting.mapAttrs_mapAttrs (g f : Attrs → Attrs) (n : Nesting) :
    (n.mapAttrs f).mapAttrs g = n.mapAttrs (g ∘ f) := by
  have hframes : (n.frames.map (Frame.mapAttrs f)).map (Frame.mapAttrs g) =
      n.frames.map (Frame.mapAttrs (g ∘ f)) := by
    rw [List.map_map]
    exact List.map_congr_left fun frame _ => frame.mapAttrs_mapAttrs g f
  simp only [mapAttrs, Node.map_mapAttrs_mapAttrs, hframes]

/-- One change of attributes after another is a single change. -/
theorem Layout.mapAttrs_mapAttrs (g f : Attrs → Attrs) (l : Layout) :
    (l.mapAttrs f).mapAttrs g = l.mapAttrs (g ∘ f) := by
  have hscripts : (l.scripts.map (Script.mapAttrs f)).map (Script.mapAttrs g) =
      l.scripts.map (Script.mapAttrs (g ∘ f)) := by
    rw [List.map_map]
    exact List.map_congr_left fun s _ => Script.mapAttrs_mapAttrs g f s
  simp only [mapAttrs, Nesting.mapAttrs_mapAttrs, Layout.mk.injEq, and_true]
  exact hscripts

/-- The three passes are one change of attributes. -/
theorem Layout.resolve_eq (s : Session) (l : Layout) : l.resolve s = l.mapAttrs s.resolved := by
  simp only [resolve, mapAttrs_mapAttrs]
  rfl

/-- Resolution changes the attributes in the scripts and leaves everything else of them alone. -/
theorem Workspace.scripts_resolve (w : Workspace) :
    w.resolve.scripts = w.scripts.map (Script.mapAttrs w.session.resolved) := by
  rw [scripts, resolve, Layout.resolve_eq]
  rfl

/-- `resolve` reaches every block in the scripts. -/
theorem Workspace.blocks_resolve (w : Workspace) :
    w.resolve.scripts.flatMap Script.blocks =
      (w.scripts.flatMap Script.blocks).map (Block.mapAttrs w.session.resolved) := by
  simp only [scripts_resolve, List.flatMap_map, List.map_flatMap, Script.blocks_mapAttrs]

/-! ## What is changed -/

/-- The attributes of a block before and after resolution. Nothing but the category changes, and that in
    three cases: an unknown block that a header defines, an unknown reporter with the name of a list,
    and one with the name of a parameter that is not also that of a list. -/
structure Attrs.Resolves (s : Session) (a a' : Attrs) : Prop where
  other : a' = { a with category := a'.category }
  call : a'.category ≠ a.category ∧ a'.category = some .custom ↔
    a.category = some .obsolete ∧ ∃ key ∈ s.definitions, a.calledAs = some key
  list : a'.category ≠ a.category ∧ a'.category = some .list ↔
    a.category = some .vars ∧ ∃ name ∈ s.lists, a.namedAs = some name
  parameter : a'.category ≠ a.category ∧ a'.category = some .customArg ↔
    a.category = some .vars ∧ ∃ name ∈ s.parameters, a.namedAs = some name ∧ name ∉ s.lists
  only : a'.category ≠ a.category →
    a'.category = some .custom ∨ a'.category = some .list ∨ a'.category = some .customArg

namespace Session

private theorem any_contains_iff (o : Option Text) (ts : List Text) :
    o.any ts.contains = true ↔ ∃ t ∈ ts, o = some t := by
  cases o with
  | none => simp
  | some t => simp

/-- The category of a block after resolution. -/
def resolvedCategory (s : Session) (a : Attrs) : Option Category :=
  if a.category = some .obsolete ∧ a.calledAs.any s.definitions.contains then some .custom
  else if a.category = some .vars ∧ a.namedAs.any s.lists.contains then some .list
  else if a.category = some .vars ∧ a.namedAs.any s.parameters.contains then some .customArg
  else a.category

/-- Resolution sets the category and nothing else. -/
theorem resolved_eq (s : Session) (a : Attrs) :
    s.resolved a = { a with category := s.resolvedCategory a } := by
  unfold resolvedCategory
  -- each pass looks at one category and sets another, so at most one of them does anything
  by_cases hobsolete : a.category = some .obsolete
  · by_cases hcall : a.calledAs.any s.definitions.contains = true
    · simp [resolved, resolveParameters, resolveLists, resolveCalls, reclassify, hobsolete, hcall]
    · simp [resolved, resolveParameters, resolveLists, resolveCalls, reclassify, hobsolete, hcall]
      rw [← hobsolete]
  · by_cases hvars : a.category = some .vars
    · by_cases hlist : a.namedAs.any s.lists.contains = true
      · simp [resolved, resolveParameters, resolveLists, resolveCalls, reclassify, hvars, hlist]
      · by_cases hparameter : a.namedAs.any s.parameters.contains = true
        · simp [resolved, resolveParameters, resolveLists, resolveCalls, reclassify, hvars, hlist,
            hparameter]
        · simp [resolved, resolveParameters, resolveLists, resolveCalls, reclassify, hvars, hlist,
            hparameter]
          rw [← hvars]
    · simp [resolved, resolveParameters, resolveLists, resolveCalls, reclassify, hobsolete, hvars]

/-- What the `category` of a block can become: it takes one of the three passes, or none. -/
theorem resolvedCategory_cases (s : Session) (a : Attrs) :
    (a.category = some .obsolete ∧ (∃ key ∈ s.definitions, a.calledAs = some key) ∧
        s.resolvedCategory a = some .custom) ∨
      (a.category = some .vars ∧ (∃ name ∈ s.lists, a.namedAs = some name) ∧
        s.resolvedCategory a = some .list) ∨
      (a.category = some .vars ∧ (∃ name ∈ s.parameters, a.namedAs = some name ∧ name ∉ s.lists) ∧
        s.resolvedCategory a = some .customArg) ∨
      ((a.category = some .obsolete → ¬ ∃ key ∈ s.definitions, a.calledAs = some key) ∧
        (a.category = some .vars → (¬ ∃ name ∈ s.lists, a.namedAs = some name) ∧
          ¬ ∃ name ∈ s.parameters, a.namedAs = some name ∧ name ∉ s.lists) ∧
        s.resolvedCategory a = a.category) := by
  have hcall := any_contains_iff a.calledAs s.definitions
  have hlist := any_contains_iff a.namedAs s.lists
  have hparameter := any_contains_iff a.namedAs s.parameters
  unfold resolvedCategory
  -- the passes in their order: calls, lists, and parameters that are no lists
  split
  · rename_i h
    exact .inl ⟨h.1, hcall.1 h.2, rfl⟩
  · rename_i hnoCall
    split
    · rename_i h
      exact .inr (.inl ⟨h.1, hlist.1 h.2, rfl⟩)
    · rename_i hnoList
      split
      · rename_i h
        obtain ⟨name, hname, hnamed⟩ := hparameter.1 h.2
        refine .inr (.inr (.inl ⟨h.1, ⟨name, hname, hnamed, fun hmem => ?_⟩, rfl⟩))
        exact hnoList ⟨h.1, hlist.2 ⟨name, hmem, hnamed⟩⟩
      · rename_i hnoParameter
        refine .inr (.inr (.inr ⟨fun hc hk => hnoCall ⟨hc, hcall.2 hk⟩, fun hc => ?_, rfl⟩))
        refine ⟨fun hl => hnoList ⟨hc, hlist.2 hl⟩, ?_⟩
        rintro ⟨name, hname, hnamed, -⟩
        exact hnoParameter ⟨hc, hparameter.2 ⟨name, hname, hnamed⟩⟩

/-- Resolution changes a category in the three cases and in no other. -/
theorem resolves (s : Session) (a : Attrs) : a.Resolves s (s.resolved a) := by
  rw [resolved_eq]
  -- one case for each pass, and one for what no pass takes
  obtain ⟨hc, hkey, hnew⟩ | ⟨hc, hname, hnew⟩ | ⟨hc, hname, hnew⟩ | ⟨hcall, hname, hnew⟩ :=
    s.resolvedCategory_cases a
  · exact ⟨rfl, by simp [hc, hkey, hnew], by simp [hc, hnew], by simp [hc, hnew], by simp [hnew]⟩
  · refine ⟨rfl, by simp [hc, hnew], by simp [hc, hname, hnew], ?_, by simp [hnew]⟩
    -- the name is that of a list, so it does not matter whether it is one of a parameter
    obtain ⟨name, hlist, hnamed⟩ := hname
    simp only [hc, hnew, hnamed, Option.some.injEq]
    simp only [reduceCtorEq, and_false, true_and, false_iff, not_exists, not_and]
    rintro _ - rfl
    exact fun hnot => hnot hlist
  · refine ⟨rfl, by simp [hc, hnew], ?_, by simp [hc, hname, hnew], by simp [hnew]⟩
    obtain ⟨name, -, hnamed, hlist⟩ := hname
    simpa [hc, hnew, hnamed] using hlist
  · refine ⟨rfl, ?_, ?_, ?_, by simp [hnew]⟩
    · simpa [hnew] using hcall
    · simpa [hnew] using fun hc => (hname hc).1
    · simpa [hnew] using fun hc => (hname hc).2

/-- What has been resolved stays as it is. -/
theorem resolved_resolved (s : Session) (a : Attrs) :
    s.resolved (s.resolved a) = s.resolved a := by
  -- a category that has been set is none of those in which blocks wait
  have hset : ∀ c, c = some Category.custom ∨ c = some Category.list ∨ c = some Category.customArg →
      s.resolvedCategory { a with category := c } = c := by
    rintro c (rfl | rfl | rfl) <;> simp [resolvedCategory]
  rw [resolved_eq, resolved_eq]
  have hnew : s.resolvedCategory { a with category := s.resolvedCategory a } =
      s.resolvedCategory a := by
    obtain ⟨-, -, hnew⟩ | ⟨-, -, hnew⟩ | ⟨-, -, hnew⟩ | ⟨-, -, hnew⟩ := s.resolvedCategory_cases a
    · rw [hnew, hset _ (by simp)]
    · rw [hnew, hset _ (by simp)]
    · rw [hnew, hset _ (by simp)]
    · rw [hnew]
      exact hnew
  simp only [hnew]

/-- Resolution depends on what has been sighted, and not on the order. -/
theorem resolved_congr {s s' : Session} (h : s.sightings.Perm s'.sightings) :
    s.resolved = s'.resolved := by
  have hcontains : ∀ g : Sighting → Option Text,
      (s.sightings.filterMap g).contains = (s'.sightings.filterMap g).contains := by
    intro g
    funext t
    rw [Bool.eq_iff_iff, List.contains_iff_mem, List.contains_iff_mem]
    exact (h.filterMap g).mem_iff
  funext a
  have hcategory : s.resolvedCategory a = s'.resolvedCategory a := by
    unfold resolvedCategory definitions lists parameters
    rw [hcontains, hcontains, hcontains]
  rw [resolved_eq, resolved_eq, hcategory]

end Session

end BlockScript
