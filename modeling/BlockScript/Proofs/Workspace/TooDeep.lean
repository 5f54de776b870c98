import BlockScript.Proofs.Reading.Depth
import BlockScript.Proofs.Reading.LengthOf
import BlockScript.Proofs.Reading.Nested
import BlockScript.Proofs.Reading.Recognised
import BlockScript.Proofs.Reading.Sighted
import BlockScript.Proofs.Reading.Unmarked
import BlockScript.Proofs.Workspace.Alike
import BlockScript.Proofs.Workspace.Names
import BlockScript.Proofs.Workspace.Numbers

/-!
# Lines that are nested too deeply

A line that is nested too deeply becomes one unknown block with its text, and there is one complaint about
it. What it has sighted before it failed is kept, though: reporters that are in no script, and the names of
lists. So it is not as if any other unknown block stood there. A reporter elsewhere with the name of such a
list is taken for the list.

## Key results

- `Session.sameTables_iff`: the tables of a session stay the same just if nothing is sighted
- `Session.resolved_eq_iff`: when resolution does not depend on whether some more lists are known
- `Vocabulary.parse_tooDeep`: what a line leaves behind that is nested too deeply
- `Vocabulary.list_of_unread_line`: a reporter that becomes a list for nothing else
-/

namespace BlockScript

/-! ## The tables of a session -/

namespace Session

/-- `SameTables s s'`: the two sessions look up the same, and find the same. -/
structure SameTables (s s' : Session) : Prop where
  definitions : s'.definitions = s.definitions
  parameters : s'.parameters = s.parameters
  lists : s'.lists = s.lists
  calls : s'.calls = s.calls
  reporters : s'.reporters = s.reporters

variable {s s' : Session} {new : List Sighting}

/-- Names that are used change neither `definitions` nor `parameters` nor `calls`. -/
private theorem tables_of_isUse (h : s'.sightings = s.sightings ++ new) (hnew : ∀ x ∈ new, x.isUse = true) :
    s'.definitions = s.definitions ∧ s'.parameters = s.parameters ∧ s'.calls = s.calls := by
  obtain ⟨hdefinitions, hparameters⟩ := Sighting.defines_nothing fun x hx => .inl (hnew x hx)
  have hcalls := Sighting.calls_nothing hnew
  -- each table is one `filterMap` of the sightings, and skips what is new
  refine ⟨?_, ?_, ?_⟩
  · rw [definitions, h, List.filterMap_append, hdefinitions, List.append_nil, definitions]
  · rw [parameters, h, List.filterMap_append, hparameters, List.append_nil, parameters]
  · rw [calls, h, List.filterMap_append, hcalls, List.append_nil, calls]

/-- But every use is kept in a table, so `SameTables` holds after some uses just if there are none. -/
theorem sameTables_iff (h : s'.sightings = s.sightings ++ new) (hnew : ∀ x ∈ new, x.isUse = true) :
    s.SameTables s' ↔ new = [] := by
  constructor
  · -- what is used is added to the table of lists or to that of reporters, and neither has grown
    intro hsame
    -- a longer list of lists would be another list
    have hlists : new.filterMap Sighting.list? = [] := by
      have hlists := hsame.lists
      rwa [lists, h, List.filterMap_append, lists, List.append_right_eq_self] at hlists
    have hreporters : new.filterMap Sighting.reporter? = [] := by
      have hreporters := hsame.reporters
      rwa [reporters, h, List.filterMap_append, List.foldl_append, reporters,
        Dictionary.appendAll_eq_self_iff] at hreporters
    -- a use is a reporter or a list, and both have been excluded
    refine List.eq_nil_iff_forall_not_mem.2 fun x hx => ?_
    cases x with
    | reporter name category => cases List.filterMap_eq_nil_iff.1 hreporters _ hx
    | list name => cases List.filterMap_eq_nil_iff.1 hlists _ hx
    | call key => exact absurd (hnew _ hx) (by simp [Sighting.isUse])
    | definition key => exact absurd (hnew _ hx) (by simp [Sighting.isUse])
    | parameter name => exact absurd (hnew _ hx) (by simp [Sighting.isUse])
  · rintro rfl
    have hsame : s'.sightings = s.sightings := h.trans (List.append_nil _)
    exact ⟨by rw [definitions, hsame, definitions], by rw [parameters, hsame, parameters],
      by rw [lists, hsame, lists], by rw [calls, hsame, calls], by rw [reporters, hsame, reporters]⟩

/-- If `more` lists are known, `resolved` changes attributes as without them, unless they are those of a
    reporter with the name of one. -/
theorem resolved_eq_iff {more : List Text} (hdefinitions : s'.definitions = s.definitions)
    (hparameters : s'.parameters = s.parameters)
    (hlists : ∀ name, name ∈ s.lists ↔ name ∈ more ∨ name ∈ s'.lists) (a : Attrs) :
    s.resolved a = s'.resolved a ↔
      (a.category = some .vars → ∀ name, a.namedAs = some name → name ∈ more → name ∈ s'.lists) := by
  -- resolution touches nothing but the category
  have hcategory : s.resolved a = s'.resolved a ↔ s.resolvedCategory a = s'.resolvedCategory a := by
    rw [resolved_eq, resolved_eq]
    refine ⟨fun h => ?_, fun h => by rw [h]⟩
    exact congrArg Attrs.category h
  rw [hcategory]
  -- lists are looked up for what waits among the variables, and for nothing else
  by_cases hvars : a.category = some .vars
  · cases hnamed : a.namedAs with
    | none => simp [resolvedCategory, hvars, hnamed]
    | some name =>
      have hname := hlists name
      by_cases hlist' : name ∈ s'.lists
      · have hlist : name ∈ s.lists := hname.2 (.inr hlist')
        simp [resolvedCategory, hvars, hnamed, hlist, hlist']
      · by_cases hmore : name ∈ more
        · -- a list in the one session, and a parameter or a variable in the other
          have hlist : name ∈ s.lists := hname.2 (.inl hmore)
          by_cases hparameter : name ∈ s'.parameters <;>
            simp [resolvedCategory, hvars, hnamed, hlist, hlist', hmore, hparameter]
        · have hlist : name ∉ s.lists := fun hlist => (hname.1 hlist).elim hmore hlist'
          simp [resolvedCategory, hvars, hnamed, hlist, hlist', hmore, hparameters]
  · simp [resolvedCategory, hvars, hdefinitions]

end Session

/-! ## One block in the place of another -/

/-- The same block, or one that stands in the place of another. -/
def Block.Replaced (u u' b b' : Block) : Prop := b' = b ∨ b = u ∧ b' = u'

/-- An unknown block of a script, without arguments, that none of the `definitions` is about. -/
structure Block.IsUndefined (definitions : List Text) (b : Block) : Prop where
  category : b.attrs.category = some .obsolete
  shape : b.attrs.shape = some .stack
  flag : b.attrs.flag = none
  arguments : b.arguments = []
  undefined : ∀ key ∈ definitions, b.attrs.calledAs ≠ some key

namespace Block

/-- Two blocks without a flag that agree in category and shape are laid out alike, so `Replaced` is
    `PlacedAlike`. -/
private theorem replaced_placedAlike {u u' : Block} (hcategory : u'.attrs.category = u.attrs.category)
    (hshape : u'.attrs.shape = u.attrs.shape) (hflag : u.attrs.flag = none) (hflag' : u'.attrs.flag = none)
    (hcapEnd : u'.attrs.capEnd = u.attrs.capEnd) (hcomment : u'.isComment = u.isComment) :
    PlacedAlike (Replaced u u') := by
  refine ⟨fun b => .inl rfl, ?_, ?_, ?_, ?_, ?_, ?_, ?_⟩
  -- the block in question has no flag, so it neither opens nor ends anything
  case refine_6 =>
    rintro b b' (rfl | ⟨rfl, rfl⟩) hopens
    · exact .inl rfl
    · simp [hflag] at hopens
  case refine_7 =>
    rintro b b' (rfl | ⟨rfl, rfl⟩) hends c e
    · exact .inl rfl
    · simp [hflag] at hends
  all_goals
    rintro b b' (rfl | ⟨rfl, rfl⟩)
    · rfl
    · simp only [hcategory, hshape, hflag, hflag', hcapEnd, hcomment]

/-- Without `arguments` a block has its own attributes and no others. -/
private theorem allAttrs_of_arguments {b : Block} (h : b.arguments = []) : b.allAttrs = [b.attrs] := by
  rw [allAttrs, ← flatMap_allAttrs_blocks, ← arguments, h]
  rfl

/-- `resolved` leaves a block alone that `IsUndefined` by the session. -/
theorem IsUndefined.mapAttrs_resolved {s : Session} {b : Block} (h : b.IsUndefined s.definitions) :
    b.mapAttrs s.resolved = b := by
  -- an unknown block waits for a definition, and for nothing else
  have hattrs : ∀ a ∈ b.allAttrs, s.resolved a = id a := by
    rw [allAttrs_of_arguments h.arguments, List.forall_mem_singleton, Session.resolved_eq]
    obtain ⟨-, ⟨key, hkey, hcalled⟩, -⟩ | ⟨hvars, -⟩ | ⟨hvars, -⟩ | ⟨-, -, hsame⟩ :=
      s.resolvedCategory_cases b.attrs
    · exact absurd hcalled (h.undefined key hkey)
    · simp [h.category] at hvars
    · simp [h.category] at hvars
    · rw [hsame]
      rfl
  rw [mapAttrs_eq_iff.2 hattrs, mapAttrs_id]

end Block

/-- Scripts with one block in the place of another stay `Alike` under two changes of attributes just if these
    come to the same for all attributes in them. -/
private theorem Script.alike_mapAttrs_iff {u u' : Block} {f f' : Attrs → Attrs}
    {scripts scripts' : List Script}
    (h : List.Forall₂ (Script.Alike (Block.Replaced u u')) scripts scripts') (hu : u.mapAttrs f = u)
    (hu' : u'.mapAttrs f' = u') (hsame : ∀ a, f a ∈ u.allAttrs → f a = f' a) :
    List.Forall₂ (Script.Alike (Block.Replaced u u')) (scripts.map (mapAttrs f)) (scripts'.map (mapAttrs f')) ↔
      ∀ s ∈ scripts, ∀ a ∈ s.allAttrs, f a = f' a := by
  -- what becomes the block in question is changed in the same way by both
  have hattrs : ∀ b : Block, b.mapAttrs f = u → ∀ a ∈ b.allAttrs, f a = f' a := by
    rintro b rfl a ha
    refine hsame a ?_
    rw [Block.allAttrs_mapAttrs]
    exact List.mem_map_of_mem ha
  rw [List.forall₂_map_left_iff, List.forall₂_map_right_iff]
  constructor
  · intro hmapped
    induction h with
    | nil => simp
    | @cons s s' _ _ hs _ ih =>
      obtain ⟨hfirst, hrest⟩ := List.forall₂_cons.1 hmapped
      refine List.forall_mem_cons.2 ⟨fun a ha => ?_, ih hrest⟩
      -- block by block, a block and what it has become are compared with what stands in its place
      have hblocks := hfirst.blocks
      rw [blocks_mapAttrs, blocks_mapAttrs, List.forall₂_map_left_iff, List.forall₂_map_right_iff] at hblocks
      have hboth : List.Forall₂ (fun b b' : Block => ∀ a ∈ b.allAttrs, f a = f' a) (blocks s) (blocks s') := by
        refine List.Forall₂.mp (fun b b' hb hb' => ?_) hs.blocks hblocks
        rcases hb with rfl | ⟨rfl, rfl⟩
        · rcases hb' with heq | ⟨hbecomes, -⟩
          · exact Block.mapAttrs_eq_iff.1 heq.symm
          · exact hattrs _ hbecomes
        · exact hattrs _ hu
      obtain ⟨b, hb, ha⟩ := List.mem_flatMap.1 ha
      exact Lists.forall_right_of_forall₂ hboth.flip (fun _ _ hb => hb) b hb a ha
  · -- where the changes agree everywhere, the first makes what the second makes
    intro hall
    induction h with
    | nil => exact .nil
    | @cons s s' _ _ hs _ ih =>
      obtain ⟨hfirst, hrest⟩ := List.forall_mem_cons.1 hall
      refine .cons (hs.mapAttrs fun b hb b' hrelated => ?_) (ih hrest)
      rcases hrelated with rfl | ⟨rfl, rfl⟩
      · refine .inl (Block.mapAttrs_eq_iff.2 fun a ha => ?_).symm
        exact hfirst a (List.mem_flatMap.2 ⟨_, hb, ha⟩)
      · exact .inr ⟨hu, hu'⟩

/-! ## The line itself -/

namespace Vocabulary

variable {v : Vocabulary} {line : Text} (hdeep : (v.readLine line).result = .error .tooDeep)

include hdeep

/-- A line that is nested too deeply is not blank, for blank lines are short. -/
private theorem written_of_tooDeep : Text.trim line ≠ [] := by
  intro hblank
  have hshort : (Text.trim line).length < Fragment.nestingLimit := by
    rw [hblank]
    decide
  rw [← readLine_trim] at hdeep
  exact readLine_ne_tooDeep hshort hdeep

/-- `lineBlock` gives an `unread` block for it. -/
private theorem lineBlock_of_tooDeep : v.lineBlock line = .ok (Workspace.unread line) := by
  simp only [lineBlock, Workspace.readLine, Workspace.new, hdeep]

/-- The `unread` block is no comment. -/
private theorem unread_not_isComment : (Workspace.unread line).isComment = false := by
  rw [Bool.eq_false_iff]
  intro hcomment
  obtain ⟨comment, hblock⟩ := lineBlock_isComment (lineBlock_of_tooDeep hdeep) hcomment
  have hcategory : some Category.obsolete = (Block.comment comment).attrs.category :=
    congrArg (fun b : Block => b.attrs.category) hblock
  simp [Block.comment] at hcategory

/-- A line that is read as an unknown block `ReadsAlike` it, up to `Replaced`. -/
private theorem readsAlike_of_tooDeep {line' : Text} {b' : Block} (hwritten : Text.trim line' ≠ [])
    (hread : (v.readLine line').result = .ok b') :
    v.ReadsAlike (Block.Replaced (Workspace.unread line) b') line line' := by
  refine ⟨iff_of_false hwritten (written_of_tooDeep hdeep), fun b hb => ?_⟩
  rw [lineBlock_of_tooDeep hdeep] at hb
  cases hb
  exact ⟨b', lineBlock_of_readLine hread, .inr ⟨rfl, rfl⟩⟩

end Vocabulary

/-- An `unread` block stays as it is when names are resolved, whatever is defined. -/
private theorem Workspace.unread_isUndefined (definitions : List Text) (line : Text) :
    (unread line).IsUndefined definitions where
  category := rfl
  shape := rfl
  flag := rfl
  arguments := rfl
  undefined := by
    intro key _ hcalled
    cases hcalled

/-! ## Texts -/

/-- Whether a reporter with the given name is in a script, in no category but that of variables. -/
def Script.HasReporter (name : Text) (s : Script) : Prop :=
  ∃ a ∈ s.allAttrs, a.category = some .vars ∧ a.namedAs = some name

namespace Vocabulary

/-- What `layOut` sights in a text, with one of its lines apart. -/
private theorem layOut_sightings {v : Vocabulary} {text : Text} {l : Workspace} {front back : List Text}
    {line : Text}
    (h : v.layOut text = .ok l) (hlines : Workspace.sourceLines text = front ++ line :: back)
    (hwritten : Text.trim line ≠ []) :
    l.session.sightings =
      ((front.map Text.trim).filter (· ≠ [])).flatMap (fun line => (v.readLine line).sightings) ++
        (v.readLine line).sightings ++
          ((back.map Text.trim).filter (· ≠ [])).flatMap (fun line => (v.readLine line).sightings) := by
  obtain ⟨w₁, htaken, rfl⟩ := layOut_eq_ok.1 h
  have hsightings := (Workspace.takeLines_takes htaken).sightings
  rw [hlines] at hsightings
  simpa [Workspace.newScript, Workspace.new, hwritten, readLine_trim] using hsightings

section

variable {v : Vocabulary} {text line : Text} {front back : List Text}
  (hlines : Workspace.sourceLines text = front ++ line :: back)
  (hdeep : (v.readLine line).result = .error .tooDeep)

include hlines hdeep

/-- The line is in the scripts that `parse` gives, as a block that holds its text. -/
theorem parse_tooDeep_block {w : Workspace} (h : v.parse text = .ok w) :
    Text.trim line ∈ Text.writtenLines text ∧
      List.Forall₂ (fun t b => t = Text.trim line →
          b = ⟨{ id := some t, category := some .obsolete, shape := some .stack }, [.text t]⟩)
        (Text.writtenLines text) ((w.scripts.flatMap Script.blocks).filter fun b => !b.isImplied) := by
  have hmem : Text.trim line ∈ Text.writtenLines text := by
    rw [← Text.writtenLines_trim, Text.writtenLines, List.mem_filter]
    refine ⟨List.mem_map_of_mem ?_, by simpa using written_of_tooDeep hdeep⟩
    have hline : line ∈ Workspace.sourceLines text := by simp [hlines]
    exact hline
  refine ⟨hmem, ?_⟩
  obtain ⟨l, hlayOut, rfl⟩ := parse_ok h
  -- resolution does not make a block an implied one
  have hkept : ((fun b => !b.isImplied) ∘ Block.mapAttrs l.session.resolved) = fun b => !b.isImplied := by
    funext b
    simp only [Function.comp_apply, Block.isImplied_mapAttrs_resolved]
  rw [Workspace.blocks_resolve, List.filter_map, List.forall₂_map_right_iff, hkept]
  refine (layOut_settled hlayOut).imp ?_
  rintro _ b ⟨b₀, hb₀, hsettled⟩ rfl
  -- what has been settled is the block of the line, which is the unread one
  rw [lineBlock_trim, lineBlock_of_tooDeep hdeep] at hb₀
  cases hb₀
  -- it has no flag, so laying it out changes nothing
  obtain rfl : b = Workspace.unread line := by
    obtain ⟨attrs, pieces⟩ := b
    obtain ⟨hcategory, hcapEnd⟩ := hsettled.unlessEnder (by simp [Workspace.unread]) (by simp [Workspace.unread])
    have hattrs := hsettled.attrs
    rw [hcategory, hcapEnd, hsettled.shape] at hattrs
    rw [Workspace.unread, Block.mk.injEq]
    exact ⟨hattrs, hsettled.pieces⟩
  exact (Workspace.unread_isUndefined _ line).mapAttrs_resolved

/-- The `log` has one complaint about it. -/
theorem parse_tooDeep_log {w : Workspace} (h : v.parse text = .ok w) :
    w.log.about (front.length + 1) = [.tooDeep] := by
  rw [parse_complaints h, hlines, Int.add_comm, about_complaintsFrom, lineComplaints,
    if_neg (written_of_tooDeep hdeep), hdeep]

/-- The session keeps what the line has sighted, so it has the `SameTables` as before just if that is
    nothing. -/
theorem parse_tooDeep_tables {w : Workspace} (h : v.parse text = .ok w) :
    ∃ w₁ w₂, Workspace.takeLines front (Workspace.new v) = (w₁, none) ∧ w₁.takeLine line = (w₂, none) ∧
      w₂.session.definitions = w₁.session.definitions ∧
      w₂.session.parameters = w₁.session.parameters ∧ w₂.session.calls = w₁.session.calls ∧
      w₁.session.pending = [] ∧ w₂.session.pending = [] ∧
      (w₁.session.SameTables w₂.session ↔ (v.readLine line).sightings = []) := by
  obtain ⟨l, hlayOut, rfl⟩ := parse_ok h
  obtain ⟨w, htaken, -⟩ := layOut_eq_ok.1 hlayOut
  -- the line is taken in the state that the lines in front of it have led to
  rw [hlines] at htaken
  obtain ⟨w₁, hfront, hback⟩ := Workspace.exists_takeLines_front htaken
  rw [Workspace.takeLines] at hback
  cases hline : w₁.takeLine line with
  | mk w₂ fault =>
    rw [hline] at hback
    cases fault with
    | some f => simp at hback
    | none =>
      have hpending := (Workspace.takeLines_line hfront rfl).2
      -- before it failed the line has added its sightings to those of the lines in front
      have hsightings : w₂.session.sightings = w₁.session.sightings ++ (v.readLine line).sightings := by
        have hsightings := (Workspace.takeLine_takes hline).sightings
        rw [(Workspace.takeLines_takes hfront).vocabulary] at hsightings
        simpa [Workspace.new, written_of_tooDeep hdeep, readLine_trim] using hsightings
      have hnew := Line.isUse_of_error hdeep
      obtain ⟨hdefinitions, hparameters, hcalls⟩ := Session.tables_of_isUse hsightings hnew
      exact ⟨w₁, w₂, hfront, hline, hdefinitions, hparameters, hcalls, hpending,
        Workspace.takeLine_pending hline hpending, Session.sameTables_iff hsightings hnew⟩

/-- Two texts that differ in the line alone, in which the other one has an unknown block without arguments:
    `layOut` knows the same definitions and parameters in both, and a list in only one of them has been
    sighted in the line. -/
private theorem layOut_sessions {l l' : Workspace} (h : v.layOut text = .ok l) {text' line' : Text}
    {b' : Block}
    (h' : v.layOut text' = .ok l') (hlines' : Workspace.sourceLines text' = front ++ line' :: back)
    (hwritten : Text.trim line' ≠ []) (hread : (v.readLine line').result = .ok b')
    (hshape : b'.attrs.shape = some .stack) (hnone : b'.arguments = []) :
    l'.session.definitions = l.session.definitions ∧ l'.session.parameters = l.session.parameters ∧
      ∀ name, name ∈ l.session.lists ↔
        name ∈ (v.readLine line).sightings.filterMap Sighting.list? ∨ name ∈ l'.session.lists := by
  have hsightings := layOut_sightings h hlines (written_of_tooDeep hdeep)
  have hsightings' := layOut_sightings h' hlines' hwritten
  -- a line that fails defines nothing, and neither does one that is no header
  obtain ⟨hdefinitions, hparameters⟩ :=
    Sighting.defines_nothing fun x hx => .inl (Line.isUse_of_error hdeep x hx)
  obtain ⟨hdefinitions', hparameters'⟩ :=
    Sighting.defines_nothing (Line.isUse_or_call hread (by simp [hshape]))
  refine ⟨?_, ?_, fun name => ?_⟩
  · simp only [Session.definitions, hsightings, hsightings', List.filterMap_append, hdefinitions, hdefinitions']
  · simp only [Session.parameters, hsightings, hsightings', List.filterMap_append, hparameters, hparameters']
  · have hlists' := Line.lists_of_arguments hread hnone
    simp only [Session.lists, hsightings, hsightings', List.filterMap_append, hlists', List.mem_append,
      List.not_mem_nil, or_false]
    rw [or_right_comm, or_comm]

/-- With another unknown block in the place of the line all other blocks are the same just if no reporter has
    the name of a list that the line alone has sighted. -/
private theorem layOut_replaced {l : Workspace} (h : v.layOut text = .ok l) {text' line' : Text}
    {b' : Block}
    (hlines' : Workspace.sourceLines text' = front ++ line' :: back) (hwritten : Text.trim line' ≠ [])
    (hread : (v.readLine line').result = .ok b') (hb' : b'.IsUndefined l.session.definitions) :
    ∃ w', v.parse text' = .ok w' ∧
      (List.Forall₂ (Script.Alike (Block.Replaced (Workspace.unread line) b')) l.resolve.scripts w'.scripts ↔
        ∀ name, .list name ∈ (v.readLine line).sightings → (∃ s ∈ l.scripts, s.HasReporter name) →
          name ∈ w'.session.lists) := by
  have hblock := lineBlock_of_readLine hread
  -- the mark of a closed end is set by the layout and never read
  have hwell : b'.attrs.capEnd = false := (lineBlock_isUnmarked hblock _ List.mem_cons_self).capEnd
  have hcomment : b'.isComment = (Workspace.unread line).isComment := by
    rw [unread_not_isComment hdeep, Bool.eq_false_iff]
    intro hcomment
    obtain ⟨comment, rfl⟩ := lineBlock_isComment hblock hcomment
    simpa [Block.comment] using hb'.category
  have hplaced : Block.PlacedAlike (Block.Replaced (Workspace.unread line) b') :=
    Block.replaced_placedAlike hb'.category hb'.shape rfl hb'.flag hwell hcomment
  -- all lines are read alike: the same ones give the same, and the line in question its replacement
  have hreads : List.Forall₂ (v.ReadsAlike (Block.Replaced (Workspace.unread line) b'))
      (Workspace.sourceLines text) (Workspace.sourceLines text') := by
    have hsame : ∀ ts : List Text,
        List.Forall₂ (v.ReadsAlike (Block.Replaced (Workspace.unread line) b')) ts ts :=
      fun ts => List.forall₂_same.2 fun t _ => ReadsAlike.refl hplaced.refl t
    rw [hlines, hlines']
    exact List.rel_append (hsame front) (.cons (readsAlike_of_tooDeep hdeep hwritten hread) (hsame back))
  obtain ⟨l', hl', halike⟩ := layOut_alike hplaced h hreads
  refine ⟨l'.resolve, by rw [parse_eq, hl']; rfl, ?_⟩
  -- the texts are laid out alike, so that they can only differ by what reporters are resolved to
  obtain ⟨hdefinitions, hparameters, hlists⟩ :=
    layOut_sessions hlines hdeep h hl' hlines' hwritten hread hb'.shape hb'.arguments
  have hresolved := Session.resolved_eq_iff hdefinitions hparameters hlists
  have hu := (Workspace.unread_isUndefined l.session.definitions line).mapAttrs_resolved
  have hu' : b'.mapAttrs l'.session.resolved = b' :=
    Block.IsUndefined.mapAttrs_resolved (hdefinitions ▸ hb')
  -- what the unread line gives has no name, so resolution leaves it alone in both
  have hunnamed : ∀ a, l.session.resolved a ∈ (Workspace.unread line).allAttrs →
      l.session.resolved a = l'.session.resolved a := by
    intro a ha
    have hnamed : a.namedAs = none := by
      rw [Session.resolved_eq, Block.allAttrs_of_arguments rfl, List.mem_singleton] at ha
      exact congrArg Attrs.namedAs ha
    rw [hresolved, hnamed]
    simp
  rw [Workspace.scripts_resolve, Workspace.scripts_resolve,
    Script.alike_mapAttrs_iff halike hu hu' hunnamed]
  simp only [hresolved, Script.HasReporter, List.mem_filterMap]
  -- what has the name of such a list is the same in both if it is a list in both
  constructor
  · rintro hall name hname ⟨s, hs, a, ha, hvars, hnamed⟩
    exact hall s hs a ha hvars name hnamed ⟨_, hname, rfl⟩
  · rintro hall s hs a ha hvars name hnamed ⟨x, hx, hlist⟩
    cases x <;> cases hlist
    exact hall name hx ⟨s, hs, a, ha, hvars, hnamed⟩

end

/-- Let a line of a text be nested too deeply. It becomes one unknown block that holds the line without the
    blanks at its ends, and `log` has one complaint about it. Nothing is defined or called by it, but the
    names that it has used before it failed stay in the session, so that this has the `SameTables` after the
    line just if there are none. With another block in its place that `IsUndefined`, all other blocks are the
    same just if there is no variable in the text with the name of a list that the line alone has used. -/
theorem parse_tooDeep {v : Vocabulary} {text line : Text} {front back : List Text} {w : Workspace}
    (h : v.parse text = .ok w) (hlines : Workspace.sourceLines text = front ++ line :: back)
    (hdeep : (v.readLine line).result = .error .tooDeep) :
    (Text.trim line ∈ Text.writtenLines text ∧
      List.Forall₂ (fun t b => t = Text.trim line →
          b = ⟨{ id := some t, category := some .obsolete, shape := some .stack }, [.text t]⟩)
        (Text.writtenLines text) ((w.scripts.flatMap Script.blocks).filter fun b => !b.isImplied)) ∧
    w.log.about (front.length + 1) = [.tooDeep] ∧
    (∃ w₁ w₂, Workspace.takeLines front (Workspace.new v) = (w₁, none) ∧ w₁.takeLine line = (w₂, none) ∧
      w₂.session.definitions = w₁.session.definitions ∧
      w₂.session.parameters = w₁.session.parameters ∧ w₂.session.calls = w₁.session.calls ∧
      w₁.session.pending = [] ∧ w₂.session.pending = [] ∧
      (w₁.session.SameTables w₂.session ↔ (v.readLine line).sightings = [])) ∧
    ∃ l, v.layOut text = .ok l ∧
      ∀ (text' line' : Text) (b' : Block), Workspace.sourceLines text' = front ++ line' :: back →
        Text.trim line' ≠ [] → (v.readLine line').result = .ok b' → b'.IsUndefined w.session.definitions →
        ∃ w', v.parse text' = .ok w' ∧
          (List.Forall₂ (Script.Alike (Block.Replaced (Workspace.unread line) b')) w.scripts w'.scripts ↔
            ∀ name, .list name ∈ (v.readLine line).sightings → (∃ s ∈ l.scripts, s.HasReporter name) →
              name ∈ w'.session.lists) := by
  refine ⟨parse_tooDeep_block hlines hdeep h, parse_tooDeep_log hlines hdeep h,
    parse_tooDeep_tables hlines hdeep h, ?_⟩
  obtain ⟨l, hlayOut, rfl⟩ := parse_ok h
  refine ⟨l, hlayOut, fun text' line' b' hlines' hwritten hread hb' => ?_⟩
  exact layOut_replaced hlines hdeep hlayOut hlines' hwritten hread hb'

end Vocabulary

/-! ## A line with a list in it -/

namespace Line

/-- The length of a list. -/
def lengthOfList : Text :=
  Bracket.round.enclose (Text.weave ["length of ".toList, []] [Bracket.square.enclose "var v".toList])

/-- A line in which an unknown block is given the length of a list and a text in so many brackets. -/
def nestedLine (n : Nat) : Text :=
  Text.weave ["bar ".toList, " ".toList, []] [lengthOfList, Text.nest n "x".toList]

/-- Runs of plain characters are `AreBare`: no bracket opens in them. -/
private theorem areBare_of_plain {runs : List Text} (h : ∀ run ∈ runs, run.all Bracket.isPlain = true)
    (verbal : Nat → Bool) (before : Text) (args : List Text) : AreBare verbal before runs args :=
  areBare_of_ofOpener?_eq_none
    (fun run hrun c hc => Bracket.ofOpener?_of_isPlain (List.all_eq_true.1 (h run hrun) c hc)) verbal before args

/-- The menu with the list in it `IsEnclosed`. -/
private theorem isEnclosed_list (rule : SignRule) :
    IsEnclosed rule (Bracket.square.enclose "var v".toList) :=
  isEnclosed_square rule (by decide)

/-- `readArgument` sights the list when it reads its length. -/
private theorem read_lengthOfList :
    ∃ b, (Fragment.readArgument (Vocabulary.english true) lengthOfList).result = .ok b ∧
      .list "var".toList ∈ (Fragment.readArgument (Vocabulary.english true) lengthOfList).sightings := by
  have hdeep : (Fragment.readArgument (Vocabulary.english true) lengthOfList).result ≠ .error .tooDeep :=
    Fragment.read_ne_tooDeep (by decide)
  obtain ⟨b, hb⟩ : ∃ b, (Fragment.readArgument (Vocabulary.english true) lengthOfList).result = .ok b :=
    Fragment.exists_read (Vocabulary.english_drawable true) hdeep
  have hsame := Fragment.readFragment_eq_of_ok hb
  rw [← hsame] at hb ⊢
  -- it has a menu for its argument
  have hspec : Override.split (Fragment.specOf (Fragment.piecesIn (Vocabulary.english true) false lengthOfList)) =
      ("length of _".toList, []) := by
    decide
  have hargs : Fragment.argumentsIn (Vocabulary.english true) false lengthOfList =
      [Bracket.square.enclose (Fragment.menuOf "var".toList)] := by
    decide
  have hunheaded : (Vocabulary.english true).header? (Fragment.inside false lengthOfList) = none :=
    @Vocabulary.english_header?_eq_none true _ 'l' (by decide) (by decide) (by decide)
  have hheader : (Vocabulary.english true).header? (Fragment.menuOf "var".toList) = none :=
    @Vocabulary.english_header?_eq_none true _ 'v' (by decide) (by decide) (by decide)
  have hblock : Fragment.IsBlock (Vocabulary.english true) false lengthOfList := ⟨hunheaded, by decide⟩
  obtain ⟨b', c, hb', -, h⟩ := Fragment.exists_isLength_of_spec hblock hspec hargs (by simp [hb])
  have hshape : c.attrs.shape = some .dropdown :=
    (Fragment.shape_dropdown_iff h.read).2 ⟨by decide, hheader⟩
  exact ⟨b, hb, Fragment.list_mem_of_isLength h hshape rfl⟩

/-- The line `IsWoven` from its words and its two arguments. -/
private theorem isWoven_nestedLine {n : Nat} (h : n ≠ 0) :
    IsWoven (Vocabulary.english true) ["bar ".toList, " ".toList, []]
      [lengthOfList, Text.nest n "x".toList] := by
  obtain ⟨n, rfl⟩ := Nat.exists_eq_succ_of_ne_zero h
  have hfits : Text.Fits ["bar ".toList, " ".toList, []] [lengthOfList, Text.nest (n + 1) "x".toList] :=
    .step _ _ (.step _ _ (.last _))
  have hruns : ∀ run ∈ ["length of ".toList, []], run.all Bracket.isPlain = true := by decide
  have hlength : IsEnclosed (Vocabulary.english true).signRule lengthOfList :=
    isEnclosed_weave (.step _ _ (.last _)) (fun run hrun => List.all_eq_true.1 (hruns run hrun))
      (by simpa using isEnclosed_list (Vocabulary.english true).signRule)
  have hnest := isEnclosed_nest (Vocabulary.english true).signRule
    (List.all_eq_true.1 (show "x".toList.all Bracket.isPlain = true by decide)) n
  -- the nested argument is made of brackets and one letter
  have hslashes : ¬ "//".toList <:+: Text.nest (n + 1) "x".toList := fun hslashes => by
    have hslash := Text.mem_nest (hslashes.subset (show '/' ∈ "//".toList by decide))
    exact absurd hslash (by decide)
  -- the rest is about the runs, which are short and written out
  refine ⟨hfits, ?_, ?_, by decide, by decide, by decide, ⟨"bar ".toList, by decide, by decide⟩, ?_, ?_⟩
  · rw [List.forall_mem_cons, List.forall_mem_singleton]
    exact ⟨⟨hlength, by decide⟩, ⟨hnest, hslashes⟩⟩
  · exact areBare_of_plain (by decide) _ _ _
  · rw [Text.trim_weave hfits]
    · rfl
    · rw [List.forall_mem_cons, List.forall_mem_singleton]
      exact ⟨hlength.isTight, hnest.isTight⟩
  · exact @Vocabulary.english_header?_eq_none true _ 'b' List.mem_cons_self (by decide) (by decide)

/-- Its `form` is an unknown block with two slots and two arguments. -/
private theorem form_nestedLine {n : Nat} (h : n ≠ 0) :
    Fragment.form (Vocabulary.english true) true (nestedLine n) =
      .block (Fragment.unknownAttrs "bar _ _".toList .stack) [] ["bar ".toList, ['_'], " ".toList, ['_']]
        [lengthOfList, Text.nest n "x".toList] := by
  have hunknown : Dictionary.get? ((Vocabulary.english true).key
      (Text.padSlots (Text.slotted ["bar ".toList, " ".toList, []]))) (Vocabulary.english true).index = none :=
    Vocabulary.index_eq_none_of_letters (by decide +kernel)
  have hidentify :=
    Fragment.identify_of_index_eq_none hunknown [lengthOfList, Text.nest n "x".toList] .stack
  -- the block is drawn with its spec, which falls into words and slots
  have hparts : Fragment.partsAt (Fragment.isMark (some "bar _ _".toList == some "_ + _".toList))
      "bar _ _".toList = ["bar ".toList, ['_'], " ".toList, ['_']] := by
    decide +kernel
  rw [nestedLine, Fragment.form_of_isWoven (isWoven_nestedLine h) hidentify, ← hparts]
  rfl

/-- An argument in as many brackets as `nestingLimit` is nested too deeply. -/
private theorem readArgument_nest {n : Nat} (h : Fragment.nestingLimit ≤ n) :
    (Fragment.readArgument (Vocabulary.english true) (Text.nest n "x".toList)).result = .error .tooDeep := by
  have hlimit := Fragment.two_le_nestingLimit
  obtain ⟨n, rfl⟩ : ∃ m, n = m + 1 := Nat.exists_eq_add_of_le' (by omega)
  -- in each bracket stands an unknown reporter, so the next one is read as its argument
  have hslot : Dictionary.get? ((Vocabulary.english true).key ['_']) (Vocabulary.english true).index = none :=
    Vocabulary.index_eq_none_of_letters (by decide +kernel)
  have hheader : ∀ t, (Vocabulary.english true).header? (Bracket.round.enclose t) = none := fun t =>
    @Vocabulary.english_header?_eq_none true _ '(' List.mem_cons_self (by decide) (by decide)
  exact Fragment.read_nest hslot hheader (List.all_eq_true.1 (by decide)) (by omega)

/-- With `nestingLimit` brackets `readLine` fails on the line, but it has sighted the list. -/
theorem readLine_nestedLine {n : Nat} (h : Fragment.nestingLimit ≤ n) :
    ((Vocabulary.english true).readLine (nestedLine n)).result = .error .tooDeep ∧
      .list "var".toList ∈ ((Vocabulary.english true).readLine (nestedLine n)).sightings := by
  -- the first argument can be read, the second one fails
  obtain ⟨b, hb, hlist⟩ := read_lengthOfList
  obtain ⟨hresult, hsightings⟩ :=
    @Fragment.fillSlots_two _ "bar ".toList " ".toList _ _ _ _ (by decide) (by decide) hb
      (readArgument_nest h)
  -- so the block fails with its second argument, and keeps what the first one has sighted
  have hfragment : ((Vocabulary.english true).readFragment true (nestedLine n)).result = .error .tooDeep ∧
      .list "var".toList ∈ ((Vocabulary.english true).readFragment true (nestedLine n)).sightings := by
    rw [Fragment.readFragment_result, Fragment.readFragment_sightings,
      form_nestedLine (Nat.ne_zero_of_lt h), Fragment.Form.read, Fragment.finish, hresult, hsightings]
    exact ⟨rfl, List.mem_append_right _ (List.mem_append_left _ hlist)⟩
  have hline := readLine_of_isWoven (isWoven_nestedLine (Nat.ne_zero_of_lt h))
  rw [← nestedLine] at hline
  rw [hline, withComment, hfragment.1]
  exact ⟨rfl, hfragment.2⟩

/-- An unknown block without arguments, on a line of its own: `readLine` gives one that `IsUndefined`. -/
private theorem readLine_bar :
    ∃ b, ((Vocabulary.english true).readLine "bar".toList).result = .ok b ∧ b.IsUndefined [] := by
  have hwoven : IsWoven (Vocabulary.english true) ["bar".toList] [] := by
    refine ⟨.last _, by simp, ?_, by decide, by decide, by decide, ⟨"bar".toList, by decide, by decide⟩,
      by decide, ?_⟩
    · exact areBare_of_plain (by decide) _ _ _
    · exact @Vocabulary.english_header?_eq_none true _ 'b' List.mem_cons_self (by decide) (by decide)
  -- its key is no key of an English block
  have hunknown : Dictionary.get? ((Vocabulary.english true).key (Text.padSlots (Text.slotted ["bar".toList])))
      (Vocabulary.english true).index = none :=
    Vocabulary.index_eq_none_of_letters (by decide +kernel)
  have hform := Fragment.form_of_isWoven hwoven (Fragment.identify_of_index_eq_none hunknown [] .stack)
  have hresult := readLine_result_of_isWoven hwoven hform
  rw [Fragment.fillSlots_nil] at hresult
  exact ⟨_, hresult, rfl, rfl, rfl, by decide +kernel, by simp⟩

end Line

/-- Two tight lines with a line end between them are the `sourceLines` of the text, and its `writtenLines`. -/
private theorem Workspace.lines_of_two {s t : Text} (hs : s.IsTight) (ht : t.IsTight) (hs' : '\n' ∉ s)
    (ht' : '\n' ∉ t) :
    sourceLines (s ++ '\n' :: t) = [s, t] ∧ Text.writtenLines (s ++ '\n' :: t) = [s, t] := by
  have hone : ∀ u : Text, '\n' ∉ u → Text.lines u = [u] := fun u hu =>
    Text.splitAt_of_not fun c hc => beq_eq_false_iff_ne.2 (ne_of_mem_of_not_mem hc hu)
  have hlines : Text.lines (s ++ '\n' :: t) = [s, t] := by
    rw [Text.lines_append_newline, hone s hs', hone t ht', List.singleton_append]
  have hsame : Text.trim (s ++ '\n' :: t) = s ++ '\n' :: t := by
    have happended := (hs.append ht ['\n']).trim_eq_self
    rwa [List.append_assoc] at happended
  refine ⟨by rw [sourceLines, hsame, hlines], ?_⟩
  simp [Text.writtenLines, hlines, hs.trim_eq_self, ht.trim_eq_self, hs.filled, ht.filled]

namespace Vocabulary

/-- A text with a `nestedLine`, and a reporter with the name of the list behind it. -/
def nestedText (n : Nat) : Text := Line.nestedLine n ++ '\n' :: Line.useOf "var".toList

/-- These two are the lines of `nestedText`. -/
private theorem lines_nestedText {n : Nat} (h : n ≠ 0) :
    Workspace.sourceLines (nestedText n) = [Line.nestedLine n, Line.useOf "var".toList] ∧
      Text.writtenLines (nestedText n) = [Line.nestedLine n, Line.useOf "var".toList] := by
  have htight : Text.IsTight (Line.nestedLine n) := by
    have htrimmed : Text.trim (Line.nestedLine n) = Line.nestedLine n := (Line.isWoven_nestedLine h).trimmed
    have hfilled : Line.nestedLine n ≠ [] := List.cons_ne_nil _ _
    exact htrimmed ▸ Text.isTight_trim (htrimmed.symm ▸ hfilled)
  have hnest : '\n' ∉ Text.nest n "x".toList := fun hn => absurd (Text.mem_nest hn) (by decide)
  have hwhole : Line.nestedLine n =
      "bar ".toList ++ (Line.lengthOfList ++ " ".toList) ++ Text.nest n "x".toList := by
    simp [Line.nestedLine, Text.weave, Text.interleave]
  -- there is no line end in the words, and the rest is brackets
  refine Workspace.lines_of_two htight ⟨by decide, by decide, by decide⟩ ?_ (by decide)
  rw [hwhole, List.mem_append]
  exact fun hn => hn.elim (absurd · (by decide)) hnest

/-- A reporter behind a line that defines nothing is a list if `readLine` has sighted a list of its name in
    that line, and else a variable. -/
private theorem parse_useOf_var {text line : Text}
    (hlines : Text.writtenLines text = [line, Line.useOf "var".toList])
    (hline : ∃ b, (english true).lineBlock line = .ok b)
    (hsighted : ∀ x ∈ ((english true).readLine line).sightings, x.isUse = true ∨ ∃ key, x = .call key) :
    ∃ w b a, (english true).parse text = .ok w ∧
      (Line.useOf "var".toList, b) ∈ (Text.writtenLines text).zip
        ((w.scripts.flatMap Script.blocks).filter fun b => !b.isImplied) ∧
      (reporterOf "var".toList, a) ∈
        ((english true).lineOrigins (Line.useOf "var".toList)).zip b.allAttrs ∧
      w.session.definitions = [] ∧
      a.category =
        if .list "var".toList ∈ ((english true).readLine line).sightings then some .list else some .vars := by
  have hbar : Dictionary.get? ((english true).key "bar _".toList) (english true).index = none :=
    index_eq_none_of_letters (by decide +kernel)
  obtain ⟨w, b, a, key, hw, hsightings, hblock, hattrs⟩ :=
    parse_useOf isName_var (by decide +kernel) hbar hlines hline
  obtain ⟨a₀, hgives, hends⟩ := List.forall₂_zip (List.forall₂_zip (parse_origins hw) hblock) hattrs
  -- nothing is defined, so no name is a parameter, and the lists are those of the first line
  obtain ⟨hnone, hnone'⟩ := Sighting.defines_nothing hsighted
  have hdefinitions : w.session.definitions = [] := by
    rw [Session.definitions, hsightings, List.filterMap_append, hnone]
    rfl
  have hparameters : w.session.parameters = [] := by
    rw [Session.parameters, hsightings, List.filterMap_append, hnone']
    rfl
  have hlists : "var".toList ∈ w.session.lists ↔
      .list "var".toList ∈ ((english true).readLine line).sightings := by
    have hlater : List.filterMap Sighting.list?
        [.reporter (Text.padSlots "var".toList) (some .vars), .call key] = [] := rfl
    rw [Session.lists, hsightings, List.filterMap_append, hlater, List.append_nil, List.mem_filterMap]
    constructor
    · rintro ⟨x, hx, hlist⟩
      cases x <;> cases hlist
      exact hx
    · exact fun hx => ⟨_, hx, rfl⟩
  refine ⟨w, b, a, hw, hblock, hattrs, hdefinitions, ?_⟩
  -- so the category of the name depends on the first line alone
  have hcategory := name_category isName_var hgives hends
  rw [Text.padSlots_eq_self (by decide), hparameters, if_neg List.not_mem_nil] at hcategory
  simpa only [hlists] using hcategory

/-- In `nestedText` nothing but the line with the brackets makes a list of the variable: with another unknown
    block in its place the reporter is a variable. -/
theorem list_of_unread_line :
    ((english true).readLine (Line.nestedLine 600)).result = .error .tooDeep ∧
    (∃ w b a, (english true).parse (nestedText 600) = .ok w ∧
      (Line.useOf "var".toList, b) ∈ (Text.writtenLines (nestedText 600)).zip
        ((w.scripts.flatMap Script.blocks).filter fun b => !b.isImplied) ∧
      (reporterOf "var".toList, a) ∈
        ((english true).lineOrigins (Line.useOf "var".toList)).zip b.allAttrs ∧
      w.session.definitions = [] ∧ a.category = some .list) ∧
    (∃ b, ((english true).readLine "bar".toList).result = .ok b ∧ b.IsUndefined []) ∧
    ∃ w b a, (english true).parse "bar\nbar (var)".toList = .ok w ∧
      (Line.useOf "var".toList, b) ∈ (Text.writtenLines "bar\nbar (var)".toList).zip
        ((w.scripts.flatMap Script.blocks).filter fun b => !b.isImplied) ∧
      (reporterOf "var".toList, a) ∈
        ((english true).lineOrigins (Line.useOf "var".toList)).zip b.allAttrs ∧
      w.session.definitions = [] ∧ a.category = some .vars := by
  obtain ⟨hdeep, hlist⟩ := Line.readLine_nestedLine (show Fragment.nestingLimit ≤ 600 by decide)
  obtain ⟨-, hlines⟩ := lines_nestedText (show 600 ≠ 0 by decide)
  obtain ⟨b₀, hbar, hundefined⟩ := Line.readLine_bar
  -- the same reporter behind the one line and behind the other
  refine ⟨hdeep, ?_, ⟨b₀, hbar, hundefined⟩, ?_⟩
  · obtain ⟨w, b, a, hw, hblock, hattrs, hdefinitions, hcategory⟩ :=
      parse_useOf_var hlines ⟨_, lineBlock_of_tooDeep hdeep⟩ fun x hx => .inl (Line.isUse_of_error hdeep x hx)
    rw [if_pos hlist] at hcategory
    exact ⟨w, b, a, hw, hblock, hattrs, hdefinitions, hcategory⟩
  · have hlines' : Text.writtenLines "bar\nbar (var)".toList = ["bar".toList, Line.useOf "var".toList] := by
      decide +kernel
    obtain ⟨w, b, a, hw, hblock, hattrs, hdefinitions, hcategory⟩ :=
      parse_useOf_var hlines' ⟨b₀, lineBlock_of_readLine hbar⟩
        (Line.isUse_or_call hbar (by simp [hundefined.shape]))
    have hnoList : Sighting.list "var".toList ∉ ((english true).readLine "bar".toList).sightings := by
      intro hlist
      have hlists := Line.lists_of_arguments hbar hundefined.arguments
      cases List.filterMap_eq_nil_iff.1 hlists _ hlist
    rw [if_neg hnoList] at hcategory
    exact ⟨w, b, a, hw, hblock, hattrs, hdefinitions, hcategory⟩

/-- A line with too many brackets in front of a reporter, and another unknown block in its place. -/
theorem parse_tooDeep_of_nestedLine :
    ((english true).readLine (Line.nestedLine 600)).result = .error .tooDeep ∧
    Workspace.sourceLines (nestedText 600) = [Line.nestedLine 600, Line.useOf "var".toList] ∧
    ∃ w, (english true).parse (nestedText 600) = .ok w ∧ w.log.about 1 = [.tooDeep] ∧
      (∃ w₁, (Workspace.new (english true)).takeLine (Line.nestedLine 600) = (w₁, none) ∧
        ¬ (Workspace.new (english true)).session.SameTables w₁.session) ∧
      ∃ l b w', (english true).layOut (nestedText 600) = .ok l ∧
        ((english true).readLine "bar".toList).result = .ok b ∧ b.IsUndefined w.session.definitions ∧
        (english true).parse "bar\nbar (var)".toList = .ok w' ∧
        (List.Forall₂ (Script.Alike (Block.Replaced (Workspace.unread (Line.nestedLine 600)) b))
            w.scripts w'.scripts ↔
          ∀ name, .list name ∈ ((english true).readLine (Line.nestedLine 600)).sightings →
            (∃ s ∈ l.scripts, s.HasReporter name) → name ∈ w'.session.lists) := by
  obtain ⟨hdeep, hlist⟩ := Line.readLine_nestedLine (show Fragment.nestingLimit ≤ 600 by decide)
  obtain ⟨hlines, hwritten⟩ := lines_nestedText (show 600 ≠ 0 by decide)
  obtain ⟨w, _, _, hw, -, -, hdefinitions, -⟩ :=
    parse_useOf_var hwritten ⟨_, lineBlock_of_tooDeep hdeep⟩ fun x hx => .inl (Line.isUse_of_error hdeep x hx)
  -- the line is replaced by an unknown block that can be read
  obtain ⟨b, hbar, hundefined⟩ := Line.readLine_bar
  rw [← hdefinitions] at hundefined
  obtain ⟨-, habout, ⟨w₁, w₂, hfront, hline, -, -, -, -, -, hsame⟩, l, hlayOut, hreplaced⟩ :=
    @parse_tooDeep _ _ _ [] _ w hw hlines hdeep
  obtain rfl : Workspace.new (english true) = w₁ := congrArg Prod.fst hfront
  have hlines' : Workspace.sourceLines "bar\nbar (var)".toList =
      [] ++ "bar".toList :: [Line.useOf "var".toList] := by
    decide +kernel
  obtain ⟨w', hw', hiff⟩ := hreplaced _ _ b hlines' (by decide) hbar hundefined
  refine ⟨hdeep, hlines, w, hw, habout, ⟨w₂, hline, fun htables => ?_⟩, l, b, w', hlayOut, hbar, hundefined,
    hw', hiff⟩
  exact List.ne_nil_of_mem hlist (hsame.1 htables)

end Vocabulary

end BlockScript
