import BlockScript.Proofs.Reading.Origin
import BlockScript.Proofs.Workspace.Conservation

/-!
# Where the blocks of scripts come from

The blocks of the scripts of a text, the implied ends aside, are those of its lines. So each of their
attributes has an origin in a line: it is what the origin gives when the line is read, in the category that
laying out and resolving leave it.

## Key results

- `Block.Settled.forall₂_ends`: what laying out and resolving do to the attributes in a block
- `Vocabulary.parse_ends`: the blocks in the scripts of a text are those that its lines give
- `Vocabulary.parse_origins`: the attributes in the scripts of a text are those that the origins give
-/

namespace BlockScript

/-- What becomes of the attributes of a block in the end. Only a block that ends a branch has its category
    from elsewhere. -/
structure Attrs.Ends (s : Session) (a a' : Attrs) : Prop where
  flag : a'.flag = a.flag
  calledAs : a'.calledAs = a.calledAs
  namedAs : a'.namedAs = a.namedAs
  unlessEnder : a.flag ≠ some .cElse → a.flag ≠ some .cEnd → a'.category = s.resolvedCategory a

/-- Resolution is an end that attributes may come to. -/
private theorem Session.resolved_ends (s : Session) (a : Attrs) : a.Ends s (s.resolved a) := by
  rw [resolved_eq]
  exact ⟨rfl, rfl, rfl, fun _ _ => rfl⟩

/-- Where attributes end up by `Ends`, those of a block itself are the first ones in it. -/
theorem Block.ends_attrs {s : Session} {b b' : Block}
    (h : List.Forall₂ (Attrs.Ends s) b.allAttrs b'.allAttrs) : b.attrs.Ends s b'.attrs := by
  rw [allAttrs, allAttrs] at h
  exact (List.forall₂_cons.1 h).1

/-- A block that is `Settled` and then resolved, attribute by attribute. -/
theorem Block.Settled.forall₂_ends {b b' : Block} (h : b.Settled b') (s : Session) :
    List.Forall₂ (Attrs.Ends s) b.allAttrs (b'.mapAttrs s.resolved).allAttrs := by
  have hown : b.attrs.Ends s (s.resolved b'.attrs) := by
    have hflag : b'.attrs.flag = b.attrs.flag := h.flag_eq
    have hresolved := s.resolved_ends b'.attrs
    refine ⟨hresolved.flag.trans hflag, ?_, ?_, fun helse hend => ?_⟩
    · rw [hresolved.calledAs, h.attrs]
    · rw [hresolved.namedAs, h.attrs]
    · have hcategory := (h.unlessEnder helse hend).1
      rw [hresolved.unlessEnder (by rwa [hflag]) (by rwa [hflag])]
      -- the shape, which an opener gives up, is not looked at
      rw [h.attrs]
      simp only [Session.resolvedCategory, hcategory]
  rw [allAttrs_mapAttrs, allAttrs, allAttrs, h.pieces, List.map_cons]
  refine .cons hown ?_
  rw [List.forall₂_map_right_iff, List.forall₂_same]
  exact fun a _ => s.resolved_ends a

namespace Vocabulary

/-- The attributes of the block that a line gives are those that its origins tell, also if the line is
    nested too deeply. -/
private theorem lineBlock_origins {v : Vocabulary} {line : Text} {b : Block}
    (h : v.lineBlock line = .ok b) :
    List.Forall₂ (Origin.Gives v) (v.lineOrigins line) b.allAttrs := by
  obtain hread | ⟨hread, rfl⟩ := lineBlock_ok h
  · exact readLine_origins hread
  · rw [lineOrigins, hread]
    exact .cons ⟨fun _ => ⟨_, rfl, rfl⟩, fun _ _ => rfl⟩ .nil

/-- When a text is parsed each line gives the block that `lineBlock` gives alone, but for what its attributes
    come to by `Ends`, in laying out and resolving. -/
theorem parse_ends {v : Vocabulary} {text : Text} {w : Workspace} (h : v.parse text = .ok w) :
    List.Forall₂
      (fun line b => ∃ b₀, v.lineBlock line = .ok b₀ ∧
        List.Forall₂ (Attrs.Ends w.session) b₀.allAttrs b.allAttrs)
      (Text.writtenLines text) ((w.scripts.flatMap Script.blocks).filter fun b => !b.isImplied) := by
  obtain ⟨w₀, hlayOut, rfl⟩ := parse_ok h
  have hkept : ((fun b => !b.isImplied) ∘ Block.mapAttrs w₀.session.resolved) =
      fun b => !b.isImplied := by
    funext b
    simp only [Function.comp_apply, Block.isImplied_mapAttrs_resolved]
  rw [Workspace.blocks_resolve, List.filter_map, List.forall₂_map_right_iff, hkept]
  refine (layOut_settled hlayOut).imp ?_
  rintro line b ⟨b₀, hline, hb⟩
  exact ⟨b₀, hline, hb.forall₂_ends w₀.session⟩

/-- When a text is parsed, the attributes of the blocks of each line, in the order of the text, are those that
    the `lineOrigins` give, in the category that laying out and resolving leave them. -/
theorem parse_origins {v : Vocabulary} {text : Text} {w : Workspace} (h : v.parse text = .ok w) :
    List.Forall₂
      (fun line b => List.Forall₂ (fun o a' => ∃ a, o.Gives v a ∧ a.Ends w.session a')
        (v.lineOrigins line) b.allAttrs)
      (Text.writtenLines text) ((w.scripts.flatMap Script.blocks).filter fun b => !b.isImplied) :=
  (parse_ends h).imp fun _ _ ⟨_, hline, hattrs⟩ => Lists.forall₂_comp (lineBlock_origins hline) hattrs

end Vocabulary

end BlockScript
