import BlockScript.Proofs.Json.Roundtrip
import BlockScript.Proofs.Script.Json

/-!
# Saved scripts

There are no numbers in the JSON of scripts, and no object repeats a name. So scripts that `save` writes, on
one line or laid out with sorted fields, are read back as what was saved, as long as they are not too deep for
the reader. How deep the JSON is depends on how a script is built and not on its attributes: a block makes two
levels around its pieces, a C block two around its contents, and so does each of its mouths.

## Key results

- `isPlain_scriptsToJson`: the JSON of scripts is plain
- `parse_savedText`: what is read from a file with scripts
- `save_eq_ok_iff`: which scripts are saved
- `Node.depth_toJson_cBlock`: the depth of a C block that is opened and closed
- `depth_scriptsToJson_mapAttrs`: attributes make no difference to the depth
-/

namespace BlockScript

/-! ## Plain JSON -/

/-- `fields` writes an attribute as a text or as `true`. -/
private theorem Attrs.eq_of_mem_fields {a : Attrs} {f : Text × Json} (h : f ∈ a.fields) :
    (∃ t, f.2 = .str t) ∨ f.2 = .bool true := by
  rw [fields_eq, List.mem_append, List.mem_flatMap] at h
  rcases h with ⟨field, -, h⟩ | h
  · -- one of the attributes that are texts; without a value there is no field
    cases hvalue : field.2 a with
    | none => simp [optionalField, hvalue] at h
    | some t =>
      rw [hvalue, optionalField, List.mem_singleton] at h
      exact .inl ⟨t, by rw [h]⟩
  · -- the ring, which is written only if there is one
    split at h
    · rw [List.mem_singleton] at h
      exact .inr (by rw [h])
    · cases h

/-- What `fields` writes is plain. -/
private theorem Attrs.isPlain_of_mem_fields {a : Attrs} {f : Text × Json} (h : f ∈ a.fields) :
    f.2.IsPlain := by
  rcases eq_of_mem_fields h with ⟨t, ht⟩ | htrue
  · rw [ht]
    exact .str t
  · rw [htrue]
    exact .bool true

namespace Piece

mutual

/-- The JSON of a piece `IsPlain`. -/
theorem isPlain_toJson : ∀ p : Piece, p.toJson.IsPlain
  | .text t => by rw [toJson]; exact .str t
  | .block a ps => by
    rw [toJson_block]
    refine .obj (keys_blockFields_nodup a ps) ?_
    rw [blockFields, List.forall_mem_cons]
    exact ⟨.arr (isPlain_map_toJson ps), fun f hf => Attrs.isPlain_of_mem_fields hf⟩

/-- So is that of each of several pieces. -/
private theorem isPlain_map_toJson : ∀ ps : List Piece, ∀ j ∈ ps.map toJson, j.IsPlain
  | [] => by simp
  | p :: ps => by
    rw [List.map_cons, List.forall_mem_cons]
    exact ⟨isPlain_toJson p, isPlain_map_toJson ps⟩

end

end Piece

namespace Node

/-- `orNull` writes a label as a text or as null. -/
private theorem isPlain_orNull {α : Type} (name : α → Text) (x : Option α) :
    (Json.orNull (x.map fun x => .str (name x))).IsPlain := by
  cases x with
  | none => exact .null
  | some x => exact .str _

mutual

/-- The JSON of a node `IsPlain`. -/
theorem isPlain_toJson : ∀ n : Node, n.toJson.IsPlain
  | .block b => by rw [toJson]; exact Piece.isPlain_toJson b.toPiece
  | .wrap s ns => by
    rw [toJson_eq]
    refine .obj (keys_fields_nodup _) ?_
    simp only [fields, List.forall_mem_cons]
    exact ⟨.str _, isPlain_orNull _ s, .arr (isPlain_map_toJson ns), by simp⟩
  | .mouth c ns => by
    rw [toJson_eq]
    refine .obj (keys_fields_nodup _) ?_
    simp only [fields, List.forall_mem_cons]
    exact ⟨.str _, isPlain_orNull _ c, .arr (isPlain_map_toJson ns), by simp⟩

/-- So is that of each of several nodes. -/
private theorem isPlain_map_toJson : ∀ ns : List Node, ∀ j ∈ ns.map toJson, j.IsPlain
  | [] => by simp
  | n :: ns => by
    rw [List.map_cons, List.forall_mem_cons]
    exact ⟨isPlain_toJson n, isPlain_map_toJson ns⟩

end

end Node

/-- What `scriptsToJson` makes of scripts `IsPlain`. -/
theorem isPlain_scriptsToJson (scripts : List Script) : (scriptsToJson scripts).IsPlain := by
  refine .arr (List.forall_mem_map.2 fun s _ => ?_)
  rw [Script.toJson, Node.toJsonList_eq_map]
  exact .arr (List.forall_mem_map.2 fun n _ => n.isPlain_toJson)

/-! ## Reading what was saved -/

/-- What was saved, with sorted fields if it was laid out. -/
def savedJson (laidOut : Bool) (scripts : List Script) : Json :=
  if laidOut then (scriptsToJson scripts).sorted else scriptsToJson scripts

/-- `savedJson` is the JSON of the scripts but for the order of fields. -/
theorem savedJson_same (laidOut : Bool) (scripts : List Script) :
    (savedJson laidOut scripts).Same (scriptsToJson scripts) := by
  cases laidOut with
  | false => exact Json.Same.refl _
  | true => exact Json.sorted_same _

/-- `savedJson` is as deep as `scriptsToJson`. -/
private theorem depth_savedJson (laidOut : Bool) (scripts : List Script) :
    (savedJson laidOut scripts).depth = (scriptsToJson scripts).depth := by
  cases laidOut with
  | false => rfl
  | true => exact Json.depth_sorted _

/-- A file with a `savedText` is read as the `savedJson`, unless `tooDeep?` finds something in it. -/
theorem parse_savedText (laidOut : Bool) (scripts : List Script) :
    Json.parse (Text.withNewlines (savedText laidOut scripts)) =
      match Json.tooDeep? Json.depthLimit (savedJson laidOut scripts) with
      | none => .ok (savedJson laidOut scripts)
      | some e => .error (.excess e) := by
  have hplain := isPlain_scriptsToJson scripts
  cases laidOut with
  | false => exact Json.parse_write none hplain
  | true => exact Json.parse_write_sorted (some 4) hplain

/-- Scripts whose JSON is within `depthLimit` are read back. -/
theorem parse_savedText_of_depth_le (laidOut : Bool) {scripts : List Script}
    (h : (scriptsToJson scripts).depth ≤ Json.depthLimit) :
    Json.parse (Text.withNewlines (savedText laidOut scripts)) = .ok (savedJson laidOut scripts) := by
  rw [← depth_savedJson laidOut] at h
  rw [parse_savedText, Json.tooDeep?_eq_none_iff.2 h]

/-- Scripts whose JSON goes beyond `depthLimit` are refused. -/
theorem parse_savedText_of_lt_depth (laidOut : Bool) {scripts : List Script}
    (h : Json.depthLimit < (scriptsToJson scripts).depth) :
    ∃ e, Json.parse (Text.withNewlines (savedText laidOut scripts)) = .error (.excess e) := by
  rw [← depth_savedJson laidOut] at h
  obtain ⟨e, he⟩ := Option.ne_none_iff_exists'.1 (mt Json.tooDeep?_eq_none_iff.1 (Nat.not_le.2 h))
  exact ⟨e, by rw [parse_savedText, he]⟩

/-- `save` writes the `savedText`, of scripts within `saveLimit` alone. -/
theorem save_eq_ok_iff {laidOut : Bool} {scripts : List Script} {t : Text} :
    save laidOut scripts = .ok t ↔
      (scriptsToJson scripts).depth ≤ saveLimit ∧ t = savedText laidOut scripts := by
  unfold save
  split
  · rename_i hdepth
    simp [hdepth, eq_comm]
  · rename_i hdepth
    simp [hdepth]

/-! ## The depth of scripts -/

/-- No attribute is an array or an object, so `fields` have no depth. -/
private theorem Attrs.depthFields_fields (a : Attrs) : Json.depthFields a.fields = 0 := by
  refine Nat.le_zero.1 (Json.depthFields_le_iff.2 fun f hf => ?_)
  rcases eq_of_mem_fields hf with ⟨t, ht⟩ | htrue
  · simp [ht, Json.depth]
  · simp [htrue, Json.depth]

namespace Piece

/-- A block is an object that holds the array of its pieces, so it is two levels deeper than these. -/
private theorem depth_toJson_block (a : Attrs) (ps : List Piece) :
    (Piece.block a ps).toJson.depth = Json.depthItems (ps.map toJson) + 2 := by
  rw [toJson_block, Json.depth, blockFields, Json.depthFields, Attrs.depthFields_fields, Nat.max_zero,
    Json.depth]

mutual

/-- `mapAttrs` leaves the depth of a piece as it is. -/
private theorem depth_toJson_mapAttrs (f : Attrs → Attrs) :
    ∀ p : Piece, (p.mapAttrs f).toJson.depth = p.toJson.depth
  | .text t => by rw [mapAttrs]
  | .block a ps => by
    rw [mapAttrs, depth_toJson_block, depth_toJson_block, depthItems_mapAttrsList f ps]

/-- `mapAttrsList` leaves the depth of a list of pieces as it is. -/
private theorem depthItems_mapAttrsList (f : Attrs → Attrs) : ∀ ps : List Piece,
    Json.depthItems ((mapAttrsList f ps).map toJson) = Json.depthItems (ps.map toJson)
  | [] => by rw [mapAttrsList]
  | p :: ps => by
    rw [mapAttrsList, List.map_cons, List.map_cons, Json.depthItems, Json.depthItems,
      depth_toJson_mapAttrs f p, depthItems_mapAttrsList f ps]

end

/-- Pieces among which there is no block are texts, which have no depth. -/
private theorem depthItems_of_blocks_eq_nil {ps : List Piece} (h : blocks ps = []) :
    Json.depthItems (ps.map toJson) = 0 := by
  induction ps with
  | nil => rfl
  | cons p ps ih =>
    cases p with
    | text t =>
      rw [List.map_cons, Json.depthItems, ih h, toJson]
      simp [Json.depth]
    | block a qs => cases h

end Piece

/-- A block without `arguments` has the levels of its own object and of its pieces. -/
private theorem Block.depth_toJson {b : Block} (h : b.arguments = []) : b.toJson.depth = 2 := by
  rw [toJson, toPiece, Piece.depth_toJson_block, Piece.depthItems_of_blocks_eq_nil h]

namespace Node

/-- A C block is an object that holds the array of its contents, so it is two levels deeper than these. -/
private theorem depth_toJson_wrap (s : Option Shape) (ns : List Node) :
    (Node.wrap s ns).toJson.depth = Json.depthItems (ns.map toJson) + 2 := by
  cases s <;> simp [toJson_eq, fields, Json.depth, Json.depthFields, Json.ofString, Json.orNull]

/-- The `depth` of a mouth is two more than that of its nodes. -/
private theorem depth_toJson_mouth (c : Option Category) (ns : List Node) :
    (Node.mouth c ns).toJson.depth = Json.depthItems (ns.map toJson) + 2 := by
  cases c <;> simp [toJson_eq, fields, Json.depth, Json.depthFields, Json.ofString, Json.orNull]

/-- What is in the only mouth of a `cBlock` lies four levels deeper than the C block. -/
theorem depth_toJson_cBlock {opener : Block} {branch : Branch} (s : Option Shape)
    (hopener : opener.arguments = []) (hender : branch.ender.arguments = []) :
    (Node.cBlock s opener [branch]).toJson.depth = Json.depthItems (branch.inner.map toJson) + 4 := by
  rw [cBlock, depth_toJson_wrap]
  simp only [List.flatMap_singleton, Branch.nodes, List.map_cons, List.map_nil, Json.depthItems,
    depth_toJson_mouth]
  -- the blocks around the mouth are no deeper than an empty one
  rw [toJson, toJson, Block.depth_toJson hopener, Block.depth_toJson hender]
  omega

mutual

/-- `mapAttrs` leaves the depth of a node as it is. -/
private theorem depth_toJson_mapAttrs (f : Attrs → Attrs) :
    ∀ n : Node, (n.mapAttrs f).toJson.depth = n.toJson.depth
  | .block b => by
    rw [mapAttrs, toJson, toJson, Block.toJson, Block.toJson, ← Piece.depth_toJson_mapAttrs f b.toPiece]
    rfl
  | .wrap _ ns => by
    rw [mapAttrs, depth_toJson_wrap, depth_toJson_wrap, depthItems_mapAttrsList f ns]
  | .mouth _ ns => by
    rw [mapAttrs, depth_toJson_mouth, depth_toJson_mouth, depthItems_mapAttrsList f ns]

/-- `mapAttrsList` leaves the depth of a list of nodes as it is. -/
private theorem depthItems_mapAttrsList (f : Attrs → Attrs) : ∀ ns : List Node,
    Json.depthItems ((mapAttrsList f ns).map toJson) = Json.depthItems (ns.map toJson)
  | [] => by rw [mapAttrsList]
  | n :: ns => by
    rw [mapAttrsList, List.map_cons, List.map_cons, Json.depthItems, Json.depthItems,
      depth_toJson_mapAttrs f n, depthItems_mapAttrsList f ns]

end

end Node

/-- The array of the scripts and that of the only script are around its nodes. -/
theorem depth_scriptsToJson_singleton (s : Script) :
    (scriptsToJson [s]).depth = Json.depthItems (s.map Node.toJson) + 2 := by
  rw [scriptsToJson, List.map_singleton, Json.depth, Json.depthItems, Json.depthItems, Nat.max_zero,
    Script.toJson, Node.toJsonList_eq_map, Json.depth]

/-- The JSON of scripts is as deep whatever `mapAttrs` makes of the attributes. -/
theorem depth_scriptsToJson_mapAttrs (f : Attrs → Attrs) (scripts : List Script) :
    (scriptsToJson (scripts.map (Script.mapAttrs f))).depth = (scriptsToJson scripts).depth := by
  have hitems : Json.depthItems ((scripts.map (Script.mapAttrs f)).map Script.toJson) =
      Json.depthItems (scripts.map Script.toJson) := by
    induction scripts with
    | nil => rfl
    | cons s ss ih =>
      simp only [List.map_cons, Json.depthItems, ih, Script.toJson, Node.toJsonList_eq_map, Script.mapAttrs,
        ← Node.mapAttrsList_eq_map, Json.depth, Node.depthItems_mapAttrsList]
  rw [scriptsToJson, scriptsToJson, Json.depth, Json.depth, hitems]

end BlockScript
