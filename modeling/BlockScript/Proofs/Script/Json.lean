import BlockScript.Proofs.Block.Attrs
import BlockScript.Proofs.Json.Order
import BlockScript.Proofs.Script.Forest
import BlockScript.Script.Json

/-!
# What the JSON of a script tells

A script can be told from its JSON: how it is built, the texts in it, and the attributes of all its blocks.
What is missing makes no field, and the order of the fields does not matter. A mark is written into the flag;
mark and flag are told apart where the flag is written with the suffix just if there is a mark. Only what a
block may turn out to be is not written at all.

## Key results

- `Attrs.shown_eq_of_same`: attributes are told from their fields
- `Piece.same_toJson_iff`: pieces have the same JSON just if they are equal in all that is written
- `same_scriptsToJson_iff`: the same of scripts
-/

namespace BlockScript

/-! ## Attributes -/

/-- `optionalField` has a field under its own name, if there is a value, and none under any other. -/
private theorem get?_optionalField (name key : String) (value : Option Text) :
    Dictionary.get? key.toList (optionalField name value) = if key = name then value.map .str else none := by
  cases value with
  | none => simp [optionalField]
  | some t => simp [optionalField, Dictionary.get?_cons, String.toList_inj]

namespace Attrs

/-- The attributes that are written, which are all but what a block may turn out to be. -/
def shown (a : Attrs) : Attrs := { a with calledAs := none, namedAs := none }

/-- `IsNoted a`: the flag is written with the suffix just if there is a mark. -/
def IsNoted (a : Attrs) : Prop := (∃ t, a.flagNote = some (t ++ " capend".toList)) ↔ a.capEnd = true

@[simp] theorem fields_shown (a : Attrs) : a.shown.fields = a.fields := rfl

/-- The attributes that are written as texts, with their names and in order. -/
def textFields : List (String × (Attrs → Option Text)) :=
  [("blockid", id), ("category", fun a => a.category.map Category.name),
    ("shape", fun a => a.shape.map Shape.name), ("flag", flagNote), ("lang", lang), ("comment", comment),
    ("image_replacement", image)]

/-- The names under which attributes are written, in order. -/
def fieldNames : List Text := textFields.map (·.1.toList) ++ ["is_ringed".toList]

/-- The `fields` of attributes are those for the `textFields` and that for the ring. -/
theorem fields_eq (a : Attrs) :
    a.fields = textFields.flatMap (fun f => optionalField f.1 (f.2 a)) ++
      if a.ringed then [("is_ringed".toList, .bool true)] else [] := by
  simp only [fields, textFields, List.flatMap_cons, List.flatMap_nil, List.append_nil, List.append_assoc]

/-- The fields for texts have the names of these, in order and at most once each. -/
private theorem keys_textFields_sublist (a : Attrs) (fs : List (String × (Attrs → Option Text))) :
    (Dictionary.keys (fs.flatMap fun f => optionalField f.1 (f.2 a))).Sublist (fs.map (·.1.toList)) := by
  induction fs with
  | nil => exact List.Sublist.refl _
  | cons f fs ih =>
    rw [List.flatMap_cons, List.map_cons, Dictionary.keys, List.map_append]
    cases f.2 a with
    | none => exact ih.cons _
    | some t => exact ih.cons_cons _

/-- All `fields` have names from `fieldNames`, in order and at most once each. -/
private theorem keys_fields_sublist (a : Attrs) : (Dictionary.keys a.fields).Sublist fieldNames := by
  rw [fields_eq, Dictionary.keys, List.map_append]
  refine (keys_textFields_sublist a textFields).append ?_
  split
  · exact List.Sublist.refl _
  · exact List.nil_sublist _

/-- Under the name of one of the texts there is what `optionalField` writes for it. -/
private theorem get?_textFields (a : Attrs) {fs : List (String × (Attrs → Option Text))}
    (hnodup : (fs.map (·.1)).Nodup) {name : String} {value : Attrs → Option Text} (h : (name, value) ∈ fs) :
    Dictionary.get? name.toList (fs.flatMap fun f => optionalField f.1 (f.2 a)) = (value a).map .str := by
  induction fs with
  | nil => cases h
  | cons f fs ih =>
    rw [List.map_cons, List.nodup_cons] at hnodup
    rw [List.flatMap_cons, Dictionary.get?_append, get?_optionalField]
    -- later fields have other names, so they cannot hide this one
    rcases List.mem_cons.1 h with rfl | h
    -- behind the first field no other one has its name
    · have hlater : Dictionary.get? name.toList (fs.flatMap fun f => optionalField f.1 (f.2 a)) = none := by
        refine Dictionary.get?_eq_none fun hkey => hnodup.1 ?_
        obtain ⟨f, hf, heq⟩ := List.mem_map.1 ((keys_textFields_sublist a fs).subset hkey)
        exact List.mem_map.2 ⟨f, hf, String.toList_inj.1 heq⟩
      rw [if_pos rfl, hlater, Option.or_none]
    · have hne : name ≠ f.1 := by
        rintro rfl
        exact hnodup.1 (List.mem_map.2 ⟨_, h, rfl⟩)
      rw [if_neg hne, Option.none_or, ih hnodup.2 h]

/-- Among all `fields` it is under its own name too. -/
private theorem get?_fields_of_mem (a : Attrs) {name : String} {value : Attrs → Option Text}
    (h : (name, value) ∈ textFields) : Dictionary.get? name.toList a.fields = (value a).map .str := by
  have hne : name ≠ "is_ringed" := by
    rintro rfl
    have hnames : "is_ringed" ∉ textFields.map (·.1) := by decide
    exact hnames (List.mem_map.2 ⟨_, h, rfl⟩)
  -- the field for the ring has another name
  have hringed : Dictionary.get? name.toList
      (if a.ringed then [("is_ringed".toList, Json.bool true)] else []) = none := by
    split
    · rw [Dictionary.get?_cons, if_neg (fun heq => hne (String.toList_inj.1 heq)), Dictionary.get?_nil]
    · rw [Dictionary.get?_nil]
  rw [fields_eq, Dictionary.get?_append, get?_textFields a (by decide) h, hringed, Option.or_none]

/-- Among the `fields` there is one for the ring just if there is a ring. -/
private theorem get?_fields_ringed (a : Attrs) :
    Dictionary.get? "is_ringed".toList a.fields = if a.ringed then some (.bool true) else none := by
  have htexts : Dictionary.get? "is_ringed".toList
      (textFields.flatMap fun f => optionalField f.1 (f.2 a)) = none := by
    refine Dictionary.get?_eq_none fun hkey => ?_
    have hnames : "is_ringed".toList ∉ textFields.map (·.1.toList) := by decide
    exact hnames ((keys_textFields_sublist a textFields).subset hkey)
  rw [fields_eq, Dictionary.get?_append, htexts, Option.none_or]
  split
  · rw [Dictionary.get?_cons, if_pos rfl]
  · rw [Dictionary.get?_nil]

/-- Where marks are told from flags, all attributes that are `shown` are told from their `fields`. -/
theorem shown_eq_of_same {a b : Attrs} (ha : a.IsNoted) (hb : b.IsNoted)
    (h : ∀ name ∈ fieldNames, (Dictionary.get? name a.fields).map Json.sorted =
      (Dictionary.get? name b.fields).map Json.sorted) : a.shown = b.shown := by
  -- names that are injective can be taken off; the flag comes last, as it takes the mark to know its suffix
  -- each text is under its own name
  have htext : ∀ {name value}, (name, value) ∈ textFields → value a = value b := by
    intro name value hmem
    have hfield := h name.toList (List.mem_append_left _ (List.mem_map.2 ⟨_, hmem, rfl⟩))
    rw [get?_fields_of_mem a hmem, get?_fields_of_mem b hmem, Option.map_map, Option.map_map] at hfield
    exact Option.map_injective (fun s t heq => by simpa using heq) hfield
  have hid : a.id = b.id := @htext "blockid" id (by simp [textFields])
  have hcategory : a.category.map Category.name = b.category.map Category.name :=
    @htext "category" (fun a => a.category.map Category.name) (by simp [textFields])
  have hshape : a.shape.map Shape.name = b.shape.map Shape.name :=
    @htext "shape" (fun a => a.shape.map Shape.name) (by simp [textFields])
  have hnote : a.flagNote = b.flagNote := @htext "flag" flagNote (by simp [textFields])
  have hlang : a.lang = b.lang := @htext "lang" lang (by simp [textFields])
  have hcomment : a.comment = b.comment := @htext "comment" comment (by simp [textFields])
  have himage : a.image = b.image := @htext "image_replacement" image (by simp [textFields])
  have hcategory : a.category = b.category := Option.map_injective Category.name_injective hcategory
  have hshape : a.shape = b.shape := Option.map_injective Shape.name_injective hshape
  -- a ring is written only where there is one
  have hringed : a.ringed = b.ringed := by
    have hfield := h "is_ringed".toList (by decide)
    rw [get?_fields_ringed, get?_fields_ringed] at hfield
    cases hra : a.ringed <;> cases hrb : b.ringed <;> simp [hra, hrb] at hfield <;> rfl
  -- the suffix says whether there is a mark
  -- the mark is told by the flag with its note, and the same flag is noted in both
  have hcapEnd : a.capEnd = b.capEnd := by
    rw [IsNoted, hnote] at ha
    rw [IsNoted] at hb
    rw [Bool.eq_iff_iff, ← ha, ← hb]
  -- with the same mark the suffix is the same, and can be taken off
  have hflag : a.flag = b.flag := by
    simp only [flagNote, hcapEnd] at hnote
    refine Option.map_injective (fun f f' heq => Flag.name_injective f f' ?_) hnote
    cases hmark : b.capEnd <;> simpa [hmark] using heq
  simp only [shown, hid, hcategory, hshape, hflag, hlang, hcomment, himage, hringed, hcapEnd]

end Attrs

/-! ## Pieces -/

namespace Piece

/-- `toJsonList` converts each piece. -/
theorem toJsonList_eq_map (ps : List Piece) : toJsonList ps = ps.map toJson := by
  induction ps with
  | nil => rw [toJsonList, List.map_nil]
  | cons p ps ih => rw [toJsonList, ih, List.map_cons]

/-- The fields of a block. -/
def blockFields (a : Attrs) (ps : List Piece) : List (Text × Json) :=
  ("pieces".toList, .arr (ps.map toJson)) :: a.fields

/-- A block is written as an object with its `blockFields`. -/
theorem toJson_block (a : Attrs) (ps : List Piece) : toJson (.block a ps) = .obj (blockFields a ps) := by
  rw [toJson, toJsonList_eq_map, blockFields]

/-- No name is repeated in `blockFields`. -/
theorem keys_blockFields_nodup (a : Attrs) (ps : List Piece) :
    (Dictionary.keys (blockFields a ps)).Nodup := by
  have hnames : ("pieces".toList :: Attrs.fieldNames).Nodup := by decide
  exact hnames.sublist (a.keys_fields_sublist.cons_cons _)

/-- Blocks have the same `blockFields` just if they have the same pieces and the same fields for
    attributes. -/
private theorem same_blockFields {a b : Attrs} {ps qs : List Piece}
    (h : (Json.obj (blockFields a ps)).Same (.obj (blockFields b qs))) :
    (Json.arr (ps.map toJson)).Same (.arr (qs.map toJson)) ∧
      ∀ name ∈ Attrs.fieldNames, (Dictionary.get? name a.fields).map Json.sorted =
        (Dictionary.get? name b.fields).map Json.sorted := by
  rw [Json.same_obj_iff (keys_blockFields_nodup a ps) (keys_blockFields_nodup b qs)] at h
  simp only [blockFields, Dictionary.get?_cons] at h
  constructor
  · simpa [Json.Same] using h "pieces".toList
  · intro name hname
    -- no attribute is written under the name of the pieces
    have hne : name ≠ "pieces".toList := by
      rintro rfl
      revert hname
      decide
    simpa only [if_neg hne] using h name

mutual

/-- What is not `shown` makes no difference to the JSON of a piece. -/
private theorem toJson_mapAttrs_shown : ∀ p : Piece, (p.mapAttrs Attrs.shown).toJson = p.toJson
  | .text t => by rw [mapAttrs]
  | .block a ps => by
    rw [mapAttrs, toJson, toJson, Attrs.fields_shown, toJsonList_mapAttrsList_shown ps]

private theorem toJsonList_mapAttrsList_shown :
    ∀ ps : List Piece, toJsonList (mapAttrsList Attrs.shown ps) = toJsonList ps
  | [] => by rw [mapAttrsList]
  | p :: ps => by
    rw [mapAttrsList, toJsonList, toJsonList, toJson_mapAttrs_shown p, toJsonList_mapAttrsList_shown ps]

end

mutual

/-- Pieces whose JSON is the `Same` are equal in all that is `shown`: by induction on both, a text is never a
    block. -/
private theorem eq_of_same :
    ∀ {p q : Piece}, (∀ a ∈ p.allAttrs, a.IsNoted) → (∀ a ∈ q.allAttrs, a.IsNoted) →
    p.toJson.Same q.toJson → p.mapAttrs Attrs.shown = q.mapAttrs Attrs.shown
  | .text t, .text t', _, _, h => by simpa [Json.Same, toJson, mapAttrs] using h
  | .text t, .block a ps, _, _, h => by simp [Json.Same, toJson] at h
  | .block a ps, .text t, _, _, h => by simp [Json.Same, toJson] at h
  | .block a ps, .block b qs, hp, hq, h => by
    rw [allAttrs_block, List.forall_mem_cons] at hp hq
    rw [toJson_block, toJson_block] at h
    obtain ⟨hpieces, hattrs⟩ := same_blockFields h
    rw [mapAttrs, mapAttrs, Attrs.shown_eq_of_same hp.1 hq.1 hattrs,
      list_eq_of_same hp.2 hq.2 (Json.same_arr_iff.1 hpieces)]

/-- Lists of pieces whose JSON is the same are as long as each other, and equal in all that is `shown`. -/
private theorem list_eq_of_same : ∀ {ps qs : List Piece}, (∀ a ∈ ps.flatMap allAttrs, a.IsNoted) →
    (∀ a ∈ qs.flatMap allAttrs, a.IsNoted) →
    (ps.map toJson).map Json.sorted = (qs.map toJson).map Json.sorted →
    mapAttrsList Attrs.shown ps = mapAttrsList Attrs.shown qs
  | [], [], _, _, _ => rfl
  | [], _ :: _, _, _, h => by cases h
  | _ :: _, [], _, _, h => by cases h
  | p :: ps, q :: qs, hp, hq, h => by
    rw [List.flatMap_cons, List.forall_mem_append] at hp hq
    simp only [List.map_cons, List.cons.injEq] at h
    rw [mapAttrsList, mapAttrsList, eq_of_same hp.1 hq.1 h.1, list_eq_of_same hp.2 hq.2 h.2]

end

/-- Where marks are told from flags, pieces have the same JSON just if they are equal in all that is
    `shown`. -/
theorem same_toJson_iff {p q : Piece} (hp : ∀ a ∈ p.allAttrs, a.IsNoted) (hq : ∀ a ∈ q.allAttrs, a.IsNoted) :
    p.toJson.Same q.toJson ↔ p.mapAttrs Attrs.shown = q.mapAttrs Attrs.shown := by
  refine ⟨eq_of_same hp hq, fun h => ?_⟩
  rw [← toJson_mapAttrs_shown p, h, toJson_mapAttrs_shown]

end Piece

/-! ## Nodes -/

namespace Node

/-- `toJsonList` converts each node. -/
theorem toJsonList_eq_map (ns : List Node) : toJsonList ns = ns.map toJson := by
  induction ns with
  | nil => rw [toJsonList, List.map_nil]
  | cons n ns ih => rw [toJsonList, ih, List.map_cons]

/-- The fields of a node. -/
def fields : Node → List (Text × Json)
  | .block b => Piece.blockFields b.attrs b.pieces
  | .wrap s nodes =>
    [("type".toList, .ofString "cwrap"), ("shape".toList, .orNull (s.map fun s => .str s.name)),
      ("contents".toList, .arr (nodes.map toJson))]
  | .mouth c nodes =>
    [("type".toList, .ofString "cmouth"), ("category".toList, .orNull (c.map fun c => .str c.name)),
      ("contents".toList, .arr (nodes.map toJson))]

/-- A node is written as an object with its `fields`. -/
theorem toJson_eq (n : Node) : n.toJson = .obj n.fields := by
  cases n with
  | block b => rw [toJson, Block.toJson, Block.toPiece, Piece.toJson_block, fields]
  | wrap s nodes => rw [toJson, toJsonList_eq_map, fields, Json.record]; rfl
  | mouth c nodes => rw [toJson, toJsonList_eq_map, fields, Json.record]; rfl

/-- No name is repeated in the `fields` of a node. -/
theorem keys_fields_nodup (n : Node) : (Dictionary.keys n.fields).Nodup := by
  cases n with
  | block b => exact Piece.keys_blockFields_nodup _ _
  | wrap s nodes =>
    have hnames : ["type".toList, "shape".toList, "contents".toList].Nodup := by decide
    exact hnames
  | mouth c nodes =>
    have hnames : ["type".toList, "category".toList, "contents".toList].Nodup := by decide
    exact hnames

/-- The type that is written of a C block or a mouth. -/
def type? : Node → Option String
  | .block _ => none
  | .wrap _ _ => some "cwrap"
  | .mouth _ _ => some "cmouth"

/-- Under `type` there is the `type?` of a node, and nothing for a block. -/
private theorem get?_type (n : Node) :
    Dictionary.get? "type".toList n.fields = n.type?.map Json.ofString := by
  cases n with
  | block b =>
    refine Dictionary.get?_eq_none fun hkey => ?_
    -- none of the fields of a block is called so
    have hnames : "type".toList ∉ "pieces".toList :: Attrs.fieldNames := by decide
    exact hnames ((b.attrs.keys_fields_sublist.cons_cons _).subset hkey)
  | wrap s nodes => rw [fields, Dictionary.get?_cons, if_pos rfl, type?, Option.map_some]
  | mouth c nodes => rw [fields, Dictionary.get?_cons, if_pos rfl, type?, Option.map_some]

/-- A label that may be missing is told from how `orNull` writes it. -/
private theorem eq_of_sorted_orNull {α : Type} {name : α → Text} (hname : ∀ x y, name x = name y → x = y)
    {x y : Option α} (h : (Json.orNull (x.map fun x => .str (name x))).sorted =
      (Json.orNull (y.map fun y => .str (name y))).sorted) : x = y := by
  cases x with
  | none => cases y <;> simp_all [Json.orNull]
  | some x =>
    cases y with
    | none => simp [Json.orNull] at h
    | some y =>
      have hnames : name x = name y := by simpa [Json.orNull] using h
      rw [hname x y hnames]

mutual

/-- What is not `shown` makes no difference to the JSON of a node. -/
private theorem toJson_mapAttrs_shown : ∀ n : Node, (n.mapAttrs Attrs.shown).toJson = n.toJson
  | .block b => by
    rw [mapAttrs, toJson, toJson, Block.toJson, Block.toJson, ← Piece.toJson_mapAttrs_shown b.toPiece,
      Block.toPiece, Block.toPiece, Piece.mapAttrs, Block.mapAttrs]
  | .wrap s nodes => by rw [mapAttrs, toJson, toJson, toJsonList_mapAttrsList_shown nodes]
  | .mouth c nodes => by rw [mapAttrs, toJson, toJson, toJsonList_mapAttrsList_shown nodes]

private theorem toJsonList_mapAttrsList_shown :
    ∀ ns : List Node, toJsonList (mapAttrsList Attrs.shown ns) = toJsonList ns
  | [] => by rw [mapAttrsList]
  | n :: ns => by
    rw [mapAttrsList, toJsonList, toJsonList, toJson_mapAttrs_shown n, toJsonList_mapAttrsList_shown ns]

end

/-- C blocks whose JSON is the `Same` have the same shape and contents. -/
private theorem wrap_of_same {s s' : Option Shape} {ns ms : List Node}
    (h : (Node.wrap s ns).toJson.Same (Node.wrap s' ms).toJson) :
    s = s' ∧ (ns.map toJson).map Json.sorted = (ms.map toJson).map Json.sorted := by
  rw [toJson_eq, toJson_eq, Json.same_obj_iff (keys_fields_nodup _) (keys_fields_nodup _)] at h
  have hshape := h "shape".toList
  have hcontents := h "contents".toList
  constructor
  · exact eq_of_sorted_orNull Shape.name_injective (by simpa [fields, Dictionary.get?_cons] using hshape)
  · simpa [fields, Dictionary.get?_cons] using hcontents

/-- Mouths whose JSON is the `Same` have the same category and contents. -/
private theorem mouth_of_same {c c' : Option Category} {ns ms : List Node}
    (h : (Node.mouth c ns).toJson.Same (Node.mouth c' ms).toJson) :
    c = c' ∧ (ns.map toJson).map Json.sorted = (ms.map toJson).map Json.sorted := by
  rw [toJson_eq, toJson_eq, Json.same_obj_iff (keys_fields_nodup _) (keys_fields_nodup _)] at h
  have hcategory := h "category".toList
  have hcontents := h "contents".toList
  constructor
  · exact eq_of_sorted_orNull Category.name_injective (by simpa [fields, Dictionary.get?_cons] using hcategory)
  · simpa [fields, Dictionary.get?_cons] using hcontents

/-- Nodes with the same JSON have the same `type?`, if any. -/
private theorem type_of_same {n m : Node} (h : n.toJson.Same m.toJson) : n.type? = m.type? := by
  rw [toJson_eq, toJson_eq, Json.same_obj_iff (keys_fields_nodup _) (keys_fields_nodup _)] at h
  have htype := h "type".toList
  rw [get?_type, get?_type, Option.map_map, Option.map_map] at htype
  exact Option.map_injective (fun t t' heq => by simpa [Json.ofString, String.toList_inj] using heq) htype

/-- `AllNoted ns`: marks are told from flags in all blocks among the nodes. -/
def AllNoted (ns : List Node) : Prop := ∀ b ∈ ns.flatMap blocks, ∀ a ∈ b.allAttrs, a.IsNoted

/-- A list of nodes is `AllNoted` if the first node and the others are. -/
private theorem allNoted_cons {n : Node} {ns : List Node} :
    AllNoted (n :: ns) ↔ AllNoted [n] ∧ AllNoted ns := by
  simp only [AllNoted, List.flatMap_cons, List.forall_mem_append, List.flatMap_nil, List.append_nil]

mutual

/-- Nodes whose JSON is the `Same` are equal in all that is `shown`: by induction on both, the type says which
    kind they are. -/
private theorem eq_of_same : ∀ {n m : Node}, AllNoted [n] → AllNoted [m] → n.toJson.Same m.toJson →
    n.mapAttrs Attrs.shown = m.mapAttrs Attrs.shown
  | .block b, .block b', hn, hm, h => by
    simp only [AllNoted, List.flatMap_singleton, blocks_block, List.forall_mem_singleton] at hn hm
    rw [← Block.allAttrs_toPiece] at hn hm
    rw [toJson, toJson, Block.toJson, Block.toJson, Piece.same_toJson_iff hn hm, Block.toPiece, Block.toPiece,
      Piece.mapAttrs, Piece.mapAttrs, Piece.block.injEq] at h
    rw [mapAttrs_block, mapAttrs_block, Block.mapAttrs, Block.mapAttrs, h.1, h.2]
  | .wrap s ns, .wrap s' ms, hn, hm, h => by
    obtain ⟨hshape, hcontents⟩ := wrap_of_same h
    simp only [AllNoted, List.flatMap_singleton, blocks_wrap] at hn hm
    rw [mapAttrs, mapAttrs, hshape, list_eq_of_same hn hm hcontents]
  | .mouth c ns, .mouth c' ms, hn, hm, h => by
    obtain ⟨hcategory, hcontents⟩ := mouth_of_same h
    simp only [AllNoted, List.flatMap_singleton, blocks_mouth] at hn hm
    rw [mapAttrs, mapAttrs, hcategory, list_eq_of_same hn hm hcontents]
  -- nodes of different kinds are written with different types
  | .block _, .wrap _ _, _, _, h => absurd (type_of_same h) (by simp [type?])
  | .block _, .mouth _ _, _, _, h => absurd (type_of_same h) (by simp [type?])
  | .wrap _ _, .block _, _, _, h => absurd (type_of_same h) (by simp [type?])
  | .wrap _ _, .mouth _ _, _, _, h => absurd (type_of_same h) (by simp [type?])
  | .mouth _ _, .block _, _, _, h => absurd (type_of_same h) (by simp [type?])
  | .mouth _ _, .wrap _ _, _, _, h => absurd (type_of_same h) (by simp [type?])

/-- Lists of nodes whose JSON is the same are as long as each other, and equal in all that is `shown`. -/
private theorem list_eq_of_same : ∀ {ns ms : List Node}, AllNoted ns → AllNoted ms →
    (ns.map toJson).map Json.sorted = (ms.map toJson).map Json.sorted →
    mapAttrsList Attrs.shown ns = mapAttrsList Attrs.shown ms
  | [], [], _, _, _ => rfl
  | [], _ :: _, _, _, h => by cases h
  | _ :: _, [], _, _, h => by cases h
  | n :: ns, m :: ms, hns, hms, h => by
    rw [allNoted_cons] at hns hms
    simp only [List.map_cons, List.cons.injEq] at h
    rw [mapAttrsList, mapAttrsList, eq_of_same hns.1 hms.1 h.1, list_eq_of_same hns.2 hms.2 h.2]

end

/-- Where marks are told from flags, lists of nodes have the same JSON just if they are equal in all that is
    `shown`. -/
private theorem same_map_toJson_iff {ns ms : List Node} (hns : AllNoted ns) (hms : AllNoted ms) :
    (Json.arr (ns.map toJson)).Same (.arr (ms.map toJson)) ↔
      ns.map (mapAttrs Attrs.shown) = ms.map (mapAttrs Attrs.shown) := by
  rw [Json.same_arr_iff, ← mapAttrsList_eq_map, ← mapAttrsList_eq_map]
  refine ⟨list_eq_of_same hns hms, fun h => ?_⟩
  -- what is not shown can be left out before the nodes are written
  have htoJson : ∀ ns : List Node, ns.map toJson = toJsonList (mapAttrsList Attrs.shown ns) :=
    fun ns => by rw [toJsonList_mapAttrsList_shown, toJsonList_eq_map]
  rw [htoJson, h, ← htoJson]

end Node

/-! ## Scripts -/

/-- Where marks are told from flags, `scriptsToJson` makes the same of scripts just if these are equal in all
    that is `shown`. -/
theorem same_scriptsToJson_iff {ss ss' : List Script} (hss : ∀ s ∈ ss, Node.AllNoted s)
    (hss' : ∀ s ∈ ss', Node.AllNoted s) :
    (scriptsToJson ss).Same (scriptsToJson ss') ↔
      ss.map (Script.mapAttrs Attrs.shown) = ss'.map (Script.mapAttrs Attrs.shown) := by
  rw [scriptsToJson, scriptsToJson, Json.same_arr_iff]
  induction ss generalizing ss' with
  | nil => cases ss' <;> simp
  | cons s ss ih =>
    cases ss' with
    | nil => simp
    | cons s' ss' =>
      rw [List.forall_mem_cons] at hss hss'
      -- a script is written as the list of its nodes
      have hscript : s.toJson.sorted = s'.toJson.sorted ↔
          s.mapAttrs Attrs.shown = s'.mapAttrs Attrs.shown := by
        rw [Script.toJson, Script.toJson, Node.toJsonList_eq_map, Node.toJsonList_eq_map]
        exact Node.same_map_toJson_iff hss.1 hss'.1
      simp only [List.map_cons, List.cons.injEq, hscript]
      exact and_congr_right fun _ => ih hss.2 hss'.2

end BlockScript
