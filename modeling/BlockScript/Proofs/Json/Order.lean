import Mathlib.Data.List.Nodup
import BlockScript.Json.Printer

/-!
# JSON up to the order of fields

Two values are the same up to the order of fields if they are equal once the fields of every object in them
are sorted by name. Where no name is repeated in an object, this compares objects name by name, whatever the
order.

## Key results

- `Json.same_obj_iff`: objects are the same just if they hold the same under each name
- `Json.writeAt_eq_sorted`: with sorted fields a value is written like the sorted value
-/

namespace BlockScript

/-! ## The order of names -/

/-- `notAfter` compares two texts at their first characters, and behind them only if these are the same. -/
private theorem Text.notAfter_cons {c d : Char} {s t : Text} :
    notAfter (c :: s) (d :: t) = true ↔ c < d ∨ c = d ∧ notAfter s t = true := by
  simp [notAfter]

/-- Of two texts one is `notAfter` the other. -/
theorem Text.notAfter_total (s t : Text) : notAfter s t = true ∨ notAfter t s = true := by
  induction s generalizing t with
  | nil => exact .inl rfl
  | cons c s ih =>
    cases t with
    | nil => exact .inr rfl
    | cons d t =>
      rw [notAfter_cons, notAfter_cons]
      -- the first characters decide, unless they are the same
      rcases Std.lt_trichotomy c d with hlt | rfl | hgt
      · exact .inl (.inl hlt)
      · exact (ih t).imp (fun h => .inr ⟨rfl, h⟩) fun h => .inr ⟨rfl, h⟩
      · exact .inr (.inl hgt)

/-- `notAfter` is transitive. -/
theorem Text.notAfter_trans {s t u : Text} (hst : notAfter s t = true) (htu : notAfter t u = true) :
    notAfter s u = true := by
  induction s generalizing t u with
  | nil => rfl
  | cons c s ih =>
    -- the first characters decide, unless all three are the same
    match t, u with
    | [], _ => simp [notAfter] at hst
    | _ :: _, [] => simp [notAfter] at htu
    | d :: t, e :: u =>
      rw [notAfter_cons] at hst htu ⊢
      rcases hst with hcd | ⟨rfl, hst⟩
      · rcases htu with hde | ⟨rfl, -⟩
        · exact .inl (Char.lt_trans hcd hde)
        · exact .inl hcd
      · exact htu.imp id fun h => ⟨h.1, ih hst h.2⟩

/-- Two texts that are `notAfter` each other are the same. -/
theorem Text.notAfter_antisymm {s t : Text} (hst : notAfter s t = true) (hts : notAfter t s = true) :
    s = t := by
  induction s generalizing t with
  | nil =>
    cases t with
    | nil => rfl
    | cons d t => simp [notAfter] at hts
  | cons c s ih =>
    cases t with
    | nil => simp [notAfter] at hst
    | cons d t =>
      rw [notAfter_cons] at hst hts
      -- the first characters differ, and one of them would be less than itself, or they are the same
      rcases hst with hcd | ⟨rfl, hst⟩
      · rcases hts with hdc | ⟨rfl, -⟩
        · exact absurd hdc (Char.lt_asymm hcd)
        · exact absurd hcd (Char.lt_irrefl d)
      · rcases hts with hcc | ⟨-, hts⟩
        · exact absurd hcc (Char.lt_irrefl c)
        · rw [ih hst hts]

namespace Dictionary

variable {α β : Type}

/-- The entries sorted by key. -/
def byKey (d : Dictionary α) : Dictionary α := d.mergeSort fun a b => Text.notAfter a.1 b.1

/-- `byKey` keeps all entries. -/
private theorem byKey_perm (d : Dictionary α) : (byKey d).Perm d := List.mergeSort_perm _ _

/-- `byKey` puts no key behind a later one. -/
private theorem byKey_pairwise (d : Dictionary α) :
    (byKey d).Pairwise fun a b => Text.notAfter a.1 b.1 = true := by
  refine List.pairwise_mergeSort (fun _ _ _ => ?_) (fun _ _ => ?_) d
  · exact Text.notAfter_trans
  · exact Bool.or_eq_true_iff.2 (Text.notAfter_total _ _)

/-- What `byKey` has sorted stays as it is. -/
@[simp] theorem byKey_byKey (d : Dictionary α) : byKey (byKey d) = byKey d :=
  List.mergeSort_of_pairwise (byKey_pairwise d)

/-- `byKey` repeats no key that was not repeated before. -/
theorem keys_byKey_nodup_iff {d : Dictionary α} : (keys (byKey d)).Nodup ↔ (keys d).Nodup :=
  ((byKey_perm d).map Prod.fst).nodup_iff

/-- What is so of all entries is so of all entries of `byKey`. -/
theorem forall_mem_byKey {P : Text × α → Prop} {d : Dictionary α} :
    (∀ e ∈ byKey d, P e) ↔ ∀ e ∈ d, P e := by
  simp only [(byKey_perm d).mem_iff]

/-- `byKey` looks at the keys alone, so the values can be changed before or after. -/
private theorem map_byKey (f : α → β) (d : Dictionary α) :
    (byKey d).map (fun e => (e.1, f e.2)) = byKey (d.map fun e => (e.1, f e.2)) :=
  List.map_mergeSort fun _ _ _ _ => rfl

/-- Where no key is repeated, `get?` finds every entry. -/
private theorem get?_of_mem {key : Text} {x : α} {d : Dictionary α} (hnodup : (keys d).Nodup)
    (h : (key, x) ∈ d) :
    get? key d = some x := by
  induction d with
  | nil => simp at h
  | cons e rest ih =>
    obtain ⟨k, y⟩ := e
    rw [keys_cons, List.nodup_cons] at hnodup
    rw [get?_cons]
    -- the first entry has the key, or else it has another one and hides nothing
    rcases List.mem_cons.1 h with heq | hrest
    · obtain ⟨rfl, rfl⟩ := Prod.mk.inj heq
      exact if_pos rfl
    · have hne : key ≠ k := fun hkey => hnodup.1 (hkey ▸ List.mem_map_of_mem hrest)
      rw [if_neg hne, ih hnodup.2 hrest]

/-- Where no key is repeated, `get?` finds the entries and nothing else. -/
private theorem get?_eq_some_iff {key : Text} {x : α} {d : Dictionary α} (hnodup : (keys d).Nodup) :
    get? key d = some x ↔ (key, x) ∈ d :=
  ⟨mem_of_get?, get?_of_mem hnodup⟩

/-- `put` writes a new key at the end. -/
theorem put_of_not_mem {key : Text} {x : α} {d : Dictionary α} (h : key ∉ keys d) :
    put key x d = d ++ [(key, x)] := by
  induction d with
  | nil => rfl
  | cons e rest ih =>
    obtain ⟨k, y⟩ := e
    rw [keys_cons, List.mem_cons, not_or] at h
    rw [put, if_neg (Ne.symm h.1), ih h.2, List.cons_append]

/-- `get?` looks into the first of two dictionaries first. -/
theorem get?_append (key : Text) (d d' : Dictionary α) :
    get? key (d ++ d') = (get? key d).or (get? key d') := List.lookup_append

/-- `get?` finds nothing under a key that is not among the `keys`. -/
theorem get?_eq_none {key : Text} {d : Dictionary α} (h : key ∉ keys d) : get? key d = none := by
  rw [← Option.not_isSome_iff_eq_none, Option.isSome_iff_exists]
  rintro ⟨x, hx⟩
  exact h (List.mem_map_of_mem (mem_of_get? hx))

/-- Where no key is repeated, the order of the entries makes no difference to `get?`. -/
private theorem get?_perm {d d' : Dictionary α} (h : d.Perm d') (hnodup : (keys d).Nodup) (key : Text) :
    get? key d = get? key d' := by
  have hnodup' : (keys d').Nodup := (h.map Prod.fst).nodup_iff.1 hnodup
  ext x
  rw [get?_eq_some_iff hnodup, get?_eq_some_iff hnodup', h.mem_iff]

/-- `get?` can be used before or after all values are changed. -/
private theorem get?_map (f : α → β) (key : Text) (d : Dictionary α) :
    get? key (d.map fun e => (e.1, f e.2)) = (get? key d).map f := by
  simpa using get?_filter_map key (fun _ => true) f d

/-- To change the values does not change the `keys`. -/
theorem keys_map (f : α → β) (d : Dictionary α) : keys (d.map fun e => (e.1, f e.2)) = keys d := by
  simp [keys]

/-- Where no key is repeated, `byKey` makes the same of two dictionaries just if `get?` does. -/
private theorem byKey_eq_byKey_iff {d d' : Dictionary α} (hnodup : (keys d).Nodup)
    (hnodup' : (keys d').Nodup) :
    byKey d = byKey d' ↔ ∀ key, get? key d = get? key d' := by
  constructor
  · intro h key
    rw [← get?_perm (byKey_perm d) (keys_byKey_nodup_iff.2 hnodup), h,
      get?_perm (byKey_perm d') (keys_byKey_nodup_iff.2 hnodup')]
  · intro h
    -- they have the same entries, and there is only one order for these
    -- the entries are the same, in another order
    have hperm : d.Perm d' := by
      refine (List.perm_ext_iff_of_nodup hnodup.of_map hnodup'.of_map).2 fun e => ?_
      rw [← get?_eq_some_iff hnodup, h, get?_eq_some_iff hnodup']
    refine List.Perm.eq_of_pairwise ?_ (byKey_pairwise d) (byKey_pairwise d')
      ((byKey_perm d).trans (hperm.trans (byKey_perm d').symm))
    -- no two entries have the same key, so the order of keys is one of entries
    rintro ⟨k, x⟩ ⟨k', x'⟩ hmem hmem' hle hle'
    obtain rfl := Text.notAfter_antisymm hle hle'
    have hx := get?_of_mem hnodup ((byKey_perm d).mem_iff.1 hmem)
    have hx' := get?_of_mem hnodup' ((byKey_perm d').mem_iff.1 hmem')
    rw [h, hx'] at hx
    rw [Option.some.inj hx]

end Dictionary

/-! ## Sorted values -/

namespace Json

mutual

/-- A value with the fields of all objects in it sorted by name. -/
def sorted : Json → Json
  | .null => .null
  | .bool b => .bool b
  | .num n => .num n
  | .str t => .str t
  | .arr items => .arr (sortedItems items)
  | .obj fields => .obj (Dictionary.byKey (sortedFields fields))

/-- Items with the fields of all objects in them sorted by name. -/
def sortedItems : List Json → List Json
  | [] => []
  | item :: items => sorted item :: sortedItems items

/-- Fields in their order, with the fields of all objects in them sorted by name. -/
def sortedFields : List (Text × Json) → List (Text × Json)
  | [] => []
  | (name, value) :: fields => (name, sorted value) :: sortedFields fields

end

/-- `sortedItems` sorts the fields of each item. -/
private theorem sortedItems_eq_map (items : List Json) : sortedItems items = items.map sorted := by
  induction items with
  | nil => rw [sortedItems, List.map_nil]
  | cons item items ih => rw [sortedItems, ih, List.map_cons]

/-- `sortedFields` sorts the fields of each value. -/
private theorem sortedFields_eq_map (fields : List (Text × Json)) :
    sortedFields fields = fields.map fun f => (f.1, sorted f.2) := by
  induction fields with
  | nil => rw [sortedFields, List.map_nil]
  | cons f fields ih => rw [sortedFields, ih, List.map_cons]

@[simp] theorem sorted_arr (items : List Json) : sorted (.arr items) = .arr (items.map sorted) := by
  rw [sorted, sortedItems_eq_map]

@[simp] theorem sorted_obj (fields : List (Text × Json)) :
    sorted (.obj fields) = .obj (Dictionary.byKey (fields.map fun f => (f.1, sorted f.2))) := by
  rw [sorted, sortedFields_eq_map]

@[simp] theorem sorted_str (t : Text) : sorted (.str t) = .str t := by rw [sorted]

@[simp] theorem sorted_bool (b : Bool) : sorted (.bool b) = .bool b := by rw [sorted]

@[simp] theorem sorted_null : sorted .null = .null := by rw [sorted]

/-! ## Values that are the same -/

/-- Whether two values are equal but for the order of fields. -/
def Same (j j' : Json) : Prop := j.sorted = j'.sorted

@[refl] theorem Same.refl (j : Json) : j.Same j := rfl

mutual

/-- `sorted` does not change a value but for the order of fields. -/
theorem sorted_same : ∀ j : Json, j.sorted.Same j
  | .null => by rw [sorted_null]
  | .bool b => by rw [sorted_bool]
  | .num n => by rw [sorted]
  | .str t => by rw [sorted_str]
  | .arr items => by rw [Same, sorted_arr, sorted_arr, map_sorted_sorted items]
  | .obj fields => by
    -- the values are sorted twice, and so are the names
    rw [Same, sorted_obj, sorted_obj, Dictionary.map_byKey, List.map_map, Dictionary.byKey_byKey]
    exact congrArg (fun fields => Json.obj (Dictionary.byKey fields)) (map_sorted_sorted_fields fields)

/-- The items of an array are the same after `sorted` twice as after once. -/
private theorem map_sorted_sorted : ∀ items : List Json, (items.map sorted).map sorted = items.map sorted
  | [] => rfl
  | item :: items => by
    have hitem : item.sorted.sorted = item.sorted := sorted_same item
    rw [List.map_cons, List.map_cons, hitem, map_sorted_sorted items]

/-- The fields of an object are the same after `sorted` twice as after once. -/
private theorem map_sorted_sorted_fields : ∀ fields : List (Text × Json),
    fields.map ((fun f => (f.1, f.2.sorted)) ∘ fun f => (f.1, f.2.sorted)) =
      fields.map fun f => (f.1, f.2.sorted)
  | [] => rfl
  | (name, value) :: fields => by
    have hvalue : value.sorted.sorted = value.sorted := sorted_same value
    rw [List.map_cons, List.map_cons, map_sorted_sorted_fields fields, Function.comp_apply, hvalue]

end

/-- Arrays are the `Same` just if their items are, one by one. -/
theorem same_arr_iff {items items' : List Json} :
    Same (.arr items) (.arr items') ↔ items.map sorted = items'.map sorted := by
  rw [Same, sorted_arr, sorted_arr, Json.arr.injEq]

/-- Objects in which no name is repeated are the `Same` just if they hold the same under each name. -/
theorem same_obj_iff {fields fields' : List (Text × Json)} (hnodup : (Dictionary.keys fields).Nodup)
    (hnodup' : (Dictionary.keys fields').Nodup) :
    Same (.obj fields) (.obj fields') ↔
      ∀ name, (Dictionary.get? name fields).map sorted = (Dictionary.get? name fields').map sorted := by
  rw [Same, sorted_obj, sorted_obj, Json.obj.injEq, Dictionary.byKey_eq_byKey_iff
    (by rwa [Dictionary.keys_map]) (by rwa [Dictionary.keys_map])]
  simp only [Dictionary.get?_map]

/-! ## Sorted values as they are written -/

/-- `writeItems` writes each item. -/
theorem writeItems_eq_map (style : Style) (level : Nat) (items : List Json) :
    writeItems style level items = items.map (writeAt style level) := by
  induction items with
  | nil => rw [writeItems, List.map_nil]
  | cons item items ih => rw [writeItems, ih, List.map_cons]

/-- `writeFields` writes each value. -/
theorem writeFields_eq_map (style : Style) (level : Nat) (fields : List (Text × Json)) :
    writeFields style level fields = fields.map fun f => (f.1, writeAt style level f.2) := by
  induction fields with
  | nil => rw [writeFields, List.map_nil]
  | cons f fields ih => rw [writeFields, ih, List.map_cons]

mutual

/-- With sorted fields `writeAt` writes a value as the `sorted` value is written in its own order. -/
theorem writeAt_eq_sorted (indent : Option Nat) (ascii : Bool) (level : Nat) :
    ∀ j, writeAt ⟨indent, true, ascii⟩ level j = writeAt ⟨indent, false, ascii⟩ level j.sorted
  | .null => by rw [sorted_null, writeAt, writeAt]
  | .bool b => by rw [sorted_bool, writeAt, writeAt]
  | .num n => by rw [sorted, writeAt, writeAt]
  | .str t => by rw [sorted_str, writeAt, writeAt]
  | .arr items => by
    rw [sorted_arr, writeAt, writeAt, writeItems_eq_map, writeItems_eq_map, List.map_map,
      writeItems_eq_sorted indent ascii (level + 1) items]
    rfl
  | .obj fields => by
    -- sorting by names commutes with writing the values
    have hfields : Style.arrange ⟨indent, true, ascii⟩
          (fields.map fun f => (f.1, writeAt ⟨indent, true, ascii⟩ (level + 1) f.2)) =
        (Dictionary.byKey (fields.map fun f => (f.1, f.2.sorted))).map
          fun f => (f.1, writeAt ⟨indent, false, ascii⟩ (level + 1) f.2) := by
      rw [Dictionary.map_byKey, List.map_map, writeFields_eq_sorted indent ascii (level + 1) fields]
      rfl
    rw [sorted_obj, writeAt, writeAt, writeFields_eq_map, writeFields_eq_map, hfields]
    rfl

/-- With sorted names, `writeAt` writes the items of an array as it writes them after `sorted`. -/
private theorem writeItems_eq_sorted (indent : Option Nat) (ascii : Bool) (level : Nat) :
    ∀ items : List Json, items.map (writeAt ⟨indent, true, ascii⟩ level) =
      items.map fun j => writeAt ⟨indent, false, ascii⟩ level j.sorted
  | [] => rfl
  | item :: items => by
    rw [List.map_cons, List.map_cons, writeAt_eq_sorted indent ascii level item,
      writeItems_eq_sorted indent ascii level items]

/-- With sorted names, `writeAt` writes the fields of an object as it writes them after `sorted`. -/
private theorem writeFields_eq_sorted (indent : Option Nat) (ascii : Bool) (level : Nat) :
    ∀ fields : List (Text × Json),
      (fields.map fun f => (f.1, writeAt ⟨indent, true, ascii⟩ level f.2)) =
        fields.map fun f => (f.1, writeAt ⟨indent, false, ascii⟩ level f.2.sorted)
  | [] => rfl
  | (name, value) :: fields => by
    rw [List.map_cons, List.map_cons, writeAt_eq_sorted indent ascii level value,
      writeFields_eq_sorted indent ascii level fields]

end

end Json

end BlockScript
