import BlockScript.Json.Reader
import BlockScript.Proofs.Json.Order

/-!
# The depth of JSON values

The depth of a value is the number of arrays and objects inside one another in it. A reader that may open only
so many of them stops at the first one that goes beyond, and it meets one just if the depth is greater.

## Key results

- `Json.depth_sorted`: the order of fields makes no difference to the depth
- `Json.tooDeep?_eq_none_iff`: nothing in a value is too deep just if its depth is within the limit
-/

namespace BlockScript.Json

/-- `depthItems` is the greatest depth of an item. -/
private theorem depthItems_le_iff {items : List Json} {n : Nat} :
    depthItems items ≤ n ↔ ∀ item ∈ items, item.depth ≤ n := by
  induction items with
  | nil => simp [depthItems]
  | cons item items ih => rw [depthItems, Nat.max_le, ih, List.forall_mem_cons]

/-- `depthFields` is the greatest depth of a value. -/
theorem depthFields_le_iff {fields : List (Text × Json)} {n : Nat} :
    depthFields fields ≤ n ↔ ∀ f ∈ fields, f.2.depth ≤ n := by
  induction fields with
  | nil => simp [depthFields]
  | cons f fields ih => rw [depthFields, Nat.max_le, ih, List.forall_mem_cons]

mutual

/-- A bound for the `depth` of a value is one for that of the value with `sorted` fields. -/
private theorem depth_sorted_le_iff {n : Nat} : ∀ j : Json, j.sorted.depth ≤ n ↔ j.depth ≤ n
  | .null => by rw [sorted_null]
  | .bool _ => by rw [sorted_bool]
  | .num _ => by rw [sorted]
  | .str _ => by rw [sorted_str]
  -- a container has one level more than what is in it, in either order
  | .arr items => by
    cases n with
    | zero => simp [depth]
    | succ n =>
      -- an array is one deeper than its items, before and after
      rw [sorted_arr, depth, depth, Nat.add_le_add_iff_right, Nat.add_le_add_iff_right, depthItems_le_iff,
        depthItems_le_iff, List.forall_mem_map]
      exact forall_depth_sorted_le_iff items
  | .obj fields => by
    cases n with
    | zero => simp [depth]
    | succ n =>
      -- sorting keeps the fields, so their depths too
      rw [sorted_obj, depth, depth, Nat.add_le_add_iff_right, Nat.add_le_add_iff_right, depthFields_le_iff,
        depthFields_le_iff, Dictionary.forall_mem_byKey, List.forall_mem_map]
      exact forall_depth_field_sorted_le_iff fields

/-- `sorted` leaves the depth of the items of an array as it is. -/
private theorem forall_depth_sorted_le_iff {n : Nat} : ∀ items : List Json,
    (∀ item ∈ items, item.sorted.depth ≤ n) ↔ ∀ item ∈ items, item.depth ≤ n
  | [] => by simp
  | item :: items => by
    rw [List.forall_mem_cons, List.forall_mem_cons, depth_sorted_le_iff item,
      forall_depth_sorted_le_iff items]

/-- `sorted` leaves the depth of the values of an object as it is. -/
private theorem forall_depth_field_sorted_le_iff {n : Nat} : ∀ fields : List (Text × Json),
    (∀ f ∈ fields, f.2.sorted.depth ≤ n) ↔ ∀ f ∈ fields, f.2.depth ≤ n
  | [] => by simp
  | (_, value) :: fields => by
    rw [List.forall_mem_cons, List.forall_mem_cons, depth_sorted_le_iff value,
      forall_depth_field_sorted_le_iff fields]

end

/-- The order of fields makes no difference to the `depth`. -/
@[simp] theorem depth_sorted (j : Json) : j.sorted.depth = j.depth :=
  Nat.le_antisymm ((depth_sorted_le_iff j).2 (Nat.le_refl _)) ((depth_sorted_le_iff j).1 (Nat.le_refl _))

mutual

/-- How the first array or object of a value shows that is inside more than so many others, if there is
    one. -/
def tooDeep? : Nat → Json → Option Excess
  | 0, .arr _ => some .arrayDepth
  | 0, .obj _ => some .objectDepth
  | room + 1, .arr items => tooDeepItem? room items
  | room + 1, .obj fields => tooDeepField? room fields
  | _, _ => none

/-- The same of the items of an array. -/
def tooDeepItem? (room : Nat) : List Json → Option Excess
  | [] => none
  | item :: items => (tooDeep? room item).or (tooDeepItem? room items)

/-- The same of the fields of an object. -/
def tooDeepField? (room : Nat) : List (Text × Json) → Option Excess
  | [] => none
  | (_, value) :: fields => (tooDeep? room value).or (tooDeepField? room fields)

end

/-- `tooDeepItem?` finds the first item that is too deep. -/
theorem tooDeepItem?_cons (item : Json) (room : Nat) (items : List Json) :
    tooDeepItem? room (item :: items) = (tooDeep? room item).or (tooDeepItem? room items) := by
  rw [tooDeepItem?]

theorem tooDeepField?_cons (f : Text × Json) (room : Nat) (fields : List (Text × Json)) :
    tooDeepField? room (f :: fields) = (tooDeep? room f.2).or (tooDeepField? room fields) := by
  rw [tooDeepField?]

mutual

/-- `tooDeep?` finds nothing just if the `depth` is within the limit. -/
theorem tooDeep?_eq_none_iff : ∀ {room : Nat} {j : Json}, tooDeep? room j = none ↔ j.depth ≤ room
  | room, .null => by cases room <;> simp [tooDeep?, depth]
  | room, .bool _ => by cases room <;> simp [tooDeep?, depth]
  | room, .num _ => by cases room <;> simp [tooDeep?, depth]
  | room, .str _ => by cases room <;> simp [tooDeep?, depth]
  | 0, .arr _ => by simp [tooDeep?, depth]
  | 0, .obj _ => by simp [tooDeep?, depth]
  | room + 1, .arr items => by
    -- opening the array takes one from the room
    rw [tooDeep?, depth, Nat.add_le_add_iff_right, tooDeepItem?_eq_none_iff]
  | room + 1, .obj fields => by
    rw [tooDeep?, depth, Nat.add_le_add_iff_right, tooDeepField?_eq_none_iff]

/-- `tooDeepItem?` finds nothing just if the `depthItems` are within the room. -/
private theorem tooDeepItem?_eq_none_iff : ∀ {room : Nat} {items : List Json},
    tooDeepItem? room items = none ↔ depthItems items ≤ room
  | _, [] => by simp [tooDeepItem?, depthItems]
  | _, item :: items => by
    rw [tooDeepItem?, depthItems, Option.or_eq_none_iff, Nat.max_le, tooDeep?_eq_none_iff,
      tooDeepItem?_eq_none_iff]

/-- `tooDeepField?` finds nothing just if the `depthFields` are within the room. -/
private theorem tooDeepField?_eq_none_iff : ∀ {room : Nat} {fields : List (Text × Json)},
    tooDeepField? room fields = none ↔ depthFields fields ≤ room
  | _, [] => by simp [tooDeepField?, depthFields]
  | _, (_, value) :: fields => by
    rw [tooDeepField?, depthFields, Option.or_eq_none_iff, Nat.max_le, tooDeep?_eq_none_iff,
      tooDeepField?_eq_none_iff]

end

end BlockScript.Json
