import BlockScript.Text.Basic

/-!
# Labels of blocks

A block has a category, which gives its colour, a shape, which tells where it fits, and sometimes a
flag, which tells its part in a C block. Each is written by name. Names without a meaning here are
kept as they are, so every name stands for exactly one label: `ofName` and `name` are inverse to each
other.
-/

namespace BlockScript

/-! ## Category -/

/-- The names of the categories that have a meaning here. -/
def Category.names : List Text :=
  ["motion", "looks", "sound", "pen", "variables", "list", "events", "control", "sensing",
   "operators", "custom", "custom-arg", "extension", "grey", "obsolete"].map String.toList

/-- The category of a block. -/
inductive Category where
  | motion
  | looks
  | sound
  | pen
  | vars
  | list
  | events
  | control
  | sensing
  | operators
  /-- Blocks that a script defines, and their headers. -/
  | custom
  /-- Parameters of a defined block. -/
  | customArg
  | extension
  | grey
  /-- Blocks that are not known. -/
  | obsolete
  /-- Any other category, by its name. -/
  | other (name : Text) (foreign : name ∉ Category.names)
  deriving DecidableEq

namespace Category

/-- The categories that have a meaning here. -/
def standard : List Category :=
  [.motion, .looks, .sound, .pen, .vars, .list, .events, .control, .sensing, .operators,
   .custom, .customArg, .extension, .grey, .obsolete]

/-- The name under which it is written. -/
def name : Category → Text
  | motion => "motion".toList
  | looks => "looks".toList
  | sound => "sound".toList
  | pen => "pen".toList
  | vars => "variables".toList
  | list => "list".toList
  | events => "events".toList
  | control => "control".toList
  | sensing => "sensing".toList
  | operators => "operators".toList
  | custom => "custom".toList
  | customArg => "custom-arg".toList
  | extension => "extension".toList
  | grey => "grey".toList
  | obsolete => "obsolete".toList
  | other name _ => name

theorem names_eq : names = standard.map name := by decide +kernel

/-- The one with the given name. -/
def ofName (t : Text) : Category :=
  match h : standard.find? (·.name == t) with
  | some x => x
  | none =>
    .other t (by
      intro hmem
      rw [names_eq, List.mem_map] at hmem
      obtain ⟨x, hx, rfl⟩ := hmem
      simpa using List.find?_eq_none.1 h x hx)

@[simp] theorem name_ofName (t : Text) : (ofName t).name = t := by
  unfold ofName
  split
  · next x h => simpa using List.find?_some h
  · rfl

theorem ofName_of_mem (x : Category) (h : x ∈ standard) : ofName x.name = x := by
  revert x
  decide +kernel

theorem ofName_of_not_mem (t : Text) (foreign : t ∉ names) : ofName t = .other t foreign := by
  unfold ofName
  split
  · next x h =>
    refine absurd ?_ foreign
    rw [names_eq, List.mem_map]
    exact ⟨x, List.mem_of_find?_eq_some h, by simpa using List.find?_some h⟩
  · rfl

@[simp] theorem ofName_name (x : Category) : ofName x.name = x := by
  cases x with
  | other t foreign => exact ofName_of_not_mem t foreign
  | _ => exact ofName_of_mem _ (by simp [standard])

/-- The `name` of a category tells which one it is. -/
theorem name_injective (x y : Category) (h : x.name = y.name) : x = y := by
  rw [← ofName_name x, ← ofName_name y, h]

end Category

/-! ## Shape -/

/-- The names of the shapes that have a meaning here. -/
def Shape.names : List Text :=
  ["hat", "cap", "stack", "embedded", "boolean", "reporter", "define-hat", "outline", "string",
   "dropdown", "number", "number-dropdown", "color"].map String.toList

/-- The shape of a block or an insert. -/
inductive Shape where
  /-- Starts a script. -/
  | hat
  /-- Ends a script. -/
  | cap
  /-- Stands in a script. -/
  | stack
  /-- A round block with arguments. -/
  | embedded
  /-- A condition. -/
  | boolean
  /-- A round block without arguments. -/
  | reporter
  /-- The header of a defined block. -/
  | defineHat
  /-- The pattern of a defined block, inside its header. -/
  | outline
  /-- An insert for text. -/
  | string
  /-- A square insert with a menu. -/
  | dropdown
  /-- An insert for numbers. -/
  | number
  /-- A round insert with a menu. -/
  | numberDropdown
  /-- An insert for colours. -/
  | color
  /-- Any other shape, by its name. -/
  | other (name : Text) (foreign : name ∉ Shape.names)
  deriving DecidableEq

namespace Shape

/-- The shapes that have a meaning here. -/
def standard : List Shape :=
  [.hat, .cap, .stack, .embedded, .boolean, .reporter, .defineHat, .outline, .string, .dropdown,
   .number, .numberDropdown, .color]

/-- The name under which it is written. -/
def name : Shape → Text
  | hat => "hat".toList
  | cap => "cap".toList
  | stack => "stack".toList
  | embedded => "embedded".toList
  | boolean => "boolean".toList
  | reporter => "reporter".toList
  | defineHat => "define-hat".toList
  | outline => "outline".toList
  | string => "string".toList
  | dropdown => "dropdown".toList
  | number => "number".toList
  | numberDropdown => "number-dropdown".toList
  | color => "color".toList
  | other name _ => name

theorem names_eq : names = standard.map name := by decide +kernel

/-- The one with the given name. -/
def ofName (t : Text) : Shape :=
  match h : standard.find? (·.name == t) with
  | some x => x
  | none =>
    .other t (by
      intro hmem
      rw [names_eq, List.mem_map] at hmem
      obtain ⟨x, hx, rfl⟩ := hmem
      simpa using List.find?_eq_none.1 h x hx)

@[simp] theorem name_ofName (t : Text) : (ofName t).name = t := by
  unfold ofName
  split
  · next x h => simpa using List.find?_some h
  · rfl

theorem ofName_of_mem (x : Shape) (h : x ∈ standard) : ofName x.name = x := by
  revert x
  decide +kernel

theorem ofName_of_not_mem (t : Text) (foreign : t ∉ names) : ofName t = .other t foreign := by
  unfold ofName
  split
  · next x h =>
    refine absurd ?_ foreign
    rw [names_eq, List.mem_map]
    exact ⟨x, List.mem_of_find?_eq_some h, by simpa using List.find?_some h⟩
  · rfl

@[simp] theorem ofName_name (x : Shape) : ofName x.name = x := by
  cases x with
  | other t foreign => exact ofName_of_not_mem t foreign
  | _ => exact ofName_of_mem _ (by simp [standard])

/-- So does the `name` of a shape. -/
theorem name_injective (x y : Shape) (h : x.name = y.name) : x = y := by
  rw [← ofName_name x, ← ofName_name y, h]

/-- Whether it is the shape of an insert, which holds text, and not of a block. -/
def isInsert : Shape → Bool
  | string | dropdown | number | numberDropdown | color => true
  | _ => false

/-- Whether it is the shape of an insert with a menu. -/
def hasMenu : Shape → Bool
  | dropdown | numberDropdown => true
  | _ => false

end Shape

/-! ## Flag -/

/-- The names of the flags that have a meaning here. -/
def Flag.names : List Text :=
  ["cstart", "celse", "cend", "ring"].map String.toList

/-- A part that a block plays in C blocks, or a ring around its arguments. -/
inductive Flag where
  /-- Opens a C block. -/
  | cStart
  /-- Starts another branch of a C block. -/
  | cElse
  /-- Closes a C block. -/
  | cEnd
  /-- Draws a ring around each of its arguments. -/
  | ring
  /-- Any other flag, by its name. -/
  | other (name : Text) (foreign : name ∉ Flag.names)
  deriving DecidableEq

namespace Flag

/-- The flags that have a meaning here. -/
def standard : List Flag :=
  [.cStart, .cElse, .cEnd, .ring]

/-- The name under which it is written. -/
def name : Flag → Text
  | cStart => "cstart".toList
  | cElse => "celse".toList
  | cEnd => "cend".toList
  | ring => "ring".toList
  | other name _ => name

theorem names_eq : names = standard.map name := by decide +kernel

/-- The one with the given name. -/
def ofName (t : Text) : Flag :=
  match h : standard.find? (·.name == t) with
  | some x => x
  | none =>
    .other t (by
      intro hmem
      rw [names_eq, List.mem_map] at hmem
      obtain ⟨x, hx, rfl⟩ := hmem
      simpa using List.find?_eq_none.1 h x hx)

@[simp] theorem name_ofName (t : Text) : (ofName t).name = t := by
  unfold ofName
  split
  · next x h => simpa using List.find?_some h
  · rfl

theorem ofName_of_mem (x : Flag) (h : x ∈ standard) : ofName x.name = x := by
  revert x
  decide +kernel

theorem ofName_of_not_mem (t : Text) (foreign : t ∉ names) : ofName t = .other t foreign := by
  unfold ofName
  split
  · next x h =>
    refine absurd ?_ foreign
    rw [names_eq, List.mem_map]
    exact ⟨x, List.mem_of_find?_eq_some h, by simpa using List.find?_some h⟩
  · rfl

@[simp] theorem ofName_name (x : Flag) : ofName x.name = x := by
  cases x with
  | other t foreign => exact ofName_of_not_mem t foreign
  | _ => exact ofName_of_mem _ (by simp [standard])

/-- And that of a flag. -/
theorem name_injective (x y : Flag) (h : x.name = y.name) : x = y := by
  rw [← ofName_name x, ← ofName_name y, h]

end Flag

end BlockScript
