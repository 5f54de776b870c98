import BlockScript.Text.Basic

/-!
# Dictionaries

A dictionary keeps its entries in the order in which their keys were first written. Writing a key
again replaces its value and leaves its place alone, so a dictionary has at most one entry for each
key. Main statement: `get?_put`, a key read after a write is the last value written.
-/

namespace BlockScript

/-- Values under text keys, in the order of the first writes. -/
abbrev Dictionary (α : Type) := List (Text × α)

namespace Dictionary

variable {α : Type}

/-- The value under a key. -/
def get? (key : Text) (d : Dictionary α) : Option α := List.lookup key d

/-- Write a value under a key: in place of the old value, or at the end. -/
def put (key : Text) (value : α) : Dictionary α → Dictionary α
  | [] => [(key, value)]
  | (k, v) :: rest => if k = key then (k, value) :: rest else (k, v) :: put key value rest

/-- The keys, in the order of the first writes. -/
def keys (d : Dictionary α) : List Text := d.map (·.1)

/-- Write several entries, one after the other. -/
def putAll (entries : List (Text × α)) (d : Dictionary α) : Dictionary α :=
  entries.foldl (fun d e => put e.1 e.2 d) d

/-- The dictionary of a list of entries, of which the last under each key counts. -/
def ofList (entries : List (Text × α)) : Dictionary α := putAll entries []

/-- Add `x` at the end of the list under a key, which is empty to begin with. -/
def append (key : Text) (x : α) (d : Dictionary (List α)) : Dictionary (List α) :=
  put key ((get? key d).getD [] ++ [x]) d

/-! ## Reading what was written -/

@[simp] theorem get?_nil (key : Text) : get? key ([] : Dictionary α) = none := rfl

theorem get?_cons (key k : Text) (v : α) (d : Dictionary α) :
    get? key ((k, v) :: d) = if key = k then some v else get? key d := by
  unfold get?
  by_cases h : key = k
  · subst h
    rw [List.lookup_cons_self, if_pos rfl]
  · rw [List.lookup_cons, beq_false_of_ne h, if_neg h]

theorem get?_put (key k : Text) (v : α) (d : Dictionary α) :
    get? key (put k v d) = if key = k then some v else get? key d := by
  induction d with
  | nil => simp [put, get?_cons]
  | cons e rest ih =>
    obtain ⟨k', v'⟩ := e
    unfold put
    -- `put` stops at the first entry with the key, or goes on behind it
    by_cases hk : k' = k
    · subst hk
      by_cases h : key = k' <;> simp [get?_cons, h]
    · rw [if_neg hk, get?_cons, get?_cons, ih]
      by_cases h : key = k'
      · subst h
        simp [hk]
      · simp [h]

/-- Of the writes of `putAll` the last one under a key counts. -/
theorem get?_putAll (key : Text) (entries : List (Text × α)) (d : Dictionary α) :
    get? key (putAll entries d) = (get? key entries.reverse).or (get? key d) := by
  induction entries generalizing d with
  | nil => rfl
  | cons e rest ih =>
    have hput : putAll (e :: rest) d = putAll rest (put e.1 e.2 d) := rfl
    have hlast : get? key (e :: rest).reverse =
        (get? key rest.reverse).or (if key = e.1 then some e.2 else none) := by
      rw [List.reverse_cons, get?, List.lookup_append]
      exact congrArg _ (get?_cons key e.1 e.2 [])
    rw [hput, ih, get?_put, hlast, Option.or_assoc]
    by_cases hkey : key = e.1 <;> simp [hkey]

/-- What `get?` reads from the entries under some of the keys, with their values changed. -/
theorem get?_filter_map {β : Type} (key : Text) (keep : Text → Bool) (f : α → β)
    (d : Dictionary α) :
    get? key ((d.filter fun e => keep e.1).map fun e => (e.1, f e.2)) =
      if keep key then (get? key d).map f else none := by
  induction d with
  | nil => simp
  | cons e rest ih =>
    obtain ⟨k, v⟩ := e
    rw [List.filter_cons, get?_cons]
    -- an entry under another key plays no part, whether it is kept or not
    by_cases hk : key = k
    · subst hk
      by_cases hkeep : keep key = true
      · simp [hkeep, get?_cons]
      · simpa [hkeep] using ih
    · rw [if_neg hk, ← ih]
      split
      · rw [List.map_cons, get?_cons, if_neg hk]
      · rfl

/-- What is added with `append` to lists under keys comes after what they have. -/
theorem getD_get?_appendAll (key : Text) (entries : List (Text × α)) (d : Dictionary (List α)) :
    (get? key (entries.foldl (fun d e => append e.1 e.2 d) d)).getD [] =
      (get? key d).getD [] ++ (entries.filter fun e => e.1 == key).map (·.2) := by
  induction entries generalizing d with
  | nil => simp
  | cons e rest ih =>
    rw [List.foldl_cons, ih, append, get?_put, List.filter_cons]
    by_cases h : key = e.1
    · simp [h]
    · have hne : (e.1 == key) = false := beq_false_of_ne (Ne.symm h)
      simp [h, hne]

/-- A dictionary stays as it is only if `append` adds nothing to its lists. -/
theorem appendAll_eq_self_iff {entries : List (Text × α)} {d : Dictionary (List α)} :
    entries.foldl (fun d e => append e.1 e.2 d) d = d ↔ entries = [] := by
  constructor
  · intro h
    cases entries with
    | nil => rfl
    | cons e rest =>
      have hlonger := getD_get?_appendAll e.1 (e :: rest) d
      rw [h, List.self_eq_append_right, List.map_eq_nil_iff, List.filter_cons, if_pos (beq_self_eq_true _)]
        at hlonger
      cases hlonger
  · rintro rfl
    rfl

/-- What `get?` reads is in the dictionary. -/
theorem mem_of_get? {key : Text} {v : α} {d : Dictionary α} (h : get? key d = some v) :
    (key, v) ∈ d := by
  obtain ⟨front, back, hd, -⟩ := List.lookup_eq_some_iff.1 h
  rw [hd]
  simp

/-- What is read after `putAll` has been written, or was there before. -/
theorem mem_or_get?_of_get?_putAll {key : Text} {v : α} {entries : List (Text × α)}
    {d : Dictionary α} (h : get? key (putAll entries d) = some v) :
    (key, v) ∈ entries ∨ get? key d = some v := by
  induction entries generalizing d with
  | nil => exact .inr h
  | cons e rest ih =>
    obtain hrest | hput := ih h
    · exact .inl (List.mem_cons_of_mem _ hrest)
    · rw [get?_put] at hput
      split at hput
      · rename_i hkey
        cases hput
        exact .inl (by simp [hkey])
      · exact .inr hput

/-- Whatever `putAll` writes in addition, there is a value under a key that has one. -/
theorem get?_putAll_ne_none {key : Text} {entries : List (Text × α)} {d : Dictionary α}
    (h : key ∈ entries.map (·.1) ∨ get? key d ≠ none) : get? key (putAll entries d) ≠ none := by
  induction entries generalizing d with
  | nil => simpa [putAll] using h
  | cons e rest ih =>
    refine ih ?_
    rw [get?_put]
    split
    · simp
    · rename_i hkey
      simpa [hkey] using h

/-- What is read from the dictionary `ofList` of entries is one of them. -/
theorem mem_of_get?_ofList {key : Text} {v : α} {entries : List (Text × α)}
    (h : get? key (ofList entries) = some v) : (key, v) ∈ entries :=
  (mem_or_get?_of_get?_putAll h).resolve_right (by simp)

/-- What is in a dictionary after `put` is what has been written, or was there before. -/
theorem eq_or_mem_of_mem_put {x : Text × α} {k : Text} {v : α} {d : Dictionary α} (h : x ∈ put k v d) :
    x = (k, v) ∨ x ∈ d := by
  induction d with
  | nil => exact .inl (by simpa [put] using h)
  | cons e rest ih =>
    obtain ⟨k', v'⟩ := e
    unfold put at h
    split at h
    · rename_i hk
      rcases List.mem_cons.1 h with h | h
      · exact .inl (by rw [h, hk])
      · exact .inr (List.mem_cons_of_mem _ h)
    · rcases List.mem_cons.1 h with h | h
      · exact .inr (by simp [h])
      · exact (ih h).imp_right (List.mem_cons_of_mem _)

/-- What is in a dictionary after `putAll` has been written, or was there before. -/
theorem mem_or_mem_of_mem_putAll {x : Text × α} {entries : List (Text × α)} {d : Dictionary α}
    (h : x ∈ putAll entries d) : x ∈ entries ∨ x ∈ d := by
  induction entries generalizing d with
  | nil => exact .inr h
  | cons e rest ih =>
    obtain hrest | hd := ih h
    · exact .inl (List.mem_cons_of_mem _ hrest)
    · rcases eq_or_mem_of_mem_put hd with hx | hx
      · exact .inl (by simp [hx])
      · exact .inr hx

/-! ## The order of the keys -/

@[simp] theorem keys_nil : keys ([] : Dictionary α) = [] := rfl

@[simp] theorem keys_cons (k : Text) (v : α) (d : Dictionary α) :
    keys ((k, v) :: d) = k :: keys d := rfl

/-- `put` keeps the order of the `keys` and adds a new one at the end. -/
theorem keys_put (k : Text) (v : α) (d : Dictionary α) :
    keys (put k v d) = if k ∈ keys d then keys d else keys d ++ [k] := by
  induction d with
  | nil => simp [put]
  | cons e rest ih =>
    obtain ⟨k', v'⟩ := e
    unfold put
    by_cases hk : k' = k
    · simp [hk]
    · have hne : ¬ k = k' := fun h => hk h.symm
      rw [if_neg hk, keys_cons, keys_cons, ih]
      by_cases hm : k ∈ keys rest <;> simp [hm, hne]

/-- The `keys` keep their places when `append` adds to lists. -/
theorem keys_isPrefix_appendAll (entries : List (Text × α)) (d : Dictionary (List α)) :
    keys d <+: keys (entries.foldl (fun d e => append e.1 e.2 d) d) := by
  induction entries generalizing d with
  | nil => exact List.prefix_rfl
  | cons e rest ih =>
    rw [List.foldl_cons]
    refine List.IsPrefix.trans ?_ (ih (append e.1 e.2 d))
    rw [append, keys_put]
    split
    · exact List.prefix_rfl
    · exact List.prefix_append _ _

end Dictionary

end BlockScript
