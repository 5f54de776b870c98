import BlockScript.Proofs.Json.Characters
import BlockScript.Proofs.Json.Depth

/-!
# Written values are read back

A value without numbers, in which no object repeats a name, is read back from what is written for it, on one
line or over several. Blanks and commas between its parts are skipped, and strings are read back character by
character. If the fields are sorted, so are those of the value that is read. The reader stops at the first
array or object that is inside too many others, so that a value is read back just if it is not too deep.

## Key results

- `Json.IsPlain.readsBack`: what becomes of a value in front of a text
- `Json.parse_write`: a written value is read back or is too deep
- `Json.parse_write_sorted`: with sorted fields the sorted value is read
-/

namespace BlockScript.Json

/-! ## Plain values -/

/-- `IsPlain j`: there are no numbers in the value, and no object repeats a name. -/
inductive IsPlain : Json → Prop where
  | null : IsPlain .null
  | bool (b : Bool) : IsPlain (.bool b)
  | str (t : Text) : IsPlain (.str t)
  | arr {items : List Json} (plain : ∀ item ∈ items, IsPlain item) : IsPlain (.arr items)
  | obj {fields : List (Text × Json)} (nodup : (Dictionary.keys fields).Nodup)
      (plain : ∀ f ∈ fields, IsPlain f.2) : IsPlain (.obj fields)

/-- A plain value is plain with `sorted` fields. -/
theorem IsPlain.sorted {j : Json} (h : j.IsPlain) : j.sorted.IsPlain := by
  induction h with
  | null => exact sorted_null ▸ .null
  | bool b => exact sorted_bool b ▸ .bool b
  | str t => exact sorted_str t ▸ .str t
  | arr plain ih =>
    rw [sorted_arr]
    exact .arr (List.forall_mem_map.2 ih)
  | obj nodup plain ih =>
    rw [sorted_obj]
    -- the fields come in another order, with the same keys
    refine .obj ?_ ?_
    · rwa [Dictionary.keys_byKey_nodup_iff, Dictionary.keys_map]
    · exact Dictionary.forall_mem_byKey.2 (List.forall_mem_map.2 ih)

/-! ## Blanks -/

/-- `skipSpace` skips blanks in front of any text. -/
private theorem skipSpace_append {blanks : Text} (h : ∀ c ∈ blanks, isSpace c = true) (t : Text) :
    skipSpace (blanks ++ t) = skipSpace t := List.dropWhile_append_of_pos h

/-- `skipSpace` stops at the first character that is no blank. -/
private theorem skipSpace_cons {c : Char} (h : isSpace c = false) (t : Text) :
    skipSpace (c :: t) = c :: t := by
  rw [skipSpace, List.dropWhile_cons, h]
  rfl

/-- The way of writing that leaves fields in their order and characters as they are. -/
def Style.plain (indent : Option Nat) : Style := ⟨indent, false, false⟩

namespace Style

variable (indent : Option Nat) (level : Nat)

/-- A `lineBreak` is made of blanks, whatever the indentation. -/
private theorem isSpace_of_mem_lineBreak : ∀ c ∈ (plain indent).lineBreak level, isSpace c = true := by
  cases indent with
  | none => simp [lineBreak, plain]
  | some width =>
    intro c hc
    rcases List.mem_cons.1 hc with rfl | hc
    · rfl
    · rw [List.eq_of_mem_replicate hc]
      rfl

/-- A `separator` is a comma with blanks behind it. -/
private theorem separator_eq :
    ∃ gap, (plain indent).separator level = ',' :: gap ∧ ∀ c ∈ gap, isSpace c = true := by
  cases indent with
  | none => exact ⟨[' '], rfl, by simp [isSpace]⟩
  | some width => exact ⟨_, rfl, isSpace_of_mem_lineBreak (some width) level⟩

end Style

/-- The first character that `writeAt` writes for a plain value is no blank, closes no array and is no byte
    order mark. -/
private theorem writeAt_head {j : Json} (h : j.IsPlain) (style : Style) (level : Nat) :
    ∃ c t, writeAt style level j = c :: t ∧ isSpace c = false ∧ c ≠ ']' ∧ c ≠ '\uFEFF' := by
  have henclose : ∀ opener closer items, ∃ t, style.enclose level opener closer items = opener :: t := by
    intro opener closer items
    unfold Style.enclose
    split
    · exact ⟨_, rfl⟩
    · exact ⟨_, by simp only [List.cons_append]; rfl⟩
  -- the constructors start with different characters, none of which is one of the three
  cases h with
  | null => exact ⟨'n', _, by rw [writeAt]; rfl, by decide⟩
  | bool b =>
    cases b
    · exact ⟨'f', _, by rw [writeAt]; rfl, by decide⟩
    · exact ⟨'t', _, by rw [writeAt]; rfl, by decide⟩
  | str t => exact ⟨'"', _, by rw [writeAt]; rfl, by decide⟩
  | arr plain =>
    obtain ⟨t, ht⟩ := henclose '[' ']' _
    exact ⟨'[', t, by rw [writeAt, ht], by decide⟩
  | obj nodup plain =>
    obtain ⟨t, ht⟩ := henclose '\x7b' '\x7d' _
    exact ⟨'\x7b', t, by rw [writeAt, ht], by decide⟩

/-! ## Parts of arrays and objects -/

namespace Style

variable (indent : Option Nat) (level : Nat)

/-- Several parts as they are written between brackets. -/
def joined (parts : List Text) : Text := ((plain indent).separator level).intercalate parts

variable {w t : Text} {c : Char}

/-- `joined` parts start as the first of them does. -/
private theorem joined_head (hw : w = c :: t) (ws : List Text) :
    ∃ t', joined indent level (w :: ws) = c :: t' := by
  subst hw
  cases ws with
  | nil => exact ⟨t, List.intercalate_singleton⟩
  | cons w' ws => exact ⟨_, by rw [joined, List.intercalate_cons_cons, List.cons_append, List.cons_append]⟩

/-- Behind the first of several `joined` parts there are a comma and blanks, and then the others. -/
private theorem joined_split (hw : w = c :: t) (hc : isSpace c = false) (first : Text) (ws : List Text)
    (close : Text) :
    ∃ after, joined indent level (first :: w :: ws) ++ close = first ++ ',' :: after ∧
      skipSpace after = joined indent level (w :: ws) ++ close ∧
      first.length + (joined indent level (w :: ws)).length <
        (joined indent level (first :: w :: ws)).length := by
  obtain ⟨gap, hgap, hblank⟩ := separator_eq indent level
  obtain ⟨t', hlater⟩ := joined_head indent level hw ws
  have hjoined : joined indent level (first :: w :: ws) =
      first ++ (',' :: gap) ++ joined indent level (w :: ws) := by
    rw [joined, joined, List.intercalate_cons_cons, hgap]
  -- what comes after the comma starts with the gap
  refine ⟨gap ++ (joined indent level (w :: ws) ++ close), ?_, ?_, ?_⟩
  · rw [hjoined]
    simp
  · rw [skipSpace_append hblank, hlater, List.cons_append, skipSpace_cons hc]
  · rw [hjoined, List.length_append, List.length_append, List.length_cons]
    omega

/-- Between the brackets of `enclose` there are blanks around the parts. -/
private theorem enclose_split (hw : w = c :: t) (hc : isSpace c = false) (opener closer : Char)
    (hcloser : isSpace closer = false) (ws : List Text) (rest : Text) :
    ∃ inner close, (plain indent).enclose level opener closer (w :: ws) ++ rest = opener :: inner ∧
      skipSpace inner = joined indent (level + 1) (w :: ws) ++ close ∧ skipSpace close = closer :: rest ∧
      (joined indent (level + 1) (w :: ws)).length + 2 ≤
        ((plain indent).enclose level opener closer (w :: ws)).length := by
  have henclose : (plain indent).enclose level opener closer (w :: ws) =
      opener :: (plain indent).lineBreak (level + 1) ++ joined indent (level + 1) (w :: ws) ++
        (plain indent).lineBreak level ++ [closer] := if_neg (by simp)
  obtain ⟨t', hjoined⟩ := joined_head indent (level + 1) hw ws
  -- what is between the brackets, and what is behind the parts
  refine ⟨(plain indent).lineBreak (level + 1) ++ (joined indent (level + 1) (w :: ws) ++
    ((plain indent).lineBreak level ++ closer :: rest)), (plain indent).lineBreak level ++ closer :: rest,
    ?_, ?_, ?_, ?_⟩
  · rw [henclose]
    simp
  · rw [skipSpace_append (isSpace_of_mem_lineBreak indent (level + 1)), hjoined, List.cons_append,
      skipSpace_cons hc]
  · rw [skipSpace_append (isSpace_of_mem_lineBreak indent level), skipSpace_cons hcloser]
  · rw [henclose]
    simp only [List.length_append, List.length_cons, List.length_nil]
    omega

end Style

/-! ## One step of reading -/

/-- What reading comes to where `excess` may stop it. -/
def outcome {α : Type} (excess : Option Excess) (x : α) (rest : Text) : Read α :=
  match excess with
  | none => .ok (x, rest)
  | some e => .error (.excess e)

/-- To change what is read is to change the `outcome`. -/
private theorem map_outcome {α β : Type} (f : α → β) (excess : Option Excess) (x : α) (rest : Text) :
    (outcome excess x rest).map (fun r => (f r.1, r.2)) = outcome excess (f x) rest := by
  cases excess <;> rfl

section Steps

variable {fuel room : Nat} {inner t w close later rest name : Text} {c : Char} {j : Json}
  {excess excess' : Option Excess} {items done : List Json} {fields fields' : Dictionary Json}

/-- `readValue` reads a written string in one step. -/
private theorem readValue_str (t rest : Text) :
    readValue (fuel + 1) room (writeString false t ++ rest) = .ok (.str t, rest) := by
  have htext : writeString false t ++ rest = '"' :: (t.flatMap (escape false) ++ '"' :: rest) := by
    simp [writeString]
  rw [htext, readValue, readString_written]
  rfl

/-- `readValue` opens an array that is not empty, and goes on with its items. -/
private theorem readValue_arr (h : skipSpace inner = t) (ht : ∃ t', t = c :: t') (hc : c ≠ ']') :
    readValue (fuel + 1) (room + 1) ('[' :: inner) =
      (readItems fuel room [] t).map fun r => (.arr r.1, r.2) := by
  obtain ⟨t', rfl⟩ := ht
  rw [readValue]
  simp only [h]
  split
  · next heq => exact absurd (List.cons.inj heq).1 hc
  · rfl

/-- `readValue` reads an object that is not empty, with its fields. -/
private theorem readValue_obj (h : skipSpace inner = t) (ht : ∃ t', t = c :: t') (hc : c ≠ '\x7d') :
    readValue (fuel + 1) (room + 1) ('\x7b' :: inner) =
      (readFields fuel room [] t).map fun r => (.obj r.1, r.2) := by
  obtain ⟨t', rfl⟩ := ht
  rw [readValue]
  simp only [h]
  split
  · next heq => exact absurd (List.cons.inj heq).1 hc
  · rfl

/-- `readItems` on the last item of an array. -/
private theorem readItems_last (hvalue : readValue fuel room (w ++ close) = outcome excess j close)
    (hclose : skipSpace close = ']' :: rest) :
    readItems (fuel + 1) room done (w ++ close) = outcome excess (done.reverse ++ [j]) rest := by
  rw [readItems, hvalue]
  cases excess with
  | none => simp only [outcome, hclose, List.reverse_cons]
  | some e => rfl

/-- `readItems` on an item of an array in front of others. -/
private theorem readItems_more (hvalue : readValue fuel room (w ++ ',' :: later) = outcome excess j (',' :: later))
    (hlater : readItems fuel room (j :: done) (skipSpace later) = outcome excess' items rest) :
    readItems (fuel + 1) room done (w ++ ',' :: later) = outcome (excess.or excess') items rest := by
  rw [readItems, hvalue]
  cases excess with
  | none =>
    have hcomma : skipSpace (',' :: later) = ',' :: later := skipSpace_cons rfl later
    simp only [outcome, hcomma]
    exact hlater
  | some e => rfl

/-- A field as it is written. -/
def fieldText (name value : Text) : Text := writeString false name ++ ": ".toList ++ value

/-- `readFields` reads a field up to the end of its value. -/
private theorem readFields_field (hw : w = c :: t) (hc : isSpace c = false)
    (hvalue : readValue fuel room (w ++ later) = outcome excess j later) :
    readFields (fuel + 1) room fields (fieldText name w ++ later) =
      match excess with
      | some e => .error (.excess e)
      | none =>
        match skipSpace later with
        | '\x7d' :: rest => .ok (Dictionary.put name j fields, rest)
        | ',' :: rest => readFields fuel room (Dictionary.put name j fields) (skipSpace rest)
        | rest => fail .expectingComma rest := by
  have htext : fieldText name w ++ later =
      '"' :: (name.flatMap (escape false) ++ '"' :: ':' :: ' ' :: (w ++ later)) := by
    simp [fieldText, writeString]
  -- there are no blanks in front of the colon, and one behind it
  have hcolon : skipSpace (':' :: ' ' :: (w ++ later)) = ':' :: ' ' :: (w ++ later) := skipSpace_cons rfl _
  have hblank : skipSpace (' ' :: (w ++ later)) = w ++ later := by
    rw [← List.singleton_append, skipSpace_append (by simp [isSpace]), hw, List.cons_append,
      skipSpace_cons hc]
  rw [htext, readFields, readString_written]
  simp only [hcolon, hblank, hvalue]
  cases excess <;> rfl

/-- `readFields` on the last field of an object. -/
private theorem readFields_last (hw : w = c :: t) (hc : isSpace c = false)
    (hvalue : readValue fuel room (w ++ close) = outcome excess j close)
    (hclose : skipSpace close = '\x7d' :: rest) :
    readFields (fuel + 1) room fields (fieldText name w ++ close) =
      outcome excess (Dictionary.put name j fields) rest := by
  rw [readFields_field hw hc hvalue]
  cases excess with
  | none => simp only [hclose, outcome]
  | some e => rfl

/-- `readFields` on a field of an object in front of others. -/
private theorem readFields_more (hw : w = c :: t) (hc : isSpace c = false)
    (hvalue : readValue fuel room (w ++ ',' :: later) = outcome excess j (',' :: later))
    (hlater : readFields fuel room (Dictionary.put name j fields) (skipSpace later) =
      outcome excess' fields' rest) :
    readFields (fuel + 1) room fields (fieldText name w ++ ',' :: later) =
      outcome (excess.or excess') fields' rest := by
  rw [readFields_field hw hc hvalue]
  cases excess with
  | none =>
    have hcomma : skipSpace (',' :: later) = ',' :: later := skipSpace_cons rfl later
    simp only [hcomma]
    exact hlater
  | some e => rfl

end Steps

/-! ## Whole values -/

/-- A field with its value as it is written at the given level. -/
def writtenField (indent : Option Nat) (level : Nat) (f : Text × Json) : Text :=
  fieldText f.1 (writeAt (.plain indent) level f.2)

/-- What `writeFields` arranges are the written fields, in their order. -/
private theorem arrange_writeFields (indent : Option Nat) (level : Nat) (fields : List (Text × Json)) :
    ((Style.plain indent).arrange (writeFields (.plain indent) level fields)).map
        (fun f => writeString (Style.plain indent).ascii f.1 ++ ": ".toList ++ f.2) =
      fields.map (writtenField indent level) := by
  rw [Style.arrange, if_neg (by simp [Style.plain]), writeFields_eq_map, List.map_map]
  rfl

/-- `ReadsBack indent j`: `readValue` reads the value back in front of any text, unless it is too deep. Two
    steps for each character suffice. -/
def ReadsBack (indent : Option Nat) (j : Json) : Prop :=
  ∀ level fuel room rest, 2 * (writeAt (.plain indent) level j).length ≤ fuel →
    readValue fuel room (writeAt (.plain indent) level j ++ rest) = outcome (tooDeep? room j) j rest

section Values

variable {indent : Option Nat} {level room : Nat} {close rest : Text}

/-- `readItems` reads the items of an array back if each of them `ReadsBack`. -/
private theorem readItems_written {items : List Json} (hback : ∀ item ∈ items, ReadsBack indent item)
    (hplain : ∀ item ∈ items, item.IsPlain) (hclose : skipSpace close = ']' :: rest) (hne : items ≠ [])
    {fuel : Nat} {done : List Json}
    (hfuel : 2 * (Style.joined indent level (items.map (writeAt (.plain indent) level))).length + 1 ≤ fuel) :
    readItems fuel room done
        (Style.joined indent level (items.map (writeAt (.plain indent) level)) ++ close) =
      outcome (tooDeepItem? room items) (done.reverse ++ items) rest := by
  -- an item is read in front of a comma or of the end; what remains of the steps is enough for the others
  induction items generalizing fuel done with
  | nil => exact absurd rfl hne
  | cons item items ih =>
    rw [List.forall_mem_cons] at hback hplain
    obtain ⟨fuel, rfl⟩ : ∃ n, fuel = n + 1 := ⟨fuel - 1, by omega⟩
    cases items with
    | nil =>
      rw [List.map_singleton, Style.joined, List.intercalate_singleton] at hfuel ⊢
      have hvalue := hback.1 level fuel room close (by omega)
      rw [readItems_last hvalue hclose, tooDeepItem?, tooDeepItem?, Option.or_none]
    -- behind any other item there is a comma, and the text goes on where the next one starts
    | cons next items =>
      obtain ⟨c, t, hhead, hc, -⟩ := writeAt_head (hplain.2 next List.mem_cons_self) (.plain indent) level
      obtain ⟨after, htext, hafter, hlength⟩ := Style.joined_split indent level hhead hc
        (writeAt (.plain indent) level item) (items.map (writeAt (.plain indent) level)) close
      rw [List.map_cons, List.map_cons] at hfuel ⊢
      have hvalue := hback.1 level fuel room (',' :: after) (by omega)
      have hlater : readItems fuel room (item :: done) (skipSpace after) =
          outcome (tooDeepItem? room (next :: items)) ((item :: done).reverse ++ next :: items) rest := by
        rw [hafter]
        exact ih hback.2 hplain.2 (by simp) (by rw [List.map_cons]; omega)
      rw [htext, readItems_more hvalue hlater, tooDeepItem?_cons item, List.reverse_cons, List.append_assoc]
      rfl

/-- `readFields` reads the fields of an object back if their values are `ReadsBack`, and no name is
    repeated. -/
private theorem readFields_written {fields : List (Text × Json)}
    (hback : ∀ f ∈ fields, ReadsBack indent f.2)
    (hplain : ∀ f ∈ fields, f.2.IsPlain) (hclose : skipSpace close = '\x7d' :: rest) (hne : fields ≠ [])
    {fuel : Nat} {done : Dictionary Json} (hnodup : (Dictionary.keys (done ++ fields)).Nodup)
    (hfuel : 2 * (Style.joined indent level
      (fields.map (writtenField indent level))).length + 1 ≤ fuel) :
    readFields fuel room done
        (Style.joined indent level (fields.map (writtenField indent level)) ++ close) =
      outcome (tooDeepField? room fields) (done ++ fields) rest := by
  -- as for items, but a field is put behind the others only because its name is new
  induction fields generalizing fuel done with
  | nil => exact absurd rfl hne
  | cons f fields ih =>
    rw [List.forall_mem_cons] at hback hplain
    obtain ⟨fuel, rfl⟩ : ∃ n, fuel = n + 1 := ⟨fuel - 1, by omega⟩
    -- no field so far has this name
    have hput : Dictionary.put f.1 f.2 done = done ++ [f] := by
      refine Dictionary.put_of_not_mem fun hmem => ?_
      simp only [Dictionary.keys, List.map_append, List.nodup_append] at hnodup
      exact hnodup.2.2 f.1 hmem f.1 (by simp) rfl
    obtain ⟨c, t, hhead, hc, -⟩ := writeAt_head hplain.1 (.plain indent) level
    -- the bound is on the whole field, and the value is a part of it
    have hvalueLength : (writeAt (.plain indent) level f.2).length ≤
        (writtenField indent level f).length := by
      rw [writtenField, fieldText, List.length_append]
      omega
    cases fields with
    | nil =>
      rw [List.map_singleton, Style.joined, List.intercalate_singleton] at hfuel ⊢
      have hvalue := hback.1 level fuel room close (by omega)
      rw [writtenField, readFields_last hhead hc hvalue hclose, tooDeepField?, tooDeepField?, Option.or_none,
        hput]
    | cons next fields =>
      obtain ⟨t', hnext⟩ : ∃ t, writtenField indent level next = '"' :: t := ⟨_, rfl⟩
      obtain ⟨after, htext, hafter, hlength⟩ := Style.joined_split indent level hnext rfl
        (writtenField indent level f) (fields.map (writtenField indent level)) close
      rw [List.map_cons, List.map_cons] at hfuel ⊢
      have hvalue := hback.1 level fuel room (',' :: after) (by omega)
      have hassoc : done ++ f :: next :: fields = (done ++ [f]) ++ next :: fields := by simp
      have hlater : readFields fuel room (Dictionary.put f.1 f.2 done) (skipSpace after) =
          outcome (tooDeepField? room (next :: fields)) (done ++ f :: next :: fields) rest := by
        rw [hafter, hput, hassoc]
        exact ih hback.2 hplain.2 (by simp) (hassoc ▸ hnodup) (by rw [List.map_cons]; omega)
      rw [htext, writtenField, readFields_more hhead hc hvalue hlater, tooDeepField?_cons f]

/-- An array `ReadsBack` if its items do. -/
private theorem readsBack_arr {items : List Json} (hback : ∀ item ∈ items, ReadsBack indent item)
    (hplain : ∀ item ∈ items, item.IsPlain) : ReadsBack indent (.arr items) := by
  intro level fuel room rest hfuel
  rw [writeAt, writeItems_eq_map] at hfuel ⊢
  cases items with
  -- an empty array has no blanks inside
  | nil =>
    obtain ⟨fuel, rfl⟩ : ∃ n, fuel = n + 1 := ⟨fuel - 1, by simp [Style.enclose] at hfuel; omega⟩
    cases room <;> rfl
  | cons item items =>
    obtain ⟨c, t, hhead, hc, hcloser, -⟩ :=
      writeAt_head (hplain item List.mem_cons_self) (.plain indent) (level + 1)
    obtain ⟨inner, close, htext, hinner, hclose, hlength⟩ := Style.enclose_split indent level hhead hc
      '[' ']' rfl (items.map (writeAt (.plain indent) (level + 1))) rest
    rw [List.map_cons] at hfuel ⊢
    obtain ⟨fuel, rfl⟩ : ∃ n, fuel = n + 1 := ⟨fuel - 1, by omega⟩
    rw [htext]
    cases room with
    -- no room is left for another level, which is what the reader finds first
    | zero => rfl
    | succ room =>
      obtain ⟨t', hstart⟩ := Style.joined_head indent (level + 1) hhead
        (items.map (writeAt (.plain indent) (level + 1)))
      rw [readValue_arr hinner ⟨_, by rw [hstart, List.cons_append]⟩ hcloser, ← List.map_cons,
        readItems_written hback hplain hclose (by simp) (by rw [List.map_cons]; omega), map_outcome, tooDeep?]
      rfl

/-- An object that does not repeat a name `ReadsBack` if the values in it do. -/
private theorem readsBack_obj {fields : List (Text × Json)} (hback : ∀ f ∈ fields, ReadsBack indent f.2)
    (hplain : ∀ f ∈ fields, f.2.IsPlain) (hnodup : (Dictionary.keys fields).Nodup) :
    ReadsBack indent (.obj fields) := by
  intro level fuel room rest hfuel
  rw [writeAt, arrange_writeFields] at hfuel ⊢
  cases fields with
  | nil =>
    obtain ⟨fuel, rfl⟩ : ∃ n, fuel = n + 1 := ⟨fuel - 1, by simp [Style.enclose] at hfuel; omega⟩
    cases room <;> rfl
  | cons f fields =>
    obtain ⟨t, hhead⟩ : ∃ t, writtenField indent (level + 1) f = '"' :: t := ⟨_, rfl⟩
    obtain ⟨inner, close, htext, hinner, hclose, hlength⟩ := Style.enclose_split indent level hhead rfl
      '\x7b' '\x7d' rfl (fields.map (writtenField indent (level + 1))) rest
    rw [List.map_cons] at hfuel ⊢
    obtain ⟨fuel, rfl⟩ : ∃ n, fuel = n + 1 := ⟨fuel - 1, by omega⟩
    rw [htext]
    -- without room the object is too deep itself
    cases room with
    | zero => rfl
    | succ room =>
      obtain ⟨t', hstart⟩ := Style.joined_head indent (level + 1) hhead
        (fields.map (writtenField indent (level + 1)))
      rw [readValue_obj hinner ⟨_, by rw [hstart, List.cons_append]⟩ (by decide), ← List.map_cons,
        readFields_written hback hplain hclose (by simp) hnodup (by rw [List.map_cons]; omega), map_outcome,
        tooDeep?]
      rfl

/-- Every value that `IsPlain` is one that `ReadsBack`. -/
theorem IsPlain.readsBack {j : Json} (h : j.IsPlain) : ReadsBack indent j := by
  -- by induction on the value; at each constructor the bound leaves one step for its first character
  induction h with
  | null =>
    intro level fuel room rest hfuel
    rw [writeAt] at hfuel ⊢
    obtain ⟨fuel, rfl⟩ : ∃ n, fuel = n + 1 := ⟨fuel - 1, by simp at hfuel; omega⟩
    cases room <;> rfl
  | bool b =>
    intro level fuel room rest hfuel
    rw [writeAt] at hfuel ⊢
    obtain ⟨fuel, rfl⟩ : ∃ n, fuel = n + 1 := ⟨fuel - 1, by cases b <;> simp at hfuel <;> omega⟩
    cases b <;> cases room <;> rfl
  | str t =>
    intro level fuel room rest hfuel
    rw [writeAt] at hfuel ⊢
    obtain ⟨fuel, rfl⟩ : ∃ n, fuel = n + 1 := ⟨fuel - 1, by simp [writeString] at hfuel; omega⟩
    -- a string opens nothing, so no room is needed
    -- a string is no container, so it is never too deep
    have hdeep : tooDeep? room (.str t) = none := by cases room <;> rfl
    rw [hdeep]
    exact readValue_str t rest
  | arr plain ih => exact readsBack_arr ih plain
  | obj nodup plain ih => exact readsBack_obj ih plain nodup

end Values

/-! ## Line ends -/

/-- A `lineBreak` is a newline, with no carriage return in front. -/
private theorem Style.not_mem_lineBreak (indent : Option Nat) (level : Nat) :
    '\r' ∉ (plain indent).lineBreak level := by
  cases indent with
  | none => simp [lineBreak, plain]
  | some width => simp [lineBreak, plain]

/-- `joined` parts have no carriage return between them. -/
private theorem Style.not_mem_joined (indent : Option Nat) (level : Nat) {parts : List Text}
    (hparts : ∀ p ∈ parts, '\r' ∉ p) : '\r' ∉ joined indent level parts := by
  -- lines are broken with line feeds alone
  have hseparator : '\r' ∉ (plain indent).separator level := by
    cases indent with
    | none => exact (by decide : '\r' ∉ ", ".toList)
    | some width => exact fun hmem => (List.mem_cons.1 hmem).elim (by decide) (not_mem_lineBreak _ _)
  induction parts with
  | nil => exact List.not_mem_nil
  | cons p parts ih =>
    rw [List.forall_mem_cons] at hparts
    cases parts with
    | nil => rw [joined, List.intercalate_singleton]; exact hparts.1
    | cons q parts =>
      rw [joined, List.intercalate_cons_cons, List.mem_append, List.mem_append]
      exact not_or.2 ⟨not_or.2 ⟨hparts.1, hseparator⟩, ih hparts.2⟩

/-- `enclose` writes no carriage return around parts. -/
private theorem Style.not_mem_enclose {indent : Option Nat} {level : Nat} {opener closer : Char}
    {parts : List Text}
    (hopener : '\r' ≠ opener) (hcloser : '\r' ≠ closer) (hparts : ∀ p ∈ parts, '\r' ∉ p) :
    '\r' ∉ (plain indent).enclose level opener closer parts := by
  have hbreak := not_mem_lineBreak indent
  unfold enclose
  split
  · simp [hopener, hcloser]
  · simp only [List.cons_append, List.mem_cons, List.mem_append, List.not_mem_nil, or_false, not_or]
    exact ⟨hopener, ⟨⟨hbreak _, not_mem_joined indent (level + 1) hparts⟩, hbreak _⟩, hcloser⟩

/-- `writeAt` writes no carriage return for a plain value. -/
private theorem not_mem_writeAt {indent : Option Nat} {j : Json} (h : j.IsPlain) (level : Nat) :
    '\r' ∉ writeAt (.plain indent) level j := by
  induction h generalizing level with
  | null => rw [writeAt]; decide
  | bool b => rw [writeAt]; cases b <;> decide
  | str t => rw [writeAt]; exact not_mem_writeString t
  | arr plain ih =>
    rw [writeAt, writeItems_eq_map]
    exact Style.not_mem_enclose (by decide) (by decide)
      (List.forall_mem_map.2 fun item hitem => ih item hitem _)
  | obj nodup plain ih =>
    rw [writeAt, arrange_writeFields]
    -- the name, the colon and the value
    refine Style.not_mem_enclose (by decide) (by decide) (List.forall_mem_map.2 fun f hf => ?_)
    rw [writtenField, fieldText, List.mem_append, List.mem_append]
    exact not_or.2 ⟨not_or.2 ⟨not_mem_writeString f.1, by decide⟩, ih f hf _⟩

/-! ## Whole texts -/

/-- The text that `write` makes of a plain value is read back as the value, whatever kind of line ends a file
    may have, and is refused just if `tooDeep?` finds something in it. -/
theorem parse_write (indent : Option Nat) {j : Json} (h : j.IsPlain) :
    parse (Text.withNewlines (write (.plain indent) j)) =
      match tooDeep? depthLimit j with
      | none => .ok j
      | some e => .error (.excess e) := by
  obtain ⟨c, t, hhead, hc, -, hmark⟩ := writeAt_head h (.plain indent) 0
  have hread := h.readsBack 0 (stepBound (writeAt (.plain indent) 0 j)) depthLimit []
    (Nat.le_add_right _ 2)
  rw [List.append_nil] at hread
  rw [write, Text.withNewlines_eq_self (not_mem_writeAt h 0), parse]
  -- there is nothing in front of the value and nothing behind it
  have hall : readAll (writeAt (.plain indent) 0 j) = (outcome (tooDeep? depthLimit j) j []).map (·.1) := by
    have hskip : skipSpace (writeAt (.plain indent) 0 j) = writeAt (.plain indent) 0 j := by
      rw [hhead, skipSpace_cons hc]
    rw [readAll, hskip, hread]
    · cases tooDeep? depthLimit j <;> rfl
    · rintro rest heq
      exact hmark (List.cons.inj (hhead.symm.trans heq)).1
  rw [hall]
  cases tooDeep? depthLimit j <;> rfl

/-- With sorted fields it is the `sorted` value that is read back. -/
theorem parse_write_sorted (indent : Option Nat) {j : Json} (h : j.IsPlain) :
    parse (Text.withNewlines (write ⟨indent, true, false⟩ j)) =
      match tooDeep? depthLimit j.sorted with
      | none => .ok j.sorted
      | some e => .error (.excess e) := by
  rw [write, writeAt_eq_sorted]
  exact parse_write indent h.sorted

end BlockScript.Json
