import Mathlib.Data.List.DropRight
import BlockScript.Proofs.Vocabulary.Loads

/-!
# The index after any loads

A pack may come as JSON, from a file or from the bundle, it may be refused, and a reset takes a lexicon back
to English. Whatever has been done, the tables are those of the packs that have been accepted since the last
reset. The index is what these packs write, one after the other, and under each key the last write counts;
of each language the last pack counts.

## Key results

- `Vocabulary.index_ofPacks_eq`: the index holds what the packs write, in the order of the first writes
- `Lexicon.history_current`: the packs that a lexicon is made of after any actions
- `Lexicon.index_after_history`: what the tables hold then, and what a single action leaves in them
-/

namespace BlockScript

/-! ## Writes -/

namespace Dictionary

variable {α : Type}

/-- The value that is written last under a key. -/
def lastWrite? (key : Text) (writes : List (Text × α)) : Option α :=
  (writes.filter fun w => w.1 == key).getLast?.map (·.2)

/-- One more write is the `lastWrite?` if it is under the key. -/
private theorem lastWrite?_concat (key : Text) (writes : List (Text × α)) (w : Text × α) :
    lastWrite? key (writes ++ [w]) = if key = w.1 then some w.2 else lastWrite? key writes := by
  rw [lastWrite?, List.filter_append]
  by_cases h : key = w.1
  · simp [h]
  · have hne : (w.1 == key) = false := beq_false_of_ne (Ne.symm h)
    simp [h, hne, lastWrite?]

/-- `putAll` goes write by write. -/
private theorem putAll_append (front back : List (Text × α)) (d : Dictionary α) :
    putAll (front ++ back) d = putAll back (putAll front d) :=
  List.foldl_append

/-- What is read from a dictionary by `ofList` is the `lastWrite?`. -/
theorem get?_ofList (key : Text) (writes : List (Text × α)) :
    get? key (ofList writes) = lastWrite? key writes := by
  induction writes using List.reverseRecOn with
  | nil => rfl
  | append_singleton writes w ih =>
    have hlast : ofList (writes ++ [w]) = put w.1 w.2 (ofList writes) := putAll_append writes [w] []
    rw [hlast, get?_put, ih, lastWrite?_concat]

/-- There is a `lastWrite?` under a key just if there is a write at all. -/
theorem lastWrite?_eq_none_iff {key : Text} {writes : List (Text × α)} :
    lastWrite? key writes = none ↔ ∀ w ∈ writes, w.1 ≠ key := by
  rw [lastWrite?, Option.map_eq_none_iff, List.getLast?_eq_none_iff, List.filter_eq_nil_iff]
  simp

end Dictionary

namespace Vocabulary

/-- What a pack writes into the index. First the specs of known blocks, in the order of the pack: each is
    written without the name of its first image, under the key that it has with padding, unless this key is
    empty. Then the aliases of known blocks, in the order of the pack. -/
def writes (folded : Bool) (p : Pack) : List (Text × (Text × Text)) :=
  (((p.blocks.filter fun e => isKnown e.1).map fun e =>
      (Text.key folded (Text.padSlots (withoutImageName e.2)), (e.1, p.code))).filter
        fun w => w.1 ≠ []) ++
    (p.aliases.filter fun e => isKnown e.2).map fun e =>
      (Text.key folded (Text.padSlots e.1), (e.2, p.code))

/-- Adding a pack puts its writes into the `index`. -/
private theorem index_add (v : Vocabulary) (p : Pack) :
    (v.add p).index = Dictionary.putAll (writes v.folded p) v.index := by
  have hspecs : v.specEntries p = ((p.blocks.filter fun e => isKnown e.1).map fun e =>
      (Text.key v.folded (Text.padSlots (withoutImageName e.2)), (e.1, p.code))).filter
        fun w => w.1 ≠ [] := by
    rw [specEntries, knownSpecs, List.map_map]
    rfl
  rw [writes, Dictionary.putAll_append, ← hspecs]
  rfl

/-- The `index` holds what the packs write, in the order of the first writes. -/
theorem index_ofPacks_eq (folded : Bool) (ps : List Pack) :
    (ofPacks folded ps).index = Dictionary.ofList (ps.flatMap (writes folded)) := by
  induction ps using List.reverseRecOn with
  | nil => rfl
  | append_singleton ps p ih =>
    rw [ofPacks_concat, index_add, ofPacks_folded, ih, List.flatMap_append, List.flatMap_singleton]
    exact (Dictionary.putAll_append _ _ _).symm

end Vocabulary

/-! ## Actions -/

namespace Lexicon

/-- What can be done to a lexicon. -/
inductive Action where
  /-- Load a pack given as JSON. -/
  | load (value : Json)
  /-- Load a pack from a file with the given contents. -/
  | loadFile (file contents : Text)
  /-- Load a bundled pack, in view of the folders around the bundled files. -/
  | loadBundled (around : List Folder) (name : Text)
  | reset

namespace Action

/-- Whether an action forgets the packs. -/
def isReset : Action → Bool
  | .reset => true
  | _ => false

/-- The pack that an action loads, if it is not refused. -/
def pack? : Action → Option Pack
  | .load value => (Pack.ofJson value).toOption
  | .loadFile file contents => (Pack.ofFile file contents).toOption
  | .loadBundled around name => (Bundle.find? around name).bind fun value => (Pack.ofJson value).toOption
  | .reset => none

end Action

/-- The lexicon after an action, or why the action is refused. -/
def attempt (l : Lexicon) : Action → Except LoadError Lexicon
  | .load value => (l.load value).map (·.2)
  | .loadFile file contents => (l.loadFile file contents).map (·.2)
  | .loadBundled around name => (l.loadBundled around name).map (·.2)
  | .reset => .ok l.reset

/-- Take an action. One that is refused changes nothing. -/
def act (l : Lexicon) (a : Action) : Lexicon :=
  match l.attempt a with
  | .ok l' => l'
  | .error _ => l

/-- Take actions one after the other, from English alone. -/
def history (folded : Bool) (actions : List Action) : Lexicon := actions.foldl act (english folded)

/-- English, and the packs that have been accepted since the last reset. -/
def accepted (actions : List Action) : List Pack :=
  englishPack :: (actions.rtakeWhile fun a => !a.isReset).filterMap Action.pack?

/-- An action that is no reset adds its `pack?`, or is refused if there is none. -/
theorem attempt_eq (l : Lexicon) {a : Action} (h : a.isReset = false) :
    (∃ p, a.pack? = some p ∧ l.attempt a = .ok (l.add p)) ∨
      (a.pack? = none ∧ ∃ e, l.attempt a = .error e) := by
  -- a pack comes from a value, which is given, read from a file or found among those that are bundled
  have hjson : ∀ value, (∃ p, (Pack.ofJson value).toOption = some p ∧
        (l.load value).map (·.2) = .ok (l.add p)) ∨
      ((Pack.ofJson value).toOption = none ∧ ∃ e, (l.load value).map (·.2) = .error e) := by
    intro value
    unfold load
    cases Pack.ofJson value with
    | ok p => exact .inl ⟨p, rfl, rfl⟩
    | error e => exact .inr ⟨rfl, _, rfl⟩
  cases a with
  | load value => exact hjson value
  | loadFile file contents =>
    simp only [Action.pack?, attempt, loadFile]
    cases Pack.ofFile file contents with
    | ok p => exact .inl ⟨p, rfl, rfl⟩
    | error e => exact .inr ⟨rfl, _, rfl⟩
  | loadBundled around name =>
    simp only [Action.pack?, attempt, loadBundled]
    cases Bundle.find? around name with
    | none => exact .inr ⟨rfl, _, rfl⟩
    | some value => exact hjson value
  | reset => cases h

/-- By `act`, an action that is no reset adds at most one pack. -/
theorem act_eq (l : Lexicon) {a : Action} (h : a.isReset = false) :
    l.act a = a.pack?.elim l l.add := by
  rw [act]
  rcases l.attempt_eq h with ⟨p, hpack, hattempt⟩ | ⟨hpack, e, hattempt⟩
  · rw [hpack, hattempt]
    rfl
  · rw [hpack, hattempt]
    rfl

/-- One more action is a reset, or adds its pack to the `accepted` ones if it is not refused. -/
private theorem accepted_concat (actions : List Action) (a : Action) :
    accepted (actions ++ [a]) =
      if a.isReset then [englishPack] else accepted actions ++ a.pack?.toList := by
  rw [accepted, List.rtakeWhile_concat]
  by_cases h : a.isReset = true
  · simp [h]
  · cases hpack : a.pack? <;> simp [h, hpack, accepted]

/-- After a `history` of any actions the vocabulary is that of English and the packs `accepted` since the last
    reset. -/
theorem history_current (folded : Bool) (actions : List Action) :
    (history folded actions).current = Vocabulary.ofPacks folded (accepted actions) := by
  -- a reset goes back to what the history started from, so the induction needs both
  suffices h : (history folded actions).initial = Vocabulary.english folded ∧
      (history folded actions).current = Vocabulary.ofPacks folded (accepted actions) from h.2
  induction actions using List.reverseRecOn with
  | nil => exact ⟨rfl, english_eq_ofPacks folded⟩
  | append_singleton actions a ih =>
    have hstep : history folded (actions ++ [a]) = (history folded actions).act a := by simp [history]
    rw [hstep, accepted_concat]
    by_cases h : a.isReset = true
    · obtain rfl : a = .reset := by cases a <;> simp [Action.isReset] at h ⊢
      exact ⟨ih.1, ih.1.trans (english_eq_ofPacks folded)⟩
    · rw [act_eq _ (by simpa using h), if_neg h]
      cases a.pack? with
      | none => simpa using ih
      | some p => exact ⟨ih.1, by simp [add, ih.2]⟩

/-- No key of the index is lost by `act`, unless the action is to reset. -/
private theorem index_act_ne_none (l : Lexicon) {a : Action} (h : a.isReset = false) {key : Text}
    (hkey : Dictionary.get? key l.current.index ≠ none) :
    Dictionary.get? key (l.act a).current.index ≠ none := by
  rw [act_eq l h]
  cases a.pack? with
  | none => exact hkey
  | some p =>
    show Dictionary.get? key (l.current.add p).index ≠ none
    rw [Vocabulary.index_add]
    exact Dictionary.get?_putAll_ne_none (.inr hkey)

/-- After any `history` of loads and resets, `lastWrite?` tells what stands under each key: what English and
    the `accepted` packs have written last under it; and of each language there is its last pack among these,
    with the blocks that are known. A key is lost by nothing but a reset, and a load that is refused changes
    nothing; it is refused just if there is no valid pack. -/
theorem index_after_history (folded : Bool) (actions : List Action) :
    (∀ key, Dictionary.get? key (history folded actions).current.index =
        Dictionary.lastWrite? key ((accepted actions).flatMap (Vocabulary.writes folded))) ∧
      (∀ lang, Dictionary.get? lang (history folded actions).current.languages =
        ((accepted actions).filter fun p => p.code == lang).getLast?.map fun p =>
          { p with blocks := (p.blocks.filter fun e => isKnown e.1).map fun e =>
              (e.1, withoutImageName e.2) }) ∧
      ∀ a : Action, a.isReset = false →
        (∀ key, Dictionary.get? key (history folded actions).current.index ≠ none →
          Dictionary.get? key (history folded (actions ++ [a])).current.index ≠ none) ∧
        ((∃ e, (history folded actions).attempt a = .error e) ↔ a.pack? = none) ∧
        ∀ e, (history folded actions).attempt a = .error e →
          history folded (actions ++ [a]) = history folded actions := by
  have hstep : ∀ a, history folded (actions ++ [a]) = (history folded actions).act a := by
    simp [history]
  -- the two tables after the actions so far, and then what one more action can do to them
  refine ⟨fun key => ?_, fun lang => ?_, fun a ha => ⟨fun key hkey => ?_, ?_, fun e he => ?_⟩⟩
  · rw [history_current, Vocabulary.index_ofPacks_eq, Dictionary.get?_ofList]
  · rw [history_current, Vocabulary.get?_languages_ofPacks, Vocabulary.lastPack?,
      ← List.head?_filter, List.filter_reverse, List.head?_reverse]
    rfl
  · rw [hstep]
    exact index_act_ne_none _ ha hkey
  · rcases attempt_eq (history folded actions) ha with ⟨p, hpack, hattempt⟩ | ⟨hpack, hrefused⟩
    · simp [hpack, hattempt]
    · simp [hpack, hrefused]
  · rw [hstep, act, he]

end Lexicon

end BlockScript
