import Mathlib.Data.List.Infix
import BlockScript.Proofs.Text.Key

/-!
# Texts with arguments between their runs

A block is written as runs of text with arguments between them. With a slot in the place of each argument
the same runs make up its spec. Text is never moved together: two slashes in a row stand in a run or in
an argument, and blanks at the ends are blanks at the ends of the outer runs.

## Key results

- `slotted_runsOf`, `runsOf_slotted`: a text is made of the runs between its slots and the slots
- `padSlots_slotted`: where arguments are set off by spaces the spec needs no padding
- `not_isInfix_weave`: characters that do not come together in a woven text
-/

namespace BlockScript.Text

/-! ## Runs and arguments -/

/-- Runs of text and arguments in turn, with a run at both ends. -/
def interleave : List Text → List Text → List Text
  | [], _ => []
  | run :: _, [] => [run]
  | run :: runs, arg :: args => run :: arg :: interleave runs args

/-- The text that runs with arguments between them make up. -/
def weave (runs args : List Text) : Text := (interleave runs args).flatten

/-- `Fits runs args`: there is one run more than there are arguments. -/
inductive Fits : List Text → List Text → Prop
  | last (run : Text) : Fits [run] []
  | step (run arg : Text) {runs args : List Text} (later : Fits runs args) :
      Fits (run :: runs) (arg :: args)

/-- `Fits` is about the two lengths alone. -/
theorem fits_iff {runs args : List Text} : Fits runs args ↔ runs.length = args.length + 1 := by
  constructor
  · intro h
    induction h with
    | last run => rfl
    | step run arg _ ih => rw [List.length_cons, List.length_cons, ih]
  · intro h
    induction args generalizing runs with
    | nil =>
      obtain ⟨run, rfl⟩ := List.length_eq_one_iff.1 h
      exact .last run
    | cons arg args ih =>
      cases runs with
      | nil => cases h
      | cons run runs => exact .step run arg (ih (Nat.succ.inj h))

/-- By `Fits` there is a first run, so there are runs. -/
theorem Fits.exists_cons {runs args : List Text} (h : Fits runs args) :
    ∃ run later, runs = run :: later := by
  cases h <;> exact ⟨_, _, rfl⟩

/-- It does not matter to `Fits` what the runs and the arguments are, but how many. -/
theorem Fits.of_length {runs runs' args args' : List Text} (h : Fits runs args)
    (hruns : runs'.length = runs.length) (hargs : args'.length = args.length) : Fits runs' args' := by
  rw [fits_iff, hruns, hargs]
  exact fits_iff.1 h

/-- So the arguments can be changed one by one, and still `Fits` holds. -/
theorem Fits.map_args {runs args : List Text} (h : Fits runs args) (f : Text → Text) :
    Fits runs (args.map f) :=
  h.of_length rfl (List.length_map f)

/-- `Fits` stays true if the first run is left out with the first argument. -/
theorem Fits.tail {run arg : Text} {runs args : List Text} (h : Fits (run :: runs) (arg :: args)) :
    Fits runs args := by
  cases h
  assumption

@[simp] theorem weave_last (run : Text) : weave [run] [] = run := by
  simp [weave, interleave]

@[simp] theorem weave_cons (run arg : Text) (runs args : List Text) :
    weave (run :: runs) (arg :: args) = run ++ (arg ++ weave runs args) := by
  simp [weave, interleave]

/-- All runs are in `interleave` if there are arguments enough. -/
theorem Fits.mem_interleave {runs args : List Text} (h : Fits runs args) {run : Text}
    (hrun : run ∈ runs) : run ∈ interleave runs args := by
  induction h with
  | last run' => exact hrun
  | step run' arg _ ih =>
    rcases List.mem_cons.1 hrun with rfl | hrun
    · exact List.mem_cons_self
    · exact List.mem_cons_of_mem _ (List.mem_cons_of_mem _ (ih hrun))

/-- What is in `interleave` is a run or an argument. -/
theorem mem_of_mem_interleave {runs args : List Text} {t : Text} (h : t ∈ interleave runs args) :
    t ∈ runs ∨ t ∈ args := by
  induction runs generalizing args with
  | nil => cases h
  | cons run runs ih =>
    cases args with
    | nil => exact .inl (List.mem_singleton.1 h ▸ List.mem_cons_self)
    | cons arg args =>
      rcases List.mem_cons.1 h with rfl | h
      · exact .inl List.mem_cons_self
      · rcases List.mem_cons.1 h with rfl | h
        · exact .inr List.mem_cons_self
        · exact (ih h).imp (List.mem_cons_of_mem run) (List.mem_cons_of_mem arg)

/-- An argument and a run at the ends stand at the end of `interleave`. -/
theorem Fits.interleave_concat {runs args : List Text} (h : Fits runs args) (arg run : Text) :
    interleave (runs ++ [run]) (args ++ [arg]) = interleave runs args ++ [arg, run] := by
  induction h with
  | last run' => rfl
  | step run' arg' _ ih => rw [List.cons_append, List.cons_append, interleave, ih, interleave]; rfl

/-- Runs and arguments with one more of each at their ends still `Fits`. -/
theorem Fits.concat {runs args : List Text} (h : Fits runs args) (arg run : Text) :
    Fits (runs ++ [run]) (args ++ [arg]) := by
  rw [fits_iff, List.length_append, List.length_append, fits_iff.1 h]
  rfl

/-- With one more argument and one more run, `weave` gives a text longer by the two. -/
theorem Fits.weave_concat {runs args : List Text} (h : Fits runs args) (arg run : Text) :
    weave (runs ++ [run]) (args ++ [arg]) = weave runs args ++ (arg ++ run) := by
  rw [weave, h.interleave_concat, List.flatten_append, weave]
  simp

/-- In `weave`, text in front is a part of the first run. -/
theorem append_weave (s run : Text) (runs args : List Text) :
    s ++ weave (run :: runs) args = weave ((s ++ run) :: runs) args := by
  cases args with
  | nil => simp [weave, interleave]
  | cons arg args => simp

/-! ## Slots -/

/-- The text that runs with slots between them make up. -/
def slotted (runs : List Text) : Text := ['_'].intercalate runs

/-- Between a run and the next one there is a slot in the `slotted` text. -/
private theorem slotted_cons (run run' : Text) (runs : List Text) :
    slotted (run :: run' :: runs) = run ++ '_' :: slotted (run' :: runs) := by
  rw [slotted, List.intercalate_cons_cons, ← slotted, List.append_assoc, List.singleton_append]

/-- The `slotted` text of runs is woven from them with a slot for each argument. -/
theorem Fits.slotted_eq_weave {runs args : List Text} (h : Fits runs args) :
    slotted runs = weave runs (args.map fun _ => ['_']) := by
  induction h with
  | last run => simp [slotted]
  | step run arg later ih =>
    -- there is another run behind the argument, so a slot is put in front of it
    have hfilled : _ ≠ [] := List.ne_nil_of_length_pos (by rw [fits_iff.1 later]; omega)
    rw [slotted, List.intercalate_cons_of_ne_nil hfilled, ← slotted, ih, List.map_cons, weave_cons,
      List.append_assoc]

/-- The characters of a `slotted` text are those of the runs, and slots. -/
theorem mem_slotted {runs : List Text} {c : Char} (h : c ∈ slotted runs) :
    c = '_' ∨ ∃ run ∈ runs, c ∈ run := by
  induction runs with
  | nil => simp [slotted] at h
  | cons run runs ih =>
    cases runs with
    | nil => exact .inr ⟨run, List.mem_cons_self, by simpa [slotted] using h⟩
    | cons run' runs =>
      rw [slotted, List.intercalate_cons_cons, List.append_assoc, List.mem_append, List.mem_append] at h
      rcases h with hrun | hslot | hlater
      · exact .inr ⟨run, List.mem_cons_self, hrun⟩
      · exact .inl (List.mem_singleton.1 hslot)
      · exact (ih hlater).imp id fun ⟨r, hr, hc⟩ => ⟨r, List.mem_cons_of_mem _ hr, hc⟩

/-- The runs between the slots of a text. -/
def runsOf (spec : Text) : List Text := splitAt (· == '_') spec

/-- In `runsOf`, a slot at the start has an empty run in front. -/
theorem runsOf_slot (spec : Text) : runsOf ('_' :: spec) = [] :: runsOf spec := by
  simp [runsOf, splitAt]

/-- Any other character is the first one of the first run. -/
private theorem exists_runsOf_cons {c : Char} (hc : c ≠ '_') (spec : Text) :
    ∃ run runs, runsOf spec = run :: runs ∧ runsOf (c :: spec) = (c :: run) :: runs := by
  obtain ⟨run, runs, hruns⟩ := List.exists_cons_of_ne_nil (splitAt_ne_nil (· == '_') spec)
  exact ⟨run, runs, hruns, by simp [runsOf, splitAt, hc, hruns]⟩

/-- With slots between them the `runsOf` a text make up the text. -/
theorem slotted_runsOf (spec : Text) : slotted (runsOf spec) = spec := by
  induction spec with
  | nil => rfl
  | cons c spec ih =>
    by_cases hc : c = '_'
    · subst hc
      -- a slot starts a new run, and there is always one behind it
      have hfilled : runsOf spec ≠ [] := splitAt_ne_nil _ spec
      rw [runsOf_slot, slotted, List.intercalate_cons_of_ne_nil hfilled, ← slotted, ih]
      rfl
    · obtain ⟨run, runs, hruns, hcons⟩ := exists_runsOf_cons hc spec
      rw [hruns] at ih
      rw [hcons]
      cases runs with
      | nil => simpa [slotted] using ih
      | cons run' runs =>
        rw [slotted, List.intercalate_cons_cons] at ih ⊢
        rw [List.cons_append, List.cons_append, ih]

/-- There is one of the `runsOf` a text more than there are slots in it. -/
theorem length_runsOf (spec : Text) : (runsOf spec).length = spec.count '_' + 1 := by
  induction spec with
  | nil => rfl
  | cons c spec ih =>
    by_cases hc : c = '_'
    · subst hc
      rw [runsOf_slot, List.length_cons, ih, List.count_cons_self]
    · obtain ⟨run, runs, hruns, hcons⟩ := exists_runsOf_cons hc spec
      rw [hruns, List.length_cons] at ih
      rw [hcons, List.length_cons, List.count_cons_of_ne hc, ih]

/-- Text without slots is a part of the first of the `runsOf`. -/
theorem runsOf_append {s : Text} (hs : '_' ∉ s) {spec run : Text} {runs : List Text}
    (h : runsOf spec = run :: runs) : runsOf (s ++ spec) = (s ++ run) :: runs := by
  induction s with
  | nil => exact h
  | cons c s ih =>
    rw [List.mem_cons, not_or] at hs
    obtain ⟨first, later, hfirst, hcons⟩ := exists_runsOf_cons (Ne.symm hs.1) (s ++ spec)
    rw [ih hs.2] at hfirst
    obtain ⟨rfl, rfl⟩ := List.cons.inj hfirst
    exact hcons

/-- The `runsOf` a slotted text are what they have been before the slots were put there. -/
theorem runsOf_slotted {runs : List Text} (hfilled : runs ≠ []) (h : ∀ run ∈ runs, '_' ∉ run) :
    runsOf (slotted runs) = runs := by
  induction runs with
  | nil => exact absurd rfl hfilled
  | cons run runs ih =>
    obtain ⟨hrun, hruns⟩ := List.forall_mem_cons.1 h
    cases runs with
    | nil =>
      have hlast : runsOf (run ++ []) = [run ++ []] := runsOf_append hrun rfl
      simpa [slotted] using hlast
    | cons run' runs =>
      have hlater := ih (List.cons_ne_nil _ _) hruns
      rw [slotted_cons, runsOf_append hrun (runsOf_slot _), hlater, List.append_nil]

/-- The first of the `runsOf` a text is at its start. -/
private theorem isPrefix_of_runsOf {spec run : Text} {runs : List Text} (h : runsOf spec = run :: runs) :
    run <+: spec := by
  induction spec generalizing run runs with
  | nil =>
    obtain ⟨rfl, -⟩ := List.cons.inj h
    exact List.prefix_rfl
  | cons c spec ih =>
    by_cases hc : c = '_'
    · -- in front of a slot there is an empty run
      subst hc
      rw [runsOf_slot] at h
      obtain ⟨rfl, -⟩ := List.cons.inj h
      exact List.nil_prefix
    · obtain ⟨first, later, hruns, hcons⟩ := exists_runsOf_cons hc spec
      rw [hcons] at h
      obtain ⟨rfl, -⟩ := List.cons.inj h
      exact List.cons_prefix_cons.2 ⟨rfl, ih hruns⟩

/-- All `runsOf` a text are parts of it. -/
theorem isInfix_of_mem_runsOf {spec run : Text} (h : run ∈ runsOf spec) : run <:+: spec := by
  induction spec with
  | nil =>
    obtain rfl := List.mem_singleton.1 h
    exact List.infix_rfl
  | cons c spec ih =>
    by_cases hc : c = '_'
    · subst hc
      rw [runsOf_slot] at h
      rcases List.mem_cons.1 h with rfl | h
      · exact List.nil_infix
      · exact List.infix_cons (ih h)
    · -- any other character goes with the first run, which is where the text starts
      obtain ⟨first, later, hruns, hcons⟩ := exists_runsOf_cons hc spec
      rw [hcons] at h
      rw [hruns] at ih
      rcases List.mem_cons.1 h with rfl | h
      · exact (isPrefix_of_runsOf hcons).isInfix
      · exact List.infix_cons (ih (List.mem_cons_of_mem _ h))

/-- A text that is more than slots has one of the `runsOf` that is not empty. -/
theorem exists_run_ne_nil {spec : Text} (h : ∃ c ∈ spec, c ≠ '_') : ∃ run ∈ runsOf spec, run ≠ [] := by
  induction spec with
  | nil => simp at h
  | cons c spec ih =>
    by_cases hc : c = '_'
    · subst hc
      obtain ⟨run, hrun, hfilled⟩ := ih (by simpa using h)
      exact ⟨run, by rw [runsOf_slot]; exact List.mem_cons_of_mem _ hrun, hfilled⟩
    · obtain ⟨first, later, -, hcons⟩ := exists_runsOf_cons hc spec
      exact ⟨c :: first, by rw [hcons]; exact List.mem_cons_self, by simp⟩

/-- A woven text begins like the `slotted` text of its runs, unless one of its arguments begins there. -/
theorem Fits.take_slotted {runs args : List Text} (h : Fits runs args) (hargs : ∀ arg ∈ args, arg ≠ [])
    (n : Nat) :
    (slotted runs).take n = (weave runs args).take n ∨
      ∃ arg ∈ args, ∃ c, arg.head? = some c ∧ c ∈ (weave runs args).take n := by
  have hslotted := h.slotted_eq_weave
  cases h with
  | last run => exact .inl (by rw [hslotted]; rfl)
  | @step run arg runs args later =>
    rw [hslotted, List.map_cons, weave_cons, weave_cons]
    -- within the first run both texts are the same
    by_cases hn : n ≤ run.length
    · left
      rw [List.take_append_of_le_length hn, List.take_append_of_le_length hn]
    · right
      obtain ⟨c, arg', rfl⟩ := List.exists_cons_of_ne_nil (hargs arg List.mem_cons_self)
      obtain ⟨k, rfl⟩ : ∃ k, n = run.length + (k + 1) := ⟨n - run.length - 1, by omega⟩
      exact ⟨_, List.mem_cons_self, c, rfl, by simp [List.take_append]⟩

/-! ## Padded slots -/

/-- `AreApart runs`: each argument between the runs has a space or an end of the text on both sides. -/
def AreApart : List Text → Prop
  | run :: run' :: runs => (run = [] ∨ run.getLast? = some ' ') ∧ follow (run' :: runs)
  | _ => True
where
  /-- Whether this is so behind the first run. -/
  follow : List Text → Prop
    | [] => True
    | [run] => run = [] ∨ run.head? = some ' '
    | run :: run' :: runs => run.head? = some ' ' ∧ run.getLast? = some ' ' ∧ follow (run' :: runs)

instance AreApart.decidableFollow : (runs : List Text) → Decidable (follow runs)
  | [] => isTrue trivial
  | [run] => inferInstanceAs (Decidable (run = [] ∨ run.head? = some ' '))
  | run :: run' :: runs =>
    have := decidableFollow (run' :: runs)
    inferInstanceAs (Decidable (run.head? = some ' ' ∧ run.getLast? = some ' ' ∧ follow (run' :: runs)))

instance : (runs : List Text) → Decidable (AreApart runs)
  | [] | [_] => isTrue trivial
  | run :: run' :: runs =>
    inferInstanceAs (Decidable ((run = [] ∨ run.getLast? = some ' ') ∧ AreApart.follow (run' :: runs)))

/-- What follows an argument starts with a space, if there is anything. -/
private theorem AreApart.startsFilled_slotted {runs : List Text} (h : follow runs) :
    startsFilled (slotted runs) = false := by
  rw [startsFilled_eq]
  cases runs with
  | nil => rfl
  | cons run runs =>
    cases runs with
    | nil =>
      rcases h with rfl | hhead
      · rfl
      · simp [slotted, hhead]
    | cons run' runs => simp [slotted_cons, h.1]

/-- `padBefore` does nothing to a single run. -/
private theorem padBefore_slotted_last {run : Text} (hrun : '_' ∉ run) (previous : Char) :
    padBefore previous (slotted [run]) = slotted [run] := by
  simpa [slotted, padBefore] using padBefore_append hrun previous []

/-- Nor to a run with a space at its end, if it does nothing to what follows. -/
private theorem padBefore_slotted_cons {run run' : Text} {runs : List Text} {previous : Char}
    (hrun : '_' ∉ run)
    (hspace : run.getLast?.getD previous = ' ')
    (hlater : padBefore '_' (slotted (run' :: runs)) = slotted (run' :: runs)) :
    padBefore previous (slotted (run :: run' :: runs)) = slotted (run :: run' :: runs) := by
  rw [slotted_cons, padBefore_append hrun, hspace, padBefore, if_neg (by simp), hlater]

/-- So `padBefore` does nothing to runs that are `AreApart`, with a slot behind each. -/
private theorem AreApart.padBefore_slotted {runs : List Text} (hslots : ∀ run ∈ runs, '_' ∉ run)
    (h : follow runs)
    (previous : Char) : padBefore previous (slotted runs) = slotted runs := by
  induction runs generalizing previous with
  | nil => rfl
  | cons run runs ih =>
    obtain ⟨hrun, hruns⟩ := List.forall_mem_cons.1 hslots
    cases runs with
    | nil => exact padBefore_slotted_last hrun previous
    | cons run' runs =>
      obtain ⟨-, hspace, hlater⟩ := h
      exact padBefore_slotted_cons hrun (by rw [hspace]; rfl) (ih hruns hlater '_')

/-- Nor does `padAfter`. -/
private theorem AreApart.padAfter_slotted {run : Text} {runs : List Text}
    (hslots : ∀ run' ∈ run :: runs, '_' ∉ run')
    (h : follow runs) : padAfter (slotted (run :: runs)) = slotted (run :: runs) := by
  induction runs generalizing run with
  | nil => simpa [slotted, padAfter] using padAfter_append (hslots run List.mem_cons_self) []
  | cons run' runs ih =>
    obtain ⟨hrun, hruns⟩ := List.forall_mem_cons.1 hslots
    have hfilled := startsFilled_slotted h
    -- behind the next run the slots are set off just as well
    have hlater : follow runs := by
      cases runs with
      | nil => exact trivial
      | cons run'' runs => exact h.2.2
    rw [slotted_cons, padAfter_append hrun, padAfter, hfilled, if_neg (by simp), ih hruns hlater]

/-- `padSlots` does nothing to slots that are set off already. -/
theorem padSlots_slotted {runs : List Text} (hslots : ∀ run ∈ runs, '_' ∉ run) (h : AreApart runs) :
    padSlots (slotted runs) = slotted runs := by
  cases runs with
  | nil => rfl
  | cons run runs =>
    obtain ⟨hrun, hruns⟩ := List.forall_mem_cons.1 hslots
    cases runs with
    | nil => rw [padSlots, padBefore_slotted_last hrun, AreApart.padAfter_slotted hslots trivial]
    | cons run' runs =>
      obtain ⟨hfirst, hlater⟩ := h
      -- the start of the text counts as a space in front of the first slot
      have hspace : run.getLast?.getD ' ' = ' ' := by
        rcases hfirst with rfl | hlast
        · rfl
        · rw [hlast]
          rfl
      rw [padSlots, padBefore_slotted_cons hrun hspace (AreApart.padBefore_slotted hruns hlater '_'),
        AreApart.padAfter_slotted hslots hlater]

/-! ## Characters that come together -/

/-- A character stands twice in a row in one of two texts, or at the end of the first and at the start of the
    second. -/
theorem isInfix_append_iff {c : Char} {s t : Text} :
    [c, c] <:+: s ++ t ↔
      [c, c] <:+: s ∨ [c, c] <:+: t ∨ (s.getLast? = some c ∧ t.head? = some c) := by
  rw [List.infix_append_iff]
  constructor
  · rintro (h | h | ⟨l, l', hl, hs, ht⟩)
    · exact .inl h
    · exact .inr (.inl h)
    · -- the two are cut in front, between them or behind
      rcases List.cons_eq_append_iff.1 hl with ⟨rfl, rfl⟩ | ⟨l, rfl, hrest⟩
      · exact .inr (.inl ht.isInfix)
      · rcases List.append_eq_singleton_iff.1 hrest.symm with ⟨rfl, rfl⟩ | ⟨rfl, rfl⟩
        · obtain ⟨front, rfl⟩ := hs
          obtain ⟨back, rfl⟩ := ht
          exact .inr (.inr ⟨by simp, rfl⟩)
        · exact .inl hs.isInfix
  · rintro (h | h | ⟨hs, ht⟩)
    · exact .inl h
    · exact .inr (.inl h)
    · obtain ⟨front, rfl⟩ := List.getLast?_eq_some_iff.1 hs
      obtain ⟨back, rfl⟩ := List.head?_eq_some_iff.1 ht
      -- the last one of the first text and the first one of the other
      exact .inr (.inr ⟨[c], [c], rfl, ⟨front, rfl⟩, ⟨back, rfl⟩⟩)

/-- Another character between two texts keeps it from standing twice in a row. -/
theorem not_isInfix_append_cons {c d : Char} {s t : Text} (hd : d ≠ c) (hs : ¬ [c, c] <:+: s)
    (ht : ¬ [c, c] <:+: t) : ¬ [c, c] <:+: s ++ d :: t := by
  intro hwithin
  rcases isInfix_append_iff.1 hwithin with h | h | ⟨-, h⟩
  · exact hs h
  · rcases List.infix_cons_iff.1 h with hbegins | h
    · exact hd (List.cons_prefix_cons.1 hbegins).1.symm
    · exact ht h
  · exact hd (Option.some.inj h)

/-- A character that stands twice in a row nowhere in the runs and the arguments does not do so in the text
    that `weave` makes of them, if no argument starts or ends with it. -/
theorem not_isInfix_weave {c : Char} {runs args : List Text} (hfits : Fits runs args)
    (hruns : ∀ run ∈ runs, ¬ [c, c] <:+: run)
    (hargs : ∀ arg ∈ args, arg ≠ [] ∧ ¬ [c, c] <:+: arg ∧ arg.head? ≠ some c ∧ arg.getLast? ≠ some c) :
    ¬ [c, c] <:+: weave runs args := by
  induction hfits with
  | last run => simpa using hruns
  | @step run arg runs args _ ih =>
    obtain ⟨hrun, hruns⟩ := List.forall_mem_cons.1 hruns
    obtain ⟨⟨hfilled, harg, hfirst, hlast⟩, hargs⟩ := List.forall_mem_cons.1 hargs
    have hhead : (arg ++ weave runs args).head? = arg.head? := List.head?_append_of_ne_nil _ hfilled
    rw [weave_cons, isInfix_append_iff, isInfix_append_iff, hhead]
    -- in the run, in the argument, behind it, or where two of them meet
    rintro (h | (h | h | ⟨h, -⟩) | ⟨-, h⟩)
    · exact hrun h
    · exact harg h
    · exact ih hruns hargs h
    · exact hlast h
    · exact hfirst h

end BlockScript.Text
