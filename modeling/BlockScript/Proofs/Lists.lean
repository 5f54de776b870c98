import Mathlib.Data.List.Forall2

/-!
# List lemmas

General lemmas about lists that go together entry by entry, as the lines of a text and their blocks do.
-/

namespace BlockScript.Lists

variable {α β γ : Type} {R : α → β → Prop} {S : β → γ → Prop}

/-- With `Forall₂`, every entry of the second list goes with one of the first. -/
theorem exists_left_of_forall₂ {as : List α} {bs : List β} {b : β} (h : List.Forall₂ R as bs)
    (hb : b ∈ bs) : ∃ a ∈ as, R a b := by
  induction h with
  | nil => simp at hb
  | @cons a b' _ _ hab _ ih =>
    rcases List.mem_cons.1 hb with rfl | hb
    · exact ⟨a, List.mem_cons_self, hab⟩
    · obtain ⟨a', ha', hab'⟩ := ih hb
      exact ⟨a', List.mem_cons_of_mem _ ha', hab'⟩

/-- What the relation tells of an entry of the second list holds of all of them. -/
theorem forall_right_of_forall₂ {P : β → Prop} {as : List α} {bs : List β}
    (h : List.Forall₂ R as bs) (hP : ∀ a b, R a b → P b) : ∀ b ∈ bs, P b := by
  intro b hb
  obtain ⟨a, -, hab⟩ := exists_left_of_forall₂ h hb
  exact hP a b hab

/-- With `Forall₂`, what stands at a place of the first list goes with what stands there in the second. -/
theorem exists_getElem?_of_forall₂ {as : List α} {bs : List β} {i : Nat} {a : α}
    (h : List.Forall₂ R as bs) (ha : as[i]? = some a) : ∃ b, bs[i]? = some b ∧ R a b := by
  induction h generalizing i with
  | nil => simp at ha
  | cons hab _ ih =>
    cases i with
    | zero =>
      obtain rfl := Option.some.inj ha
      exact ⟨_, rfl, hab⟩
    | succ i => exact ih ha

/-- Related lists are both empty or both not. -/
theorem isEmpty_eq_of_forall₂ {as : List α} {bs : List β} (h : List.Forall₂ R as bs) :
    bs.isEmpty = as.isEmpty := by
  cases h <;> rfl

/-- Two relations entry by entry, one after the other. -/
theorem forall₂_comp {as : List α} {bs : List β} {cs : List γ} (h : List.Forall₂ R as bs)
    (h' : List.Forall₂ S bs cs) : List.Forall₂ (fun a c => ∃ b, R a b ∧ S b c) as cs := by
  induction h generalizing cs with
  | nil =>
    cases h'
    exact .nil
  | cons hab _ ih =>
    cases h' with
    | cons hbc h' => exact .cons ⟨_, hab, hbc⟩ (ih h')

/-- Entries that go together by `Forall₂` are counted alike. -/
theorem countP_eq_of_forall₂ {p : α → Bool} {q : β → Bool} {as : List α} {bs : List β}
    (h : List.Forall₂ R as bs) (hpq : ∀ a b, R a b → p a = q b) : as.countP p = bs.countP q := by
  induction h with
  | nil => rfl
  | cons hab _ ih => rw [List.countP_cons, List.countP_cons, ih, hpq _ _ hab]

/-- Entries that go together can be replaced by what they have in common. -/
theorem flatMap_eq_of_forall₂ {f : α → List γ} {g : β → List γ} {as : List α} {bs : List β}
    (h : List.Forall₂ R as bs) (hfg : ∀ a b, R a b → f a = g b) : as.flatMap f = bs.flatMap g := by
  induction h with
  | nil => rfl
  | cons hab _ ih => rw [List.flatMap_cons, List.flatMap_cons, ih, hfg _ _ hab]

/-- If each entry gives a part of what the one gives that goes with it, so do all of them. -/
theorem flatMap_sublist_of_forall₂ {f : α → List γ} {g : β → List γ} {as : List α} {bs : List β}
    (h : List.Forall₂ R as bs) (hfg : ∀ a b, R a b → (g b).Sublist (f a)) :
    (bs.flatMap g).Sublist (as.flatMap f) := by
  induction h with
  | nil => exact .slnil
  | cons hab _ ih =>
    rw [List.flatMap_cons, List.flatMap_cons]
    exact (hfg _ _ hab).append ih

/-- Of the entries with a property one is the first. -/
theorem exists_first {P : α → Prop} {as : List α} (h : ∃ a ∈ as, P a) :
    ∃ front a back, as = front ++ a :: back ∧ P a ∧ ∀ b ∈ front, ¬ P b := by
  induction as with
  | nil => simp at h
  | cons a as ih =>
    by_cases ha : P a
    · exact ⟨[], a, as, rfl, ha, by simp⟩
    · have hlater : ∃ b ∈ as, P b := by simpa [ha] using h
      obtain ⟨front, b, back, rfl, hb, hfront⟩ := ih hlater
      exact ⟨a :: front, b, back, rfl, hb, List.forall_mem_cons.2 ⟨ha, hfront⟩⟩

/-- The place at which an entry stands first is unique. -/
theorem append_cons_inj {as bs cs ds : List α} {a : α} (h : as ++ a :: bs = cs ++ a :: ds) (has : a ∉ as)
    (hcs : a ∉ cs) : as = cs ∧ bs = ds := by
  induction as generalizing cs with
  | nil =>
    -- one list ends where the entry stands in the other, and neither holds it
    cases cs with
    | nil => exact ⟨rfl, (List.cons.inj h).2⟩
    | cons c cs => exact absurd ((List.cons.inj h).1 ▸ List.mem_cons_self) hcs
  | cons b as ih =>
    cases cs with
    | nil => exact absurd ((List.cons.inj h).1 ▸ List.mem_cons_self) has
    | cons c cs =>
      obtain ⟨rfl, htail⟩ := List.cons.inj h
      obtain ⟨rfl, rfl⟩ := ih htail (fun hmem => has (List.mem_cons_of_mem b hmem))
        fun hmem => hcs (List.mem_cons_of_mem b hmem)
      exact ⟨rfl, rfl⟩

/-- Entries that give nothing can be left out. -/
theorem flatMap_filter_of_nil {p : α → Bool} {f : α → List β} {as : List α}
    (h : ∀ a, p a = false → f a = []) : (as.filter p).flatMap f = as.flatMap f := by
  induction as with
  | nil => rfl
  | cons a as ih =>
    cases hp : p a with
    | false => rw [List.filter_cons_of_neg (by simp [hp]), ih, List.flatMap_cons, h a hp,
        List.nil_append]
    | true => rw [List.filter_cons_of_pos hp, List.flatMap_cons, List.flatMap_cons, ih]

end BlockScript.Lists
