import BlockScript.Proofs.Workspace.Succession

/-!
# Line numbers

Each complaint about a text is due to one of its lines, and reading that line by itself gives it. Lines are
counted from the first one that is written, so the number under which a complaint is logged is that of its
line less the line ends in front of the text.

## Key results

- `Workspace.takeLines_complaints`: each line is logged with its own complaints
- `Vocabulary.parse_numbers`: the numbers in the log, and when they are those of the lines of the text
-/

namespace BlockScript

/-- The line ends in front of everything that is written in a text. -/
def Text.leadingBreaks (t : Text) : Nat := (t.takeWhile isBlank).count '\n'

namespace Vocabulary

/-! ## The complaints about lines -/

/-- The complaints about a line, read by itself. -/
def lineComplaints (v : Vocabulary) (line : Text) : List Complaint :=
  if Text.trim line = [] then []
  else
    match (v.readLine line).result with
    | .error .tooDeep => [.tooDeep]
    | _ => addComplaints [] (v.readLine line).complaints

/-- The complaints about lines, each with the number of its line. -/
def complaintsFrom (v : Vocabulary) (number : Int) : List Text → Log
  | [] => []
  | line :: rest =>
    (v.lineComplaints line).map (fun c => (number, c)) ++ complaintsFrom v (number + 1) rest

/-- The complaints about a text, each with the number of its line in the text as it is given. -/
def complaintsOf (v : Vocabulary) (text : Text) : Log := v.complaintsFrom 1 (Text.lines text)

variable (v : Vocabulary)

/-- Blanks at the ends of a line play no part in its `lineComplaints`. -/
private theorem lineComplaints_trim (line : Text) :
    v.lineComplaints (Text.trim line) = v.lineComplaints line := by
  simp only [lineComplaints, Text.trim_trim, readLine_trim]

/-- `complaintsFrom` is the same for lines that are trimmed first. -/
private theorem complaintsFrom_map_trim (number : Int) (lines : List Text) :
    v.complaintsFrom number (lines.map Text.trim) = v.complaintsFrom number lines := by
  induction lines generalizing number with
  | nil => rfl
  | cons line rest ih => simp only [List.map_cons, complaintsFrom, lineComplaints_trim, ih]

/-- `complaintsFrom` counts on for the lines behind others. -/
private theorem complaintsFrom_append (number : Int) (front back : List Text) :
    v.complaintsFrom number (front ++ back) =
      v.complaintsFrom number front ++ v.complaintsFrom (number + front.length) back := by
  induction front generalizing number with
  | nil => simp [complaintsFrom]
  | cons line rest ih =>
    have hnumber : number + 1 + (rest.length : Int) = number + ((rest.length + 1 : Nat) : Int) := by
      push_cast
      omega
    rw [List.cons_append, complaintsFrom, ih, complaintsFrom, List.append_assoc, List.length_cons, hnumber]

/-- What `complaintsFrom` gives has the numbers of the lines. -/
private theorem number_of_mem_complaintsFrom {number : Int} {lines : List Text} {e : Int × Complaint}
    (h : e ∈ v.complaintsFrom number lines) : number ≤ e.1 ∧ e.1 < number + lines.length := by
  induction lines generalizing number with
  | nil => cases h
  | cons line rest ih =>
    rw [List.length_cons]
    rcases List.mem_append.1 h with h | h
    · obtain ⟨c, -, rfl⟩ := List.mem_map.1 h
      dsimp only
      omega
    · have hrest := ih h
      omega

/-- So what `complaintsFrom` gives about a line is found under its number. -/
theorem about_complaintsFrom (number : Int) (front : List Text) (line : Text) (back : List Text) :
    Log.about (v.complaintsFrom number (front ++ line :: back)) (number + front.length) =
      v.lineComplaints line := by
  have hother : ∀ {log : Log}, (∀ e ∈ log, e.1 ≠ number + front.length) →
      log.filter (fun e => e.1 == number + front.length) = [] := by
    intro log hlog
    rw [List.filter_eq_nil_iff]
    exact fun e he => by simpa using hlog e he
  have hfront := hother fun e he => Int.ne_of_lt (@number_of_mem_complaintsFrom v number front e he).2
  have hback := hother fun e he =>
    Int.ne_of_gt (@number_of_mem_complaintsFrom v (number + front.length + 1) back e he).1
  rw [Log.about, complaintsFrom_append, complaintsFrom, List.filter_append, List.filter_append, hfront, hback]
  simp [List.filter_map, Function.comp_def]

/-- `complaintsFrom` gives nothing for blank lines. -/
private theorem complaintsFrom_blank (number : Int) (n : Nat) :
    v.complaintsFrom number (List.replicate n []) = [] := by
  induction n generalizing number with
  | zero => rfl
  | succ n ih => rw [List.replicate_succ, complaintsFrom, ih]; rfl

/-- Where `complaintsFrom` starts to count plays no part but for the numbers. -/
private theorem complaintsFrom_add (number k : Int) (lines : List Text) :
    v.complaintsFrom (number + k) lines = (v.complaintsFrom number lines).shift k := by
  induction lines generalizing number with
  | nil => rfl
  | cons line rest ih =>
    have hnext : number + k + 1 = number + 1 + k := Int.add_right_comm number k 1
    rw [complaintsFrom, hnext, ih, complaintsFrom, Log.shift_append]
    simp [Log.shift]

end Vocabulary

/-! ## What is logged -/

namespace Workspace

variable {w w' : Workspace}

/-- `takeLine` logs a line with its own `lineComplaints`, whatever has been read before. -/
theorem takeLine_complaints {line : Text} (h : w.takeLine line = (w', none))
    (hpending : w.session.pending = []) :
    w'.log = w.log ++ (w.vocabulary.lineComplaints line).map fun c => (w.line, c) := by
  unfold takeLine at h
  split at h
  · rename_i hblank
    split at h <;> cases h <;> simp [Vocabulary.lineComplaints, hblank, newScript]
  · rename_i hwritten
    simp only [addLine, readLine] at h
    cases hresult : (w.vocabulary.readLine line).result with
    | ok b =>
      simp only [hresult] at h
      cases h
      simp [Vocabulary.lineComplaints, hwritten, hresult, place, complain, Session.record, hpending]
    | error f =>
      -- only a line that is nested too deeply is taken nonetheless, and then there is one complaint
      cases f <;> simp only [hresult, Prod.mk.injEq, reduceCtorEq, and_false] at h
      obtain ⟨rfl, -⟩ := h
      simp [Vocabulary.lineComplaints, hwritten, hresult, place, complain]

/-- `takeLines` logs each line with its own complaints. -/
theorem takeLines_complaints {lines : List Text} (h : takeLines lines w = (w', none))
    (hpending : w.session.pending = []) :
    w'.log = w.log ++ w.vocabulary.complaintsFrom w.line lines := by
  induction lines generalizing w with
  | nil =>
    cases h
    simp [Vocabulary.complaintsFrom]
  | cons line rest ih =>
    rw [takeLines] at h
    split at h
    · rename_i w₁ htaken
      -- a line changes neither the vocabulary nor its own number
      have hvocabulary : w₁.vocabulary = w.vocabulary := (takeLine_takes htaken).vocabulary
      have hnumber : w₁.line = w.line := (takeLine_log htaken).1
      have hpending₁ := takeLine_pending htaken hpending
      rw [ih h hpending₁]
      simp only [hvocabulary, hnumber, takeLine_complaints htaken hpending, Vocabulary.complaintsFrom,
        List.append_assoc]
    · simp at h

end Workspace

namespace Vocabulary

/-- The `complaintsOf` a text are those about what is left of it without the blanks at its ends, further down
    by its `leadingBreaks`. -/
private theorem complaintsOf_eq (v : Vocabulary) (text : Text) :
    v.complaintsOf text =
      (v.complaintsFrom 1 (Workspace.sourceLines text)).shift (Text.leadingBreaks text) := by
  obtain ⟨trail, htext, htrail⟩ := Text.exists_eq_takeWhile_trim text
  have hlead : ∀ c ∈ text.takeWhile Text.isBlank, Text.isBlank c = true :=
    fun c hc => List.mem_takeWhile_imp hc
  -- blanks at the ends of a text are blank lines, and blanks at the ends of its lines
  have hlines : (Text.lines text).map Text.trim =
      List.replicate (Text.leadingBreaks text) [] ++ (Workspace.sourceLines text).map Text.trim ++
        List.replicate (trail.count '\n') [] := by
    conv_lhs => rw [htext]
    rw [Text.map_trim_lines_append_right _ _ htrail, Text.map_trim_lines_append_left _ _ hlead]
    rfl
  rw [complaintsOf, ← complaintsFrom_map_trim, hlines, complaintsFrom_append, complaintsFrom_append,
    complaintsFrom_blank, complaintsFrom_blank, List.nil_append, List.append_nil, List.length_replicate,
    complaintsFrom_add, complaintsFrom_map_trim]

/-- What `parse` logs of a text is `complaintsFrom` its lines, counted from the first one that is written. -/
theorem parse_complaints {v : Vocabulary} {text : Text} {w : Workspace} (h : v.parse text = .ok w) :
    w.log = v.complaintsFrom 1 (Workspace.sourceLines text) := by
  obtain ⟨w₀, hlayOut, rfl⟩ := parse_ok h
  obtain ⟨w₁, htaken, rfl⟩ := layOut_eq_ok.1 hlayOut
  exact Workspace.takeLines_complaints htaken rfl

/-- A complaint in `complaintsOf` a text is logged under the number of its line less the `leadingBreaks` of
    the text. So the numbers are those of the lines exactly if the text starts on its first line, or nothing
    is logged. Line ends put in front of a text change neither its scripts nor the numbers, which move only if
    there is nothing to move. -/
theorem parse_numbers {v : Vocabulary} {text : Text} {w : Workspace} (h : v.parse text = .ok w) :
    w.log = (v.complaintsOf text).map (fun e => (e.1 - (Text.leadingBreaks text : Int), e.2)) ∧
      (w.log = v.complaintsOf text ↔ Text.leadingBreaks text = 0 ∨ w.log = []) ∧
      ∀ k : Nat, v.parse (List.replicate k '\n' ++ text) = .ok w ∧
        (w.log = w.log.map (fun e => (e.1 + (k : Int), e.2)) ↔ k = 0 ∨ w.log = []) := by
  have hgiven : v.complaintsOf text = w.log.shift (Text.leadingBreaks text) := by
    rw [complaintsOf_eq, parse_complaints h]
  refine ⟨?_, ?_, fun k => ⟨?_, ?_⟩⟩
  · have hback := Log.shift_shift w.log (Text.leadingBreaks text) (-(Text.leadingBreaks text))
    rw [← hgiven, Int.add_right_neg, Log.shift_zero] at hback
    exact hback.symm
  · rw [hgiven, eq_comm, Log.shift_eq_self_iff, Int.natCast_eq_zero]
  · -- what is laid out is the text without the blanks at its ends
    have htrim : Text.trim (List.replicate k '\n' ++ text) = Text.trim text :=
      Text.trim_append_left _ _ fun c hc => by rw [List.eq_of_mem_replicate hc]; rfl
    rw [parse_eq, layOut_congr v htrim, ← parse_eq, h]
  · have hmoved := Log.shift_eq_self_iff w.log (k : Int)
    rw [eq_comm, Int.natCast_eq_zero] at hmoved
    exact hmoved

/-- A complaint about the second line, with nothing on the first one. -/
theorem parse_numbers_of_blank_line :
    ∃ w, defining.parse "\nfoo :: bar".toList = .ok w ∧ w.log ≠ [] ∧
      w.log ≠ defining.complaintsOf "\nfoo :: bar".toList ∧
      w.log = (defining.complaintsOf "\nfoo :: bar".toList).map (fun e => (e.1 - 1, e.2)) := by
  have hlog : (defining.parse "\nfoo :: bar".toList).map (fun w => w.log.isEmpty) = .ok false := by
    decide +kernel
  cases hw : defining.parse "\nfoo :: bar".toList with
  | error f =>
    rw [hw] at hlog
    cases hlog
  | ok w =>
    rw [hw] at hlog
    have hfilled : w.log ≠ [] := List.isEmpty_eq_false_iff.1 (Except.ok.inj hlog)
    have hbreaks : Text.leadingBreaks "\nfoo :: bar".toList = 1 := by decide +kernel
    obtain ⟨hless, hsame, -⟩ := parse_numbers hw
    rw [hbreaks] at hless
    -- the numbers agree only without breaks in front, or without complaints
    refine ⟨w, rfl, hfilled, fun h => ?_, hless⟩
    obtain hnone | hnone := hsame.1 h
    · rw [hbreaks] at hnone
      cases hnone
    · exact hfilled hnone

/-- With an empty line in front, the complaint about a line is logged under the number that it has without
    one, and not under that of its line. -/
theorem parse_numbers_not_given :
    ∃ w w', defining.parse "foo :: bar".toList = .ok w ∧
      defining.parse (List.replicate 1 '\n' ++ "foo :: bar".toList) = .ok w' ∧
      w.log = [(1, .unknownOverride "bar".toList)] ∧
      w'.log ≠ w.log.map (fun e => (e.1 + 1, e.2)) ∧
      w'.log ≠ defining.complaintsOf (List.replicate 1 '\n' ++ "foo :: bar".toList) := by
  -- both texts are checked in the same way, so this is said once
  have hparse : ∀ text : Text, (defining.parse text).map Workspace.log =
      .ok [(1, .unknownOverride "bar".toList)] →
        ∃ w, defining.parse text = .ok w ∧ w.log = [(1, .unknownOverride "bar".toList)] := by
    intro text h
    cases hw : defining.parse text with
    | error f =>
      rw [hw] at h
      cases h
    | ok w =>
      rw [hw] at h
      exact ⟨w, rfl, Except.ok.inj h⟩
  obtain ⟨w, hw, hlog⟩ := hparse "foo :: bar".toList (by decide +kernel)
  obtain ⟨w', hw', hlog'⟩ := hparse (List.replicate 1 '\n' ++ "foo :: bar".toList) (by decide +kernel)
  refine ⟨w, w', hw, hw', hlog, ?_, ?_⟩
  · rw [hlog, hlog']
    decide +kernel
  · rw [hlog']
    decide +kernel

end Vocabulary

end BlockScript
