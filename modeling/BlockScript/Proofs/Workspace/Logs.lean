import BlockScript.Proofs.Workspace.Lines

/-!
# What is logged

Complaints are logged with the number of the line that is being read, and only written lines have
complaints. So every number in the log is that of a written line of the text, and a report finds the line
that it wants to show.

## Key results

- `Workspace.takeLines_log`: what is logged while lines are taken is about written lines
- `Vocabulary.parse_log`: so is everything that is logged when a text is parsed
- `Workspace.report_isOk`: a log about lines of the text can be reported
-/

namespace BlockScript

/-- The `lines` of a log are those of its entries. -/
private theorem Log.mem_lines {log : Log} {number : Int} :
    number ∈ log.lines ↔ ∃ e ∈ log, e.1 = number := by
  rw [lines, List.mem_mergeSort, List.mem_eraseDups, List.mem_map]

/-- The same entries, a number of lines further down. -/
def Log.shift (log : Log) (k : Int) : Log := log.map fun e => (e.1 + k, e.2)

/-- A log is counted on by `shift` entry by entry. -/
theorem Log.shift_append (log log' : Log) (k : Int) :
    (log ++ log').shift k = log.shift k ++ log'.shift k := List.map_append

theorem Log.shift_zero (log : Log) : log.shift 0 = log := by simp [shift]

/-- To `shift` twice is to count on by the sum. -/
theorem Log.shift_shift (log : Log) (k k' : Int) : (log.shift k).shift k' = log.shift (k + k') := by
  simp [shift, Function.comp_def, Int.add_assoc]

/-- A log is another one after `shift`, unless there is nothing in it. -/
theorem Log.shift_eq_self_iff (log : Log) (k : Int) : log.shift k = log ↔ k = 0 ∨ log = [] := by
  constructor
  · intro h
    cases log with
    | nil => exact .inr rfl
    | cons e rest =>
      have hnumber : e.1 + k = e.1 := congrArg Prod.fst (List.cons.inj h).1
      exact .inl (by omega)
  · rintro (rfl | rfl)
    · exact shift_zero log
    · rfl

/-- Whether a number is that of a written line, counted from one. -/
def IsWrittenLine (lines : List Text) (number : Int) : Prop :=
  ∃ (i : Nat) (line : Text), number = i + 1 ∧ lines[i]? = some line ∧ Text.trim line ≠ []

namespace Workspace

/-! ## Logging -/

/-- `complain` logs complaints one after the other, and none of them is critical. -/
theorem complain_eq_foldl_raise (cs : List Complaint) (w : Workspace) :
    w.complain cs = cs.foldl (fun w c => (w.raise none false c).1) w := by
  induction cs generalizing w with
  | nil => simp [complain]
  | cons c cs ih =>
    have hfirst : w.complain (c :: cs) = complain cs (w.raise none false c).1 := by
      simp [complain, raise, complainAt]
    rw [hfirst, ih, List.foldl_cons]

/-- Reading a line logs complaints about the present line. -/
private theorem readLine_log (line : Text) (w : Workspace) :
    (w.readLine line).1.line = w.line ∧ (w.readLine line).1.source = w.source ∧
      ∃ cs : List Complaint, (w.readLine line).1.log = w.log ++ cs.map fun c => (w.line, c) := by
  simp only [readLine]
  split
  · exact ⟨rfl, rfl, _, rfl⟩
  · exact ⟨rfl, rfl, _, rfl⟩
  · exact ⟨rfl, rfl, [], by simp⟩

/-- So does `takeLine`, and if anything is logged the line is written. -/
theorem takeLine_log {line : Text} {w w' : Workspace} (h : w.takeLine line = (w', none)) :
    w'.line = w.line ∧ w'.source = w.source ∧
      ∀ e ∈ w'.log, e ∈ w.log ∨ e.1 = w.line ∧ Text.trim line ≠ [] := by
  unfold takeLine at h
  split at h
  · -- a blank line may end the script, which logs nothing
    split at h <;> cases h <;> exact ⟨rfl, rfl, fun e he => .inl he⟩
  · rename_i hwritten
    obtain ⟨hline, hsource, cs, hlog⟩ := readLine_log line w
    unfold addLine at h
    -- a written line logs what there is to say about it under the present number
    cases hread : w.readLine line with
    | mk w₁ result =>
      rw [hread] at h hline hsource hlog
      cases result with
      | error f => simp at h
      | ok b =>
        cases h
        refine ⟨hline, hsource, fun e he => ?_⟩
        have he : e ∈ w.log ++ cs.map fun c => (w.line, c) := hlog ▸ he
        rcases List.mem_append.1 he with he | he
        · exact .inl he
        · obtain ⟨c, -, rfl⟩ := List.mem_map.1 he
          exact .inr ⟨rfl, hwritten⟩

/-- What `takeLines` logs is about written lines, if the lines before them are counted and all that has been
    logged is. -/
theorem takeLines_log {before rest : List Text} {w w' : Workspace}
    (h : takeLines rest w = (w', none)) (hline : w.line = (before.length : Int) + 1)
    (hlog : ∀ e ∈ w.log, IsWrittenLine (before ++ rest) e.1) :
    w'.source = w.source ∧ ∀ e ∈ w'.log, IsWrittenLine (before ++ rest) e.1 := by
  induction rest generalizing before w with
  | nil =>
    cases h
    exact ⟨rfl, hlog⟩
  | cons line rest ih =>
    rw [takeLines] at h
    split at h
    · rename_i w₁ htaken
      obtain ⟨hline₁, hsource₁, hlog₁⟩ := takeLine_log htaken
      -- the line that has been taken is now one of those before
      have hmoved : before ++ line :: rest = (before ++ [line]) ++ rest := by simp
      have hnumber : w₁.line + 1 = ((before ++ [line]).length : Int) + 1 := by
        simp [hline₁, hline]
      have hlog' : ∀ e ∈ w₁.log, IsWrittenLine ((before ++ [line]) ++ rest) e.1 := by
        intro e he
        rcases hlog₁ e he with hold | ⟨hpresent, hwritten⟩
        · rw [← hmoved]
          exact hlog e hold
        · exact ⟨before.length, line, by rw [hpresent, hline], by simp, hwritten⟩
      obtain ⟨hsource, hlater⟩ := ih h hnumber hlog'
      rw [hmoved]
      exact ⟨hsource.trans hsource₁, hlater⟩
    · simp at h

/-! ## Reporting -/

/-- A number counted from one finds the line. -/
private theorem exists_lineAt? {w : Workspace} {number : Int} (h : IsWrittenLine w.source number) :
    ∃ line, w.lineAt? number = some line := by
  obtain ⟨i, line, rfl, hline, -⟩ := h
  have hpositive : ¬ (i : Int) + 1 < 1 := by omega
  refine ⟨line, ?_⟩
  simp [lineAt?, hpositive, hline]

/-- `reportLines` can make a report if each number in the log is that of a line. -/
theorem reportLines_isOk {w : Workspace} {entries : List (Int × List Complaint)}
    (h : ∀ e ∈ entries, ∃ line, w.lineAt? e.1 = some line) :
    ∃ t, w.reportLines entries = .ok t := by
  induction entries with
  | nil => exact ⟨[], rfl⟩
  | cons e rest ih =>
    obtain ⟨⟨line, hline⟩, hrest⟩ := List.forall_mem_cons.1 h
    obtain ⟨t, ht⟩ := ih hrest
    exact ⟨_, by rw [reportLines, hline, ht]; rfl⟩

/-- A `log` about lines of the text can be reported. -/
theorem report_isOk {w : Workspace} (h : ∀ e ∈ w.log, IsWrittenLine w.source e.1) :
    ∃ t, w.report = .ok t := by
  apply reportLines_isOk
  intro entry hentry
  obtain ⟨number, hnumber, rfl⟩ := List.mem_map.1 hentry
  obtain ⟨e, he, rfl⟩ := Log.mem_lines.1 hnumber
  exact exists_lineAt? (h e he)

end Workspace

namespace Vocabulary

/-- Everything that `layOut` logs is about a written line of the text. -/
theorem layOut_log {v : Vocabulary} {text : Text} {w : Workspace} (h : v.layOut text = .ok w) :
    w.source = Workspace.sourceLines text ∧
      ∀ e ∈ w.log, IsWrittenLine (Workspace.sourceLines text) e.1 := by
  unfold layOut at h
  dsimp only at h
  split at h
  · rename_i w₁ htaken
    cases h
    -- finishing the last script logs nothing
    have hempty : ∀ e ∈ (Workspace.new v).log, IsWrittenLine ([] ++ Workspace.sourceLines text) e.1 := by
      simp [Workspace.new]
    exact Workspace.takeLines_log htaken rfl hempty
  · cases h

/-- Resolving logs nothing, so this holds for `parse`. -/
theorem parse_log {v : Vocabulary} {text : Text} {w : Workspace} (h : v.parse text = .ok w) :
    w.source = Workspace.sourceLines text ∧
      ∀ e ∈ w.log, IsWrittenLine (Workspace.sourceLines text) e.1 := by
  obtain ⟨w₀, hlayOut, rfl⟩ := parse_ok h
  obtain ⟨hsource, hlog⟩ := layOut_log hlayOut
  exact ⟨hsource, hlog⟩

end Vocabulary

end BlockScript
