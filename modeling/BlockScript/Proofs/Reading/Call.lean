import BlockScript.Proofs.Reading.Header
import BlockScript.Proofs.Reading.Line
import BlockScript.Proofs.Vocabulary.Bundled

/-!
# Calls of defined blocks

A call is woven from the runs of a header and arguments. If no block with its spec is known, it is read as an
unknown block that may turn out to be a call: its key is the one that the header defines. The spec of the
block that has been read is not that of the line in general, as marks cut its text into pieces, but both have
the same key.

## Key results

- `Line.isWoven_call`: a call is a woven line
- `Line.readLine_call`: it is read as an unknown block, with the key of its runs
-/

namespace BlockScript.Line

/-- A run that is not blank is not empty when the ends are trimmed. -/
private theorem exists_mem_trimEnds_ne_nil {runs : List Text} (h : ∃ run ∈ runs, Text.trim run ≠ []) :
    ∃ run ∈ Fragment.trimEnds runs, run ≠ [] := by
  obtain ⟨run, hrun, hfilled⟩ := h
  by_contra hempty
  have hempty : ∀ run ∈ Fragment.trimEnds runs, run = [] := by simpa using hempty
  have hends := (List.forall₂_and_left _ _).2 ⟨hempty, (Fragment.forall₂_trimEnds runs).flip⟩
  have hblank : ∀ run ∈ runs, Text.trim run = [] := by
    refine Lists.forall_right_of_forall₂ hends ?_
    rintro _ run ⟨rfl, -, htrim⟩
    exact htrim.symm
  exact hfilled (hblank run hrun)

/-- The spec of a call opens no bracket. -/
private theorem ofOpener?_callSpec {runs : List Text} (hruns : ∀ run ∈ runs, IsLiteral run) :
    ∀ c ∈ callSpec runs, Bracket.ofOpener? c = none := by
  intro c hc
  rw [Option.eq_none_iff_forall_ne_some]
  intro b hb
  obtain rfl := Bracket.ofOpener?_eq_some_iff.1 hb
  -- padding puts no brackets there
  have hspace : ' ' ∉ [b.opener] := by cases b <;> decide
  have hslotted := Text.isInfix_of_isInfix_padSlots hspace ((List.singleton_infix_iff _ _).2 hc)
  rcases Text.mem_slotted (hslotted.subset List.mem_cons_self) with hslot | ⟨run, hrun, hmem⟩
  · revert hslot
    cases b <;> decide
  · have hplain := Bracket.ofOpener?_of_isPlain ((forall_mem_trimEnds hruns run hrun).plain _ hmem)
    rw [hplain] at hb
    cases hb

/-- Whether a line that is woven from runs and arguments can be nothing but a call: it is no header, and
    there is no block with its spec. -/
structure IsCall (v : Vocabulary) (runs args : List Text) : Prop where
  fits : Text.Fits runs args
  arguments : ∀ arg ∈ args, IsArgument v.signRule arg
  filled : ∃ run ∈ runs, Text.trim run ≠ []
  unheaded : v.header? (Text.trim (Text.weave runs args)) = none
  unknown : v.find? (callSpec runs) args = .ok none

section Call

variable {folded : Bool} {runs args : List Text} (hruns : ∀ run ∈ runs, IsLiteral run)
  (h : IsCall (Vocabulary.english folded) runs args)

include h in
/-- Trimming a call is trimming its `runs` at the two ends: no argument has a blank there. -/
private theorem trim_call : Text.trim (Text.weave runs args) = Text.weave (Fragment.trimEnds runs) args :=
  Text.trim_weave h.fits fun arg harg => (h.arguments arg harg).isTight

include hruns h

/-- A call `IsWoven` of its trimmed runs and its arguments. -/
theorem isWoven_call : IsWoven (Vocabulary.english folded) (Fragment.trimEnds runs) args where
  fits := h.fits.of_length (Fragment.length_trimEnds runs) rfl
  arguments := h.arguments
  bare := areBare_of_ofOpener?_eq_none
    (fun run hrun c hc => Bracket.ofOpener?_of_isPlain ((forall_mem_trimEnds hruns run hrun).plain c hc)) _ _ _
  literal := fun run hrun => Fragment.leading?_of_ofOpener? fun c hc =>
    Bracket.ofOpener?_of_isPlain ((forall_mem_trimEnds hruns run hrun).plain c hc)
  unslashed := fun run hrun => (forall_mem_trimEnds hruns run hrun).unslashed
  uncoloned := fun run hrun => (forall_mem_trimEnds hruns run hrun).uncoloned
  filled := exists_mem_trimEnds_ne_nil h.filled
  trimmed := by rw [← trim_call h, Text.trim_trim]
  unheaded := by rw [← trim_call h, h.unheaded]

/-- A call is taken for an unknown block. -/
private theorem form_call :
    ∃ parts, parts.flatten = callSpec runs ∧ Fragment.form (Vocabulary.english folded) true
        (Text.weave (Fragment.trimEnds runs) args) =
      .block (Fragment.unknownAttrs (callSpec runs) .stack) [] parts args := by
  refine ⟨_, Fragment.flatten_partsAt _ _, Fragment.form_of_isWoven (isWoven_call hruns h) ?_⟩
  rw [Fragment.identify, ← callSpec, h.unknown, ite_self]

/-- A call is read as an unknown block, and its `key` is that of its `runs`. -/
theorem readLine_call
    (hdeep : ((Vocabulary.english folded).readLine (Text.weave runs args)).result ≠ .error .tooDeep) :
    ∃ b, ((Vocabulary.english folded).readLine (Text.weave runs args)).result = .ok b ∧
      b.attrs.category = some .obsolete ∧ b.attrs.shape = some .stack ∧ b.attrs.flag = none ∧
      b.attrs.calledAs = some ((Vocabulary.english folded).key (callSpec runs)) := by
  obtain ⟨parts, hflatten, hform⟩ := form_call hruns h
  rw [← Vocabulary.readLine_trim, trim_call h] at hdeep ⊢
  obtain ⟨ps, hps, hread⟩ := readLine_ok_of_isWoven (Vocabulary.english_drawable folded)
    (isWoven_call hruns h) hform hdeep
  refine ⟨_, hread, rfl, rfl, rfl, ?_⟩
  have hparts : ∀ part ∈ parts, Bracket.leading? part = none := by
    refine fun part hpart => Fragment.leading?_of_ofOpener? fun c hc => ofOpener?_callSpec hruns c ?_
    rw [← hflatten]
    exact List.mem_flatten.2 ⟨part, hpart, hc⟩
  -- nothing of a call is an argument, so its pieces say its runs again
  have hspec : Piece.spec ps = callSpec runs := by
    rw [Fragment.spec_of_fillSlots hps hparts, hflatten, callSpec, Text.padSlots_padSlots]
  rw [← hspec]
  rfl

/-- `readLine` can read it if `readArgument` can read its arguments. -/
theorem readLine_call_ne_tooDeep
    (hargs : ∀ arg ∈ args, (Fragment.readArgument (Vocabulary.english folded) arg).result.isOk = true) :
    ((Vocabulary.english folded).readLine (Text.weave runs args)).result ≠ .error .tooDeep := by
  obtain ⟨parts, -, hform⟩ := form_call hruns h
  rw [← Vocabulary.readLine_trim, trim_call h]
  intro hdeep
  obtain ⟨arg, harg, herror⟩ := exists_arg_of_isWoven (isWoven_call hruns h) hform hdeep
  have hok := hargs arg harg
  rw [herror] at hok
  cases hok

end Call

end BlockScript.Line
