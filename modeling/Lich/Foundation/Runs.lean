import Mathlib.Data.List.Infix
import Mathlib.Data.List.Pairwise

/-! Runs of a deterministic machine, and the order of entries in a journal.

A machine is a step function on states. `Along` says of a run that every step
in it, taken with the state just before it, satisfies a condition. A journal is
the list of what a run recorded, oldest first.
-/

set_option autoImplicit false

namespace Lich.Foundation

section Machine

variable {S Op : Type} (step : Op → S → S)

def runSteps (ops : List Op) (state : S) : S :=
  ops.foldl (fun state op => step op state) state

@[simp] theorem runSteps_nil (state : S) : runSteps step [] state = state := rfl

@[simp] theorem runSteps_cons (op : Op) (ops : List Op) (state : S) :
    runSteps step (op :: ops) state = runSteps step ops (step op state) := rfl

@[simp] theorem runSteps_append (first second : List Op) (state : S) :
    runSteps step (first ++ second) state = runSteps step second (runSteps step first state) :=
  List.foldl_append

/-- Every step of the run meets the condition in the state it is taken from. -/
def Along (ok : S → Op → Prop) : List Op → S → Prop
  | [], _ => True
  | op :: ops, state => ok state op ∧ Along ok ops (step op state)

variable {step} {ok : S → Op → Prop}

instance decidableAlong [∀ state op, Decidable (ok state op)] :
    (ops : List Op) → (state : S) → Decidable (Along step ok ops state)
  | [], _ => .isTrue trivial
  | op :: ops, state =>
    let _ := decidableAlong ops (step op state)
    inferInstanceAs (Decidable (_ ∧ _))

theorem along_append {first second : List Op} {state : S} :
    Along step ok (first ++ second) state ↔
      Along step ok first state ∧ Along step ok second (runSteps step first state) := by
  induction first generalizing state with
  | nil => simp [Along]
  | cons op first ih => simp [Along, ih, and_assoc]

theorem along_iff {ops : List Op} {state : S} :
    Along step ok ops state ↔
      ∀ before op after, ops = before ++ op :: after → ok (runSteps step before state) op := by
  induction ops generalizing state with
  | nil =>
    refine ⟨fun _ before op after same => ?_, fun _ => trivial⟩
    simp at same
  | cons op ops ih =>
    constructor
    · rintro ⟨first, rest⟩ before other after same
      cases before with
      | nil =>
        obtain ⟨rfl, _⟩ := List.cons_eq_cons.mp same
        exact first
      | cons head tail =>
        obtain ⟨rfl, split⟩ := List.cons_eq_cons.mp same
        exact ih.mp rest tail other after split
    · intro each
      exact ⟨each [] op ops rfl, ih.mpr fun before other after same =>
        each (op :: before) other after (by rw [same]; rfl)⟩

theorem Along.mono {weaker : S → Op → Prop} {ops : List Op} {state : S}
    (along : Along step ok ops state) (imp : ∀ state op, ok state op → weaker state op) :
    Along step weaker ops state := by
  induction ops generalizing state with
  | nil => trivial
  | cons op ops ih => exact ⟨imp _ _ along.1, ih along.2⟩

theorem along_of_forall (always : ∀ state op, ok state op) (ops : List Op) (state : S) :
    Along step ok ops state := by
  induction ops generalizing state with
  | nil => trivial
  | cons op ops ih => exact ⟨always _ _, ih _⟩

theorem along_of_mem {ops : List Op} (each : ∀ op ∈ ops, ∀ state, ok state op) (state : S) :
    Along step ok ops state := by
  apply along_iff.mpr
  intro before op after split
  apply each
  simp [split]

theorem Along.invariant {invariant : S → Prop}
    (preserve : ∀ state op, ok state op → invariant state → invariant (step op state))
    {ops : List Op} {state : S} (along : Along step ok ops state) (start : invariant state) :
    invariant (runSteps step ops state) := by
  induction ops generalizing state with
  | nil => exact start
  | cons op ops ih => exact ih along.2 (preserve _ _ along.1 start)

end Machine

section Outputs

variable {S Op B : Type} (step : Op → S → S)

/-- What the steps of a run put out, each in the state that it is taken from. -/
def emitted (emit : S → Op → List B) : List Op → S → List B
  | [], _ => []
  | op :: ops, state => emit state op ++ emitted emit ops (step op state)

variable {step} {emit less : S → Op → List B}

theorem emitted_append (first second : List Op) (state : S) :
    emitted step emit (first ++ second) state =
      emitted step emit first state ++ emitted step emit second (runSteps step first state) := by
  induction first generalizing state with
  | nil => rfl
  | cons op first ih =>
    rw [List.cons_append, emitted, emitted, ih, List.append_assoc]
    rfl

theorem emitted_sublist (part : ∀ state op, (less state op).Sublist (emit state op)) (ops : List Op)
    (state : S) : (emitted step less ops state).Sublist (emitted step emit ops state) := by
  induction ops generalizing state with
  | nil => exact List.Sublist.refl _
  | cons op ops ih => exact (part state op).append (ih _)

/-- Where one output is a part of the other in every step, the two runs put out
the same exactly when all steps do. -/
theorem emitted_eq_iff (part : ∀ state op, (less state op).Sublist (emit state op)) {ops : List Op}
    {state : S} :
    emitted step emit ops state = emitted step less ops state ↔
      Along step (fun state op => emit state op = less state op) ops state := by
  induction ops generalizing state with
  | nil => exact ⟨fun _ => trivial, fun _ => rfl⟩
  | cons op ops ih =>
    rw [emitted, emitted, Along, ← ih]
    constructor
    · intro same
      have first := (part state op).length_le
      have rest : (emitted step less ops (step op state)).length ≤
          (emitted step emit ops (step op state)).length := (emitted_sublist part ops _).length_le
      have sizes := congrArg List.length same
      rw [List.length_append, List.length_append] at sizes
      exact List.append_inj same (by omega)
    · rintro ⟨first, rest⟩
      rw [first, rest]

theorem emitted_filter (keep : B → Bool) (ops : List Op) (state : S) :
    emitted step (fun state op => (emit state op).filter keep) ops state =
      (emitted step emit ops state).filter keep := by
  induction ops generalizing state with
  | nil => rfl
  | cons op ops ih => rw [emitted, emitted, List.filter_append, ih]

end Outputs

section Notes

variable {S Op T : Type} (step : Op → S → S)

/-- What is kept of a run, where each step is noted in the state that it is taken from. -/
def noted (note : S → Op → T → T) : List Op → S → T → T
  | [], _, kept => kept
  | op :: ops, state, kept => noted note ops (step op state) (note state op kept)

variable {step} {note : S → Op → T → T}

theorem noted_append (first second : List Op) (state : S) (kept : T) :
    noted step note (first ++ second) state kept =
      noted step note second (runSteps step first state) (noted step note first state kept) := by
  induction first generalizing state kept with
  | nil => rfl
  | cons op first ih => exact ih _ _

theorem noted_emitted {B : Type} {emit : S → Op → List B} {part : T → List B}
    (grows : ∀ state op kept, part (note state op kept) = part kept ++ emit state op) (ops : List Op)
    (state : S) (kept : T) :
    part (noted step note ops state kept) = part kept ++ emitted step emit ops state := by
  induction ops generalizing state kept with
  | nil => exact (List.append_nil _).symm
  | cons op ops ih => rw [noted, ih, grows, emitted, List.append_assoc]

end Notes

section Simulation

variable {S T Op : Type} {step : Op → S → S} {step' : Op → T → T} {related : S → T → Prop}

theorem runSteps_simulate
    (simulates : ∀ op state state', related state state' → related (step op state) (step' op state'))
    (ops : List Op) {state : S} {state' : T} (same : related state state') :
    related (runSteps step ops state) (runSteps step' ops state') := by
  induction ops generalizing state state' with
  | nil => exact same
  | cons op ops ih => exact ih (simulates op state state' same)

end Simulation

section Journal

variable {E : Type} {first second : E → Prop}

/-- No entry of the second kind stands after one of the first. -/
def NeverAfter (first second : E → Prop) (journal : List E) : Prop :=
  journal.Pairwise fun before after => first before → ¬ second after

instance [DecidablePred first] [DecidablePred second] (journal : List E) :
    Decidable (NeverAfter first second journal) :=
  inferInstanceAs (Decidable (journal.Pairwise _))

@[simp] theorem neverAfter_nil : NeverAfter first second [] := List.Pairwise.nil

theorem neverAfter_append {journal added : List E} :
    NeverAfter first second (journal ++ added) ↔
      NeverAfter first second journal ∧ NeverAfter first second added ∧
        ∀ before ∈ journal, ∀ after ∈ added, first before → ¬ second after :=
  List.pairwise_append

theorem neverAfter_of_none {journal : List E} (none : ∀ entry ∈ journal, ¬ second entry) :
    NeverAfter first second journal :=
  List.pairwise_of_forall_mem_list fun _ _ after member _ => none after member

theorem neverAfter_of_no_first {journal : List E} (none : ∀ entry ∈ journal, ¬ first entry) :
    NeverAfter first second journal :=
  List.pairwise_of_forall_mem_list fun entry member _ _ kind => absurd kind (none entry member)

theorem NeverAfter.tail {journal before after : List E} {entry : E}
    (order : NeverAfter first second journal) (same : journal = before ++ entry :: after)
    (kind : first entry) : ∀ later ∈ after, ¬ second later := by
  subst same
  intro later member
  have rest := (List.pairwise_append.mp order).2.1
  exact (List.pairwise_cons.mp rest).1 later member kind

theorem behind_of_not_mem {front back before after : List E} {entry : E}
    (same : front ++ back = before ++ entry :: after) (none : entry ∉ front) :
    ∃ more, before = front ++ more ∧ back = more ++ entry :: after := by
  rcases List.append_eq_append_iff.mp same with ⟨more, split, rest⟩ | ⟨more, split, rest⟩
  · exact ⟨more, split, rest⟩
  · cases more with
    | nil => exact ⟨[], by simpa using split.symm, by simpa using rest.symm⟩
    | cons head tail =>
      obtain ⟨rfl, _⟩ := List.cons_eq_cons.mp rest
      exact absurd (by simp [split]) none

/-- Whenever an entry of the kind was recorded, the journal up to there had the
property. -/
def Whenever (kind : E → Prop) (holds : List E → Prop) (journal : List E) : Prop :=
  ∀ before entry after, journal = before ++ entry :: after → kind entry → holds before

variable {kind : E → Prop} {holds : List E → Prop}

@[simp] theorem whenever_nil : Whenever kind holds [] := by
  intro before entry after same
  simp at same

theorem whenever_of_none {journal : List E} (none : ∀ entry ∈ journal, ¬ kind entry) :
    Whenever kind holds journal := by
  intro before entry after same found
  exact absurd found (none entry (by simp [same]))

theorem Whenever.mono {weaker : List E → Prop} {journal : List E}
    (whenever : Whenever kind holds journal) (imp : ∀ before, holds before → weaker before) :
    Whenever kind weaker journal :=
  fun before entry after same found => imp before (whenever before entry after same found)

theorem Whenever.append {journal added : List E} (whenever : Whenever kind holds journal)
    (new : ∀ before entry after, added = before ++ entry :: after → kind entry →
      holds (journal ++ before)) : Whenever kind holds (journal ++ added) := by
  intro before entry after same found
  rcases List.append_eq_append_iff.mp same with ⟨more, front, rest⟩ | ⟨more, front, rest⟩
  · rw [front]
    exact new more entry after rest found
  · cases more with
    | nil =>
      rw [List.append_nil] at front
      have start := new [] entry after (by simpa using rest.symm) found
      rwa [List.append_nil, front] at start
    | cons head tail =>
      obtain ⟨rfl, rest⟩ := List.cons_eq_cons.mp rest
      exact whenever before _ tail front found

end Journal

end Lich.Foundation
