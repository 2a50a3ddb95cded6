import Mathlib.Data.List.Induction
import Mathlib.Order.Lattice

/-!
# Deterministic machines and their runs

A machine is given by its step function alone; a run folds it over a list of
inputs. The rules below are what a verification of such a machine uses: an
invariant of one step is an invariant of every run, a machine that ignores some
inputs is simulated by one that never sees them, and inputs that carry a time
form a nondecreasing sequence exactly when every prefix does.
-/

namespace ComicStream.Machine

variable {State Abstract Input Event Output : Type*}

/-- The state after all inputs, first input first. -/
def run (step : State → Input → State) (state : State) (inputs : List Input) : State :=
  inputs.foldl step state

@[simp]
theorem run_nil (step : State → Input → State) (state : State) : run step state [] = state := rfl

@[simp]
theorem run_cons (step : State → Input → State) (state : State) (input : Input)
    (rest : List Input) : run step state (input :: rest) = run step (step state input) rest := rfl

@[simp]
theorem run_append (step : State → Input → State) (state : State) (first second : List Input) :
    run step state (first ++ second) = run step (run step state first) second := by
  simp only [run, List.foldl_append]

theorem run_snoc (step : State → Input → State) (state : State) (inputs : List Input)
    (input : Input) : run step state (inputs ++ [input]) = step (run step state inputs) input := by
  simp

/-- An invariant of every step is an invariant of every run. -/
theorem run_invariant {step : State → Input → State} {invariant : State → Prop}
    (hstep : ∀ state input, invariant state → invariant (step state input))
    {state : State} (inputs : List Input) (hstate : invariant state) :
    invariant (run step state inputs) := by
  induction inputs generalizing state with
  | nil => exact hstate
  | cons input rest ih => exact ih (hstep state input hstate)

/-- Every input meets a condition on it and on the state it is read in. -/
def Allowed (step : State → Input → State) (allowed : State → Input → Prop) :
    State → List Input → Prop
  | _, [] => True
  | state, input :: rest => allowed state input ∧ Allowed step allowed (step state input) rest

instance Allowed.decidable (step : State → Input → State) (allowed : State → Input → Prop)
    [∀ state input, Decidable (allowed state input)] :
    (state : State) → (inputs : List Input) → Decidable (Allowed step allowed state inputs)
  | _, [] => inferInstanceAs (Decidable True)
  | state, input :: rest =>
    have := Allowed.decidable step allowed (step state input) rest
    inferInstanceAs (Decidable (allowed state input ∧ Allowed step allowed (step state input) rest))

/-- What the machine puts out, step by step. -/
def outputs (step : State → Input → State) (output : State → Input → Option Output) :
    State → List Input → List Output
  | _, [] => []
  | state, input :: rest =>
    (output state input).toList ++ outputs step output (step state input) rest

theorem outputs_append (step : State → Input → State) (output : State → Input → Option Output)
    (state : State) (first second : List Input) :
    outputs step output state (first ++ second) =
      outputs step output state first ++ outputs step output (run step state first) second := by
  induction first generalizing state with
  | nil => rfl
  | cons input rest ih => rw [List.cons_append, outputs, outputs, ih, run_cons, List.append_assoc]

/-- A relation between the state and all outputs before it is kept by every run when it is by every
step. -/
theorem run_outputs_invariant {step : State → Input → State}
    {output : State → Input → Option Output} {relation : State → List Output → Prop}
    (hstep : ∀ state outs input, relation state outs →
      relation (step state input) (outs ++ (output state input).toList))
    {state : State} {outs : List Output} (inputs : List Input) (h : relation state outs) :
    relation (run step state inputs) (outs ++ outputs step output state inputs) := by
  induction inputs generalizing state outs with
  | nil => simpa [outputs] using h
  | cons input rest ih =>
    rw [outputs, run_cons, ← List.append_assoc]
    exact ih (hstep state outs input h)

section Allowed

variable {step : State → Input → State} {allowed : State → Input → Prop}
  {invariant : State → Prop}

theorem allowed_append {state : State} {first second : List Input} :
    Allowed step allowed state (first ++ second) ↔
      Allowed step allowed state first ∧ Allowed step allowed (run step state first) second := by
  induction first generalizing state with
  | nil => simp [Allowed]
  | cons input rest ih => rw [List.cons_append, Allowed, Allowed, ih, run_cons, and_assoc]

/-- An invariant of the allowed steps is an invariant of the runs of such steps. -/
theorem run_invariant_of_allowed
    (hstep : ∀ state input, invariant state → allowed state input → invariant (step state input))
    {state : State} {inputs : List Input} (hinputs : Allowed step allowed state inputs)
    (hstate : invariant state) : invariant (run step state inputs) := by
  induction inputs generalizing state with
  | nil => exact hstate
  | cons input rest ih => exact ih hinputs.2 (hstep state input hstate hinputs.1)

theorem forall_outputs_of_allowed {output : State → Input → Option Output}
    {good : Output → Prop}
    (hstep : ∀ state input, invariant state → allowed state input → invariant (step state input))
    (hgood : ∀ state input, invariant state → allowed state input →
      ∀ out ∈ output state input, good out)
    {state : State} {inputs : List Input} (hinputs : Allowed step allowed state inputs)
    (hstate : invariant state) : ∀ out ∈ outputs step output state inputs, good out := by
  induction inputs generalizing state with
  | nil => simp [outputs]
  | cons input rest ih =>
    intro out hout
    rw [outputs, List.mem_append, Option.mem_toList] at hout
    rcases hout with hout | hout
    · exact hgood state input hstate hinputs.1 out hout
    · exact ih hinputs.2 (hstep state input hstate hinputs.1) out hout

end Allowed

/-- The times carried by a list of inputs never step back. -/
def Nondecreasing (time : Input → Option ℕ) (inputs : List Input) : Prop :=
  (inputs.filterMap time).Pairwise (· ≤ ·)

instance (time : Input → Option ℕ) (inputs : List Input) :
    Decidable (Nondecreasing time inputs) :=
  inferInstanceAs (Decidable ((inputs.filterMap time).Pairwise (· ≤ ·)))

/-- The latest time of a nondecreasing list, zero when no input carries one. -/
def latest (time : Input → Option ℕ) (inputs : List Input) : ℕ :=
  (inputs.filterMap time).foldl max 0

section Times

variable {time : Input → Option ℕ}

theorem Nondecreasing.of_append {first second : List Input}
    (h : Nondecreasing time (first ++ second)) : Nondecreasing time first := by
  unfold Nondecreasing at h ⊢
  rw [List.filterMap_append, List.pairwise_append] at h
  exact h.1

theorem Nondecreasing.of_append_right {first second : List Input}
    (h : Nondecreasing time (first ++ second)) : Nondecreasing time second := by
  unfold Nondecreasing at h ⊢
  rw [List.filterMap_append, List.pairwise_append] at h
  exact h.2.1

theorem latest_snoc (inputs : List Input) (input : Input) :
    latest time (inputs ++ [input]) = max (latest time inputs) ((time input).getD 0) := by
  cases htime : time input <;> simp [latest, List.filterMap_append, htime]

theorem latest_le {inputs : List Input} {bound : ℕ}
    (h : ∀ now ∈ inputs.filterMap time, now ≤ bound) : latest time inputs ≤ bound := by
  induction inputs using List.reverseRecOn with
  | nil => exact Nat.zero_le _
  | append_singleton inputs input ih =>
    rw [latest_snoc]
    refine max_le (ih fun now hnow ↦ h now (by simp [List.filterMap_append, hnow])) ?_
    cases htime : time input with
    | none => simp
    | some now => exact h now (by simp [List.filterMap_append, htime])

theorem le_latest {inputs : List Input} {now : ℕ} (h : now ∈ inputs.filterMap time) :
    now ≤ latest time inputs := by
  induction inputs using List.reverseRecOn with
  | nil => simp at h
  | append_singleton inputs input ih =>
    rw [latest_snoc]
    rw [List.filterMap_append, List.mem_append] at h
    rcases h with h | h
    · exact (ih h).trans (le_max_left _ _)
    · have htime : time input = some now := by simpa using h
      rw [htime]
      exact le_max_right _ _

theorem Nondecreasing.snoc {inputs : List Input} {input : Input}
    (h : Nondecreasing time inputs) (hle : ∀ now ∈ time input, latest time inputs ≤ now) :
    Nondecreasing time (inputs ++ [input]) := by
  unfold Nondecreasing at h ⊢
  rw [List.filterMap_append, List.pairwise_append]
  refine ⟨h, by cases htime : time input <;> simp [htime], ?_⟩
  intro earlier hearlier now hnow
  have htime : time input = some now := by simpa using hnow
  exact (le_latest hearlier).trans (hle now htime)

theorem Nondecreasing.latest_le {inputs : List Input} {input : Input} {now : ℕ}
    (h : Nondecreasing time (inputs ++ [input])) (htime : time input = some now) :
    latest time inputs ≤ now := by
  apply Machine.latest_le
  unfold Nondecreasing at h
  rw [List.filterMap_append, List.pairwise_append] at h
  intro earlier hearlier
  exact h.2.2 earlier hearlier now (by simp [htime])

theorem Nondecreasing.latest_snoc {inputs : List Input} {input : Input} {now : ℕ}
    (h : Nondecreasing time (inputs ++ [input])) (htime : time input = some now) :
    latest time (inputs ++ [input]) = now := by
  rw [Machine.latest_snoc, htime, Option.getD_some]
  exact max_eq_right (h.latest_le htime)

end Times

/-- **Timed simulation.** The concrete machine reads every input, the abstract one only the
events that `view` lets through. If each step keeps the relation, at times that never step
back, then so does each run. The relation may mention the latest time of the run so far. -/
theorem run_simulates {time : Input → Option ℕ} {view : Input → Option Event}
    {step : State → Input → State} {reference : Abstract → Event → Abstract}
    {relation : ℕ → State → Abstract → Prop}
    (hstep : ∀ (clock : ℕ) (state : State) (abstract : Abstract) (input : Input),
      (∀ now ∈ time input, clock ≤ now) → relation clock state abstract →
      relation (max clock ((time input).getD 0)) (step state input)
        ((view input).elim abstract (reference abstract)))
    {state : State} {abstract : Abstract} (hinit : relation 0 state abstract)
    (inputs : List Input) (htimes : Nondecreasing time inputs) :
    relation (latest time inputs) (run step state inputs)
      (run reference abstract (inputs.filterMap view)) := by
  induction inputs using List.reverseRecOn with
  | nil => exact hinit
  | append_singleton inputs input ih =>
    have hinitial := ih htimes.of_append
    have hnext := hstep _ _ _ input
      (fun now hnow ↦ htimes.latest_le (Option.mem_def.mp hnow)) hinitial
    rw [latest_snoc, run_snoc, List.filterMap_append, run_append]
    cases hview : view input with
    | none => simpa [hview] using hnext
    | some event => simpa [hview] using hnext

end ComicStream.Machine
