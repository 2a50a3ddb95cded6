import ComicStream.Foundation.Machine

/-!
# Parts of machines

A part of a machine's state can be a machine of its own, which reads some of the
inputs and is not concerned with the rest. What an observer sees of the outputs is
then the same for all machines with this part. Another part may let inputs pass
that it has no permission for; it is the result of those that are left.
-/

namespace ComicStream.Machine

variable {State Part Input Event Output : Type*}

section Views

variable {step : State → Input → State} {part : State → Part} {view : Input → Option Event}
  {partStep : Part → Event → Part}

/-- The part of a state changes as the events of an input say, and not otherwise. -/
def IsPart (step : State → Input → State) (part : State → Part) (view : Input → Option Event)
    (partStep : Part → Event → Part) : Prop :=
  ∀ state input, part (step state input) = (view input).elim (part state) (partStep (part state))

theorem IsPart.run (h : IsPart step part view partStep) (state : State) (inputs : List Input) :
    part (run step state inputs) = Machine.run partStep (part state) (inputs.filterMap view) := by
  induction inputs generalizing state with
  | nil => rfl
  | cons input rest ih =>
    rw [run_cons, ih, h]
    cases hview : view input with
    | none => rw [List.filterMap_cons_none hview, Option.elim_none]
    | some event => rw [List.filterMap_cons_some hview, Option.elim_some, run_cons]

variable {output : State → Input → Option Output} {partOutput : Part → Event → Option Output}
  {visible : Output → Bool} {invariant : State → Prop}

theorem IsPart.outputs (h : IsPart step part view partStep)
    (hstep : ∀ state input, invariant state → invariant (step state input))
    (houtput : ∀ state input, invariant state →
      (output state input).filter visible = (view input).bind (partOutput (part state)))
    {state : State} (hstate : invariant state) (inputs : List Input) :
    (outputs step output state inputs).filter visible =
      Machine.outputs partStep partOutput (part state) (inputs.filterMap view) := by
  induction inputs generalizing state with
  | nil => rfl
  | cons input rest ih =>
    have hseen : (output state input).toList.filter visible =
        ((view input).bind (partOutput (part state))).toList := by
      rw [← houtput state input hstate]
      cases output state input with
      | none => rfl
      | some out => cases hout : visible out <;> simp [Option.filter, hout]
    rw [Machine.outputs, List.filter_append, hseen, ih (hstep state input hstate), h]
    cases hview : view input with
    | none => rw [List.filterMap_cons_none hview, Option.bind_none, Option.toList_none,
        List.nil_append, Option.elim_none]
    | some event => rw [List.filterMap_cons_some hview, Option.bind_some, Option.elim_some,
        Machine.outputs]

end Views

/-- A part that lets some inputs pass, and takes the others as they are if they are permitted, is the
result of the inputs that it takes. -/
theorem exists_selection {step : State → Input → State} {part : State → Part}
    {partStep : Part → Input → Part} {invariant : State → Prop} {permitted : Input → Prop}
    {optional : Input → Bool}
    (hstep : ∀ state input, invariant state → invariant (step state input))
    (hpart : ∀ state input, invariant state →
      (part (step state input) = partStep (part state) input ∧ permitted input) ∨
        (part (step state input) = part state ∧ optional input = true))
    {state : State} (hstate : invariant state) (inputs : List Input) :
    ∃ selected, selected.Sublist inputs ∧
      selected.filter (!optional ·) = inputs.filter (!optional ·) ∧
      (∀ input ∈ selected, permitted input) ∧
      part (run step state inputs) = run partStep (part state) selected := by
  induction inputs generalizing state with
  | nil => exact ⟨[], .slnil, rfl, by simp, rfl⟩
  | cons input rest ih =>
    obtain ⟨selected, hsub, hfilter, hpermitted, hrun⟩ := ih (hstep state input hstate)
    rcases hpart state input hstate with ⟨hsame, hallowed⟩ | ⟨hsame, hoptional⟩
    · refine ⟨input :: selected, hsub.cons_cons input, ?_,
        List.forall_mem_cons.mpr ⟨hallowed, hpermitted⟩, ?_⟩
      · rw [List.filter_cons, List.filter_cons, hfilter]
      · rw [run_cons, run_cons, hrun, hsame]
    · refine ⟨selected, hsub.cons input, ?_, hpermitted, ?_⟩
      · rw [hfilter, List.filter_cons_of_neg (by simp [hoptional])]
      · rw [run_cons, hrun, hsame]

theorem allowed_of_forall {step : State → Input → State} {allowed : State → Input → Prop}
    (h : ∀ state input, allowed state input) (state : State) (inputs : List Input) :
    Allowed step allowed state inputs := by
  induction inputs generalizing state with
  | nil => trivial
  | cons input rest ih => exact ⟨h state input, ih (step state input)⟩

theorem forall_outputs {step : State → Input → State} {output : State → Input → Option Output}
    {invariant : State → Prop} {good : Output → Prop}
    (hstep : ∀ state input, invariant state → invariant (step state input))
    (hgood : ∀ state input, invariant state → ∀ out ∈ output state input, good out)
    {state : State} (hstate : invariant state) (inputs : List Input) :
    ∀ out ∈ outputs step output state inputs, good out :=
  @forall_outputs_of_allowed _ _ _ step (fun _ _ ↦ True) invariant output good
    (fun state input h _ ↦ hstep state input h) (fun state input h _ ↦ hgood state input h) _ _
    (allowed_of_forall (fun _ _ ↦ trivial) state inputs) hstate

end ComicStream.Machine
