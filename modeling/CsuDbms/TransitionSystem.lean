import Mathlib.Data.Option.Basic

/-!
# Guarded runs of a partial step function

A system is a partial step function: `none` means that the action is not
enabled in the state. A guard restricts the states in which an action may be
taken, so that a statement can be made about the runs all of whose steps meet
a condition. Nothing here names a particular system.
-/

namespace CsuDbms.TransitionSystem

variable {State Action : Type*}

/-- States reachable from `first` by steps that all meet `guard`. -/
inductive Reaches (step : State → Action → Option State)
    (guard : State → Action → Prop) (first : State) : State → Prop
  | refl : Reaches step guard first first
  | tail {middle last : State} {action : Action}
      (prior : Reaches step guard first middle)
      (met : guard middle action)
      (taken : step middle action = some last) : Reaches step guard first last

variable {step : State → Action → Option State} {guard : State → Action → Prop} {first last : State}

theorem reaches_invariant (invariant : State → Prop)
    (preserved : ∀ state action next, invariant state → guard state action →
      step state action = some next → invariant next)
    (initial : invariant first) (run : Reaches step guard first last) :
    invariant last := by
  induction run with
  | refl => exact initial
  | tail _ met taken ih => exact preserved _ _ _ ih met taken

theorem reaches_trans {middle : State} (front : Reaches step guard first middle)
    (back : Reaches step guard middle last) : Reaches step guard first last := by
  induction back with
  | refl => exact front
  | tail _ met taken ih => exact ih.tail met taken

theorem reaches_mono {weaker : State → Action → Prop}
    (implies : ∀ state action, guard state action → weaker state action)
    (run : Reaches step guard first last) : Reaches step weaker first last := by
  induction run with
  | refl => exact .refl
  | tail _ met taken ih => exact ih.tail (implies _ _ met) taken

def run (step : State → Action → Option State) (guard : State → Action → Prop)
    [∀ state action, Decidable (guard state action)] : State → List Action → Option State
  | state, [] => some state
  | state, action :: rest =>
    if guard state action then
      (step state action).bind fun next => run step guard next rest
    else none

theorem run_reaches [∀ state action, Decidable (guard state action)]
    {actions : List Action} (ran : run step guard first actions = some last) :
    Reaches step guard first last := by
  induction actions generalizing first with
  | nil =>
    cases ran
    exact .refl
  | cons action rest ih =>
    simp only [run, Option.ite_none_right_eq_some] at ran
    obtain ⟨met, ran⟩ := ran
    obtain ⟨next, taken, remaining⟩ := Option.bind_eq_some_iff.mp ran
    exact reaches_trans (.tail .refl met taken) (ih remaining)

theorem run_get_reaches [∀ state action, Decidable (guard state action)]
    {actions : List Action} (runs : (run step guard first actions).isSome = true) :
    Reaches step guard first ((run step guard first actions).get runs) :=
  run_reaches (Option.some_get runs).symm

end CsuDbms.TransitionSystem
