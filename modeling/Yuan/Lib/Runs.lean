import Mathlib.Data.List.Basic
import Mathlib.Logic.Relation

/-! # Runs of a state machine

A machine is a partial step function over operations. A run starts in one state and takes
steps that each meet a condition on the operation and the state before it. -/

namespace Yuan

variable {σ ι : Type}

/-- The states that runs from `start` reach by steps that all meet `allowed`. -/
inductive ReachedBy (step : σ → ι → Option σ) (allowed : σ → ι → Prop) (start : σ) : σ → Prop where
  | start : ReachedBy step allowed start start
  | step {s s' : σ} (op : ι) : ReachedBy step allowed start s → allowed s op →
      step s op = some s' → ReachedBy step allowed start s'

/-- The states reached by any steps. -/
abbrev Reached (step : σ → ι → Option σ) (start : σ) : σ → Prop :=
  ReachedBy step (fun _ _ => True) start

namespace ReachedBy

variable {step : σ → ι → Option σ} {allowed : σ → ι → Prop} {start s s' s'' : σ}

/-- What holds at the start and is kept by every allowed step holds in every reached state. -/
theorem invariant {P : σ → Prop} (hstart : P start) (hstep : ∀ s op s', P s → allowed s op → step s op = some s' → P s')
    (h : ReachedBy step allowed start s) : P s := by
  induction h with
  | start => exact hstart
  | step op _ hallowed hop ih => exact hstep _ op _ ih hallowed hop

theorem mono {allowed' : σ → ι → Prop} (hallowed : ∀ s op, allowed s op → allowed' s op)
    (h : ReachedBy step allowed start s) : ReachedBy step allowed' start s := by
  induction h with
  | start => exact .start
  | step op _ hop hstep ih => exact .step op ih (hallowed _ op hop) hstep

theorem trans (h : ReachedBy step allowed start s) (h' : ReachedBy step allowed s s') :
    ReachedBy step allowed start s' := by
  induction h' with
  | start => exact h
  | step op _ hallowed hop ih => exact .step op ih hallowed hop

end ReachedBy

/-- The state after a list of operations. -/
def runAll (step : σ → ι → Option σ) : σ → List ι → Option σ
  | s, [] => some s
  | s, op :: ops => (step s op).bind fun s' => runAll step s' ops

theorem reached_of_runAll {step : σ → ι → Option σ} {s s' : σ} {ops : List ι}
    (h : runAll step s ops = some s') : Reached step s s' := by
  induction ops generalizing s with
  | nil =>
    cases h
    exact .start
  | cons op ops ih =>
    obtain ⟨t, ht, hrest⟩ := Option.bind_eq_some_iff.mp h
    exact ReachedBy.trans (.step op .start trivial ht) (ih hrest)

/-- A step that is taken only where it meets the condition. -/
def guarded (step : σ → ι → Option σ) (allowed : σ → ι → Prop) [∀ s op, Decidable (allowed s op)]
    (s : σ) (op : ι) : Option σ :=
  if allowed s op then step s op else none

theorem reachedBy_of_runAll {step : σ → ι → Option σ} {allowed : σ → ι → Prop}
    [∀ s op, Decidable (allowed s op)] {s s' : σ} {ops : List ι}
    (h : runAll (guarded step allowed) s ops = some s') : ReachedBy step allowed s s' := by
  refine (reached_of_runAll h).invariant .start fun t op t' ih _ hstep => ?_
  rw [guarded, Option.ite_none_right_eq_some] at hstep
  exact .step op ih hstep.1 hstep.2

/-- A relation that holds of every step, and is reflexive and transitive, holds from end to end. -/
theorem holds_of_steps {r R : σ → σ → Prop} (hrefl : ∀ x, R x x)
    (htrans : ∀ {x y z}, R x y → R y z → R x z) (hstep : ∀ {x y}, r x y → R x y) {x y : σ}
    (h : Relation.ReflTransGen r x y) : R x y := by
  induction h with
  | refl => exact hrefl x
  | tail _ hone ih => exact htrans ih (hstep hone)

/-- What every step keeps, all of them keep. -/
theorem kept_by_steps {r : σ → σ → Prop} {I : σ → Prop} (hstep : ∀ {x y}, r x y → I x → I y) {x y : σ}
    (h : Relation.ReflTransGen r x y) (hx : I x) : I y :=
  holds_of_steps (R := fun x y => I x → I y) (fun _ h => h) (fun h h' hx => h' (h hx)) hstep h hx

end Yuan
