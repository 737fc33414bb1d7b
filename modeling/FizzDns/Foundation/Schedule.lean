import Mathlib.Algebra.BigOperators.Group.Finset.Basic
import Mathlib.Data.Fintype.BigOperators

/-!
# Schedules

A system of threads is a partial step function: an event names the thread that moves and what it
does, and `none` says that the event cannot happen now. A schedule is a list of events, so a
property of all schedules is a property of all interleavings.
-/

namespace FizzDns.Schedule

variable {ε τ : Type}

/-- Execute a schedule. -/
def run (step : ε → τ → Option τ) : List ε → τ → Option τ
  | [], state => some state
  | event :: events, state => do
      let next ← step event state
      run step events next

variable {step : ε → τ → Option τ} {state next final : τ} {event : ε} {events : List ε}

/-- A run by its first event. -/
theorem run_cons_eq_some :
    run step (event :: events) state = some final ↔
      ∃ next, step event state = some next ∧ run step events next = some final := by
  simp only [run, Option.bind_eq_bind, Option.bind_eq_some_iff]

/-- A run can be cut in two. -/
theorem run_append_eq_some {later : List ε} :
    run step (events ++ later) state = some final ↔
      ∃ next, run step events state = some next ∧ run step later next = some final := by
  induction events generalizing state with
  | nil => simp [run]
  | cons event events ih =>
      simp only [List.cons_append, run_cons_eq_some, ih]
      refine ⟨?_, ?_⟩
      · rintro ⟨next, stepped, middle, before, after⟩
        exact ⟨middle, ⟨next, stepped, before⟩, after⟩
      · rintro ⟨middle, ⟨next, stepped, before⟩, after⟩
        exact ⟨next, stepped, middle, before, after⟩

/-- What every step keeps, every schedule keeps. A step may rely on what is asked of the events,
and the invariant may speak about the events so far. -/
theorem run_invariant {allowed : ε → Prop} {invariant : List ε → τ → Prop}
    (keeps : ∀ past event state next, allowed event → invariant past state →
      step event state = some next → invariant (past ++ [event]) next)
    (within : ∀ event ∈ events, allowed event) {past : List ε} (before : invariant past state)
    (done : run step events state = some final) : invariant (past ++ events) final := by
  induction events generalizing state past with
  | nil =>
      cases done
      rwa [List.append_nil]
  | cons event events ih =>
      obtain ⟨next, stepped, rest⟩ := run_cons_eq_some.mp done
      rw [List.append_cons]
      exact ih (fun other member => within other (List.mem_cons_of_mem _ member))
        (keeps past event state next (within event List.mem_cons_self) before stepped) rest

/-- The same for an invariant of states only. -/
theorem run_keeps_within {allowed : ε → Prop} {invariant : τ → Prop}
    (keeps : ∀ event state next, allowed event → invariant state →
      step event state = some next → invariant next)
    (within : ∀ event ∈ events, allowed event) (before : invariant state)
    (done : run step events state = some final) : invariant final := by
  have kept : ∀ (_ : List ε) event state next, allowed event → invariant state →
      step event state = some next → invariant next := fun _ => keeps
  exact @run_invariant _ _ _ _ _ _ _ _ kept within [] before done

/-- And for events of which nothing is asked. -/
theorem run_keeps {invariant : τ → Prop}
    (keeps : ∀ event state next, invariant state → step event state = some next → invariant next)
    (before : invariant state) (done : run step events state = some final) : invariant final := by
  induction events generalizing state with
  | nil =>
      cases done
      exact before
  | cons event events ih =>
      obtain ⟨next, stepped, rest⟩ := run_cons_eq_some.mp done
      exact ih (keeps event state next before stepped) rest

/-- What threads weigh together after one of them has moved. -/
theorem sum_weight_update {ι α M : Type} [Fintype ι] [DecidableEq ι] [AddCommMonoid M]
    (weight : α → M) (places : ι → α) (thread : ι) (place : α) :
    ∑ other, weight (Function.update places thread place other) + weight (places thread) =
      ∑ other, weight (places other) + weight place := by
  have moved : ∀ other, weight (Function.update places thread place other) =
      Function.update (weight ∘ places) thread (weight place) other := by
    intro other
    exact congrFun (Function.comp_update weight places thread place) other
  have split := Finset.sum_sdiff (f := weight ∘ places)
    (Finset.subset_univ ({thread} : Finset ι))
  rw [Finset.sum_singleton] at split
  simp only [Function.comp_apply] at split
  simp only [moved]
  rw [Finset.sum_update_of_mem (Finset.mem_univ thread), ← split]
  simp only [Function.comp_apply]
  rw [add_assoc, add_comm]

end FizzDns.Schedule
