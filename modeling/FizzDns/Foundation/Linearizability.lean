import FizzDns.Foundation.Schedule

/-!
# Histories of a shared object

Clients call the operations of an object and wait for the results; a history lists the calls and
the returns in the order in which they happen. `Object` says what an operation does when it is
executed in one step, and what the object may do by itself between operations.

An object explains a history if it can produce it while it executes every operation in one step
between its call and its return. A system is linearizable with respect to an object if the object
explains the history of every schedule; `Simulation.explains` is the rule for proving it, with a
relation between the states of the system and those of the object.
-/

namespace FizzDns.Linearizability

variable {σ ι op res : Type}

/-- What an operation does to the state of an object, with which result, and what happens to the
state between operations. -/
structure Object (σ op res : Type) where
  apply : op → σ → res → σ → Prop
  drift : σ → σ → Prop

/-- What clients see. -/
inductive Action (ι op res : Type) where
  | call (client : ι) (operation : op)
  | ret (client : ι) (result : res)
  deriving DecidableEq

/-- Where a client of an object is. -/
inductive Client (op res : Type) where
  | idle
  | pending (operation : op)
  | done (result : res)

/-- The state of an object, and its clients. -/
structure Shared (σ ι op res : Type) where
  object : σ
  clients : ι → Client op res

/-- Nobody has called. -/
def Shared.start (object : σ) : Shared σ ι op res where
  object := object
  clients := fun _ => .idle

variable [DecidableEq ι]

/-- A client moves. -/
def Shared.move (s : Shared σ ι op res) (client : ι) (place : Client op res) :
    Shared σ ι op res :=
  { s with clients := Function.update s.clients client place }

section Move

variable {s : Shared σ ι op res} {client other : ι} {place : Client op res}

@[simp] theorem Shared.move_object : (s.move client place).object = s.object := rfl

@[simp] theorem Shared.move_self : (s.move client place).clients client = place :=
  Function.update_self ..

/-- A client moves itself only. -/
theorem Shared.move_of_ne (differ : other ≠ client) :
    (s.move client place).clients other = s.clients other :=
  Function.update_of_ne differ _ _

/-- A client that moves to where it is does nothing. -/
theorem Shared.move_same (here : s.clients client = place) : s.move client place = s := by
  rw [move, ← here, Function.update_eq_self]

end Move

namespace Object

/-- One step of an object with its clients: a call, the execution of a called operation, a return,
or a step of the object by itself. -/
inductive Step (object : Object σ op res) :
    Shared σ ι op res → Option (Action ι op res) → Shared σ ι op res → Prop where
  | call {s : Shared σ ι op res} {client : ι} (operation : op) (idle : s.clients client = .idle) :
      Step object s (some (.call client operation)) (s.move client (.pending operation))
  | execute {s : Shared σ ι op res} {client : ι} {operation : op} {result : res} {after : σ}
      (called : s.clients client = .pending operation)
      (applies : object.apply operation s.object result after) :
      Step object s none ({ s with object := after }.move client (.done result))
  | ret {s : Shared σ ι op res} {client : ι} {result : res}
      (executed : s.clients client = .done result) :
      Step object s (some (.ret client result)) (s.move client .idle)
  | drift {s : Shared σ ι op res} {after : σ} (drifts : object.drift s.object after) :
      Step object s none { s with object := after }

/-- Steps one after the other, with the history they make. -/
inductive Run (object : Object σ op res) :
    Shared σ ι op res → List (Action ι op res) → Shared σ ι op res → Prop where
  | refl (s : Shared σ ι op res) : Run object s [] s
  | head {s next final : Shared σ ι op res} {label : Option (Action ι op res)}
      {history : List (Action ι op res)} (step : Step object s label next)
      (rest : Run object next history final) : Run object s (label.toList ++ history) final

/-- The object, started in a state, can produce a history. -/
def Explains (object : Object σ op res) (start : σ) (history : List (Action ι op res)) : Prop :=
  ∃ final, Run object (.start start) history final

variable {object : Object σ op res} {s next final : Shared σ ι op res}
  {label : Option (Action ι op res)}

/-- A step is a run. -/
theorem Step.run (step : Step object s label next) : Run object s label.toList next := by
  have single := Run.head step (.refl next)
  rwa [List.append_nil] at single

/-- Runs can be put together. -/
theorem Run.append {history later : List (Action ι op res)} (first : Run object s history next)
    (second : Run object next later final) : Run object s (history ++ later) final := by
  induction first with
  | refl => exact second
  | head step _ ih =>
      rw [List.append_assoc]
      exact .head step (ih second)

/-- What every step keeps, every run keeps; the property may speak about the history so far. -/
theorem Run.invariant {history past : List (Action ι op res)}
    {holds : List (Action ι op res) → Shared σ ι op res → Prop}
    (keeps : ∀ past s label next, holds past s → Step object s label next →
      holds (past ++ label.toList) next)
    (run : Run object s history final) (before : holds past s) :
    holds (past ++ history) final := by
  induction run generalizing past with
  | refl => rwa [List.append_nil]
  | head step _ ih =>
      rw [← List.append_assoc]
      exact ih (keeps _ _ _ _ before step)

/-- What a run has done before an action of its history. -/
theorem Run.before {history before after : List (Action ι op res)} {action : Action ι op res}
    (run : Run object s history final) (split : history = before ++ action :: after) :
    ∃ middle next, Run object s before middle ∧ Step object middle (some action) next := by
  induction run generalizing before with
  | refl => simp at split
  | @head s next _ label history step rest ih =>
      cases label with
      | none =>
          obtain ⟨middle, last, first, acts⟩ := ih split
          exact ⟨middle, last, .head step first, acts⟩
      | some shown =>
          cases before with
          | nil =>
              obtain ⟨rfl, _⟩ := List.cons.inj split
              exact ⟨s, next, .refl s, step⟩
          | cons other before =>
              obtain ⟨rfl, rest⟩ := List.cons.inj split
              obtain ⟨middle, last, first, acts⟩ := ih rest
              exact ⟨middle, last, .head step first, acts⟩

end Object

/-! ## Positions in a history -/

/-- Whose action it is. -/
def Action.client : Action ι op res → ι
  | .call client _ => client
  | .ret client _ => client

section Positions

variable {history : List (Action ι op res)} {action other : Action ι op res} {client : ι}
  {position first last : Nat}

/-- A client has done nothing since a position. -/
def Quiet (history : List (Action ι op res)) (client : ι) (position : Nat) : Prop :=
  ∀ later action, position < later → history[later]? = some action → action.client ≠ client

/-- A client has returned between two positions. -/
def ReturnsBetween (history : List (Action ι op res)) (client : ι) (first last : Nat) : Prop :=
  ∃ middle result, first < middle ∧ middle < last ∧ history[middle]? = some (.ret client result)

omit [DecidableEq ι] in
/-- An action of a longer history is an earlier one or the new one. -/
theorem getElem?_concat (found : (history ++ [action])[position]? = some other) :
    history[position]? = some other ∨ position = history.length ∧ action = other := by
  rcases Nat.lt_trichotomy position history.length with inside | rfl | outside
  · rw [List.getElem?_append_left inside] at found
    exact .inl found
  · rw [List.getElem?_concat_length] at found
    exact .inr ⟨rfl, Option.some.inj found⟩
  · rw [List.getElem?_eq_none (by simpa using Nat.succ_le_of_lt outside)] at found
    cases found

omit [DecidableEq ι] in
/-- A position with an action is inside the history. -/
theorem lt_of_getElem? (found : history[position]? = some other) : position < history.length :=
  (List.getElem?_eq_some_iff.mp found).1

omit [DecidableEq ι] in
/-- Later actions do not move earlier ones. -/
theorem getElem?_concat_of (found : history[position]? = some other) :
    (history ++ [action])[position]? = some other := by
  rw [List.getElem?_append_left (lt_of_getElem? found)]
  exact found

omit [DecidableEq ι] in
/-- A client stays quiet while others act. -/
theorem Quiet.concat (quiet : Quiet history client position) (differ : action.client ≠ client) :
    Quiet (history ++ [action]) client position := by
  intro later found after same
  rcases getElem?_concat same with earlier | ⟨_, rfl⟩
  · exact quiet later found after earlier
  · exact differ

omit [DecidableEq ι] in
/-- Nothing has happened since the last action. -/
theorem quiet_concat_length : Quiet (history ++ [action]) client history.length := by
  intro later found after same
  rcases getElem?_concat same with earlier | ⟨rfl, _⟩
  · exact absurd (lt_of_getElem? earlier) (Nat.lt_asymm after)
  · exact absurd after (Nat.lt_irrefl _)

omit [DecidableEq ι] in
/-- A new action is not between two earlier positions. -/
theorem ReturnsBetween.of_concat
    (returns : ReturnsBetween (history ++ [action]) client first last)
    (within : last ≤ history.length) : ReturnsBetween history client first last := by
  obtain ⟨middle, result, after, before, found⟩ := returns
  rcases getElem?_concat found with earlier | ⟨rfl, _⟩
  · exact ⟨middle, result, after, before, earlier⟩
  · exact absurd within (Nat.not_le.mpr before)

omit [DecidableEq ι] in
/-- A quiet client does not return. -/
theorem Quiet.not_returns (quiet : Quiet history client first) :
    ¬ ReturnsBetween history client first last := by
  rintro ⟨middle, result, after, _, found⟩
  exact quiet middle _ after found rfl

omit [DecidableEq ι] in
/-- A client has one last action. -/
theorem Quiet.unique (quiet : Quiet history client first) (also : Quiet history client last)
    (mine : action.client = client) (found : history[first]? = some action)
    (too : other.client = client) (there : history[last]? = some other) : first = last := by
  rcases Nat.lt_trichotomy first last with before | same | after
  · exact absurd too (quiet last other before there)
  · exact same
  · exact absurd mine (also first action after found)

end Positions

/-! ## Simulation -/

variable {ε τ : Type}

/-- A relation between the states of a system and those of an object with clients, such that the
object can follow every allowed event of the system, making the same calls and returns. -/
structure Simulation (object : Object σ op res) (step : ε → τ → Option τ) (allowed : ε → Prop)
    (visible : ε → Option (Action ι op res)) where
  related : τ → Shared σ ι op res → Prop
  follows : ∀ {event state next shared}, allowed event → related state shared →
    step event state = some next →
    ∃ after, object.Run shared (visible event).toList after ∧ related next after

namespace Simulation

variable {object : Object σ op res} {step : ε → τ → Option τ} {allowed : ε → Prop}
  {visible : ε → Option (Action ι op res)}

/-- The object can follow every schedule. -/
theorem run (simulation : Simulation object step allowed visible) {events : List ε}
    {state final : τ} {shared : Shared σ ι op res} (within : ∀ event ∈ events, allowed event)
    (related : simulation.related state shared)
    (done : Schedule.run step events state = some final) :
    ∃ after, object.Run shared (events.filterMap visible) after ∧
      simulation.related final after := by
  induction events generalizing state shared with
  | nil =>
      cases done
      exact ⟨shared, .refl shared, related⟩
  | cons event events ih =>
      obtain ⟨next, stepped, rest⟩ := Schedule.run_cons_eq_some.mp done
      obtain ⟨middle, first, middleRelated⟩ :=
        simulation.follows (within event List.mem_cons_self) related stepped
      obtain ⟨after, second, afterRelated⟩ :=
        ih (fun other member => within other (List.mem_cons_of_mem _ member)) middleRelated rest
      refine ⟨after, ?_, afterRelated⟩
      have whole := first.append second
      cases shown : visible event with
      | none =>
          rw [shown] at whole
          rwa [List.filterMap_cons_none shown]
      | some action =>
          rw [shown] at whole
          rwa [List.filterMap_cons_some shown]

/-- A system that an object simulates from the start is linearizable with respect to it. -/
theorem explains (simulation : Simulation object step allowed visible) {events : List ε}
    {state final : τ} {start : σ} (within : ∀ event ∈ events, allowed event)
    (related : simulation.related state (.start start))
    (done : Schedule.run step events state = some final) :
    object.Explains start (events.filterMap visible) := by
  obtain ⟨after, run, _⟩ := simulation.run within related done
  exact ⟨after, run⟩

end Simulation

end FizzDns.Linearizability
