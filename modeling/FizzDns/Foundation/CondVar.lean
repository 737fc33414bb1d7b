import Mathlib.Data.Finset.Card
import Mathlib.Tactic

/-!
# A condition variable beside a queue

Producers put items into a queue under a mutex, and signal a condition variable after they have
given the mutex back. A consumer that finds the queue empty waits on the condition variable, which
gives the mutex back in the same step; once it is woken it takes the mutex again and looks again.
Whoever closes the queue broadcasts, again after giving the mutex back.

`CondVar` is who waits, who has been woken, and who is still to signal or broadcast. `Attended`
says that no wakeup is lost: while a consumer waits, there is a woken consumer or a signal to come
for every item, and once the queue is closed a broadcast to come. Each way to use the queue has one
rule that keeps it. A signal wakes one consumer, if one waits; POSIX lets it wake more, and lets
consumers wake without a signal, which is `wake`.
-/

namespace FizzDns

variable {κ π : Type}

/-- Consumers that wait and consumers that have been woken; producers that are between their push
and their signal, and whether a broadcast is to come. -/
structure CondVar (κ π : Type) where
  waiting : Finset κ
  woken : Finset κ
  signalling : Finset π
  broadcasting : Bool

namespace CondVar

/-- Nobody waits. -/
def idle : CondVar κ π := ⟨∅, ∅, ∅, false⟩

variable [DecidableEq κ] [DecidableEq π]

/-- A producer has put an item into the queue. -/
def owe (producer : π) (cv : CondVar κ π) : CondVar κ π :=
  { cv with signalling := insert producer cv.signalling }

/-- A waiting consumer is woken. -/
def wake (consumer : κ) (cv : CondVar κ π) : CondVar κ π :=
  { cv with waiting := cv.waiting.erase consumer, woken := insert consumer cv.woken }

/-- `pthread_cond_signal`: one of those who wait is woken, if there is one. -/
def signal (producer : π) (chosen : Option κ) (cv : CondVar κ π) : Option (CondVar κ π) :=
  if producer ∈ cv.signalling then
    let signalled := { cv with signalling := cv.signalling.erase producer }
    match chosen with
    | none => if cv.waiting = ∅ then some signalled else none
    | some consumer => if consumer ∈ cv.waiting then some (signalled.wake consumer) else none
  else none

/-- A consumer has looked at the queue, and goes away with what it got. -/
def leave (consumer : κ) (cv : CondVar κ π) : CondVar κ π :=
  { cv with woken := cv.woken.erase consumer }

/-- `pthread_cond_wait`. -/
def wait (consumer : κ) (cv : CondVar κ π) : CondVar κ π :=
  { cv with waiting := insert consumer cv.waiting, woken := cv.woken.erase consumer }

/-- The queue has been closed. -/
def close (cv : CondVar κ π) : CondVar κ π :=
  { cv with broadcasting := true }

/-- `pthread_cond_broadcast`: all who wait are woken. -/
def broadcast (cv : CondVar κ π) : CondVar κ π :=
  { cv with waiting := ∅, woken := cv.woken ∪ cv.waiting, broadcasting := false }

/-- What a signal leaves. -/
theorem signal_spec {producer : π} {chosen : Option κ} {cv next : CondVar κ π}
    (signalled : cv.signal producer chosen = some next) :
    next.signalling = cv.signalling.erase producer ∧ next.broadcasting = cv.broadcasting ∧
      next.waiting ⊆ cv.waiting ∧ next.woken ⊆ cv.woken ∪ cv.waiting := by
  unfold signal at signalled
  split at signalled
  · cases chosen with
    | none =>
        dsimp only at signalled
        split at signalled
        · cases signalled
          exact ⟨rfl, rfl, Finset.Subset.refl _, Finset.subset_union_left⟩
        · cases signalled
    | some consumer =>
        dsimp only at signalled
        split at signalled
        · next waits =>
            cases signalled
            refine ⟨rfl, rfl, Finset.erase_subset _ _, ?_⟩
            exact Finset.insert_subset (Finset.mem_union_right _ waits) Finset.subset_union_left
        · cases signalled
  · cases signalled

/-- A signal that is to come can come. -/
theorem exists_signal {producer : π} {cv : CondVar κ π} (owes : producer ∈ cv.signalling) :
    ∃ chosen next, cv.signal producer chosen = some next := by
  rcases cv.waiting.eq_empty_or_nonempty with nobody | ⟨consumer, waits⟩
  · exact ⟨none, _, by rw [signal, if_pos owes]; exact if_pos nobody⟩
  · exact ⟨some consumer, _, by rw [signal, if_pos owes]; exact if_pos waits⟩

end CondVar

/-- No wakeup is lost, for a queue with so many items. -/
structure Attended (items : Nat) (closed : Bool) (cv : CondVar κ π) : Prop where
  apart : Disjoint cv.waiting cv.woken
  signalled : cv.waiting.Nonempty → items ≤ cv.woken.card + cv.signalling.card
  announced : closed = true → cv.waiting.Nonempty → cv.broadcasting = true

namespace Attended

variable {items : Nat} {closed : Bool} {cv next : CondVar κ π} {consumer : κ} {producer : π}

/-- Nobody waits at the start. -/
theorem idle (items : Nat) (closed : Bool) : Attended items closed (.idle : CondVar κ π) where
  apart := Finset.disjoint_empty_left _
  signalled := fun nonempty => absurd nonempty Finset.not_nonempty_empty
  announced := fun _ nonempty => absurd nonempty Finset.not_nonempty_empty

variable [DecidableEq κ] [DecidableEq π]

omit [DecidableEq κ] in
/-- A producer puts an item. -/
theorem put (attended : Attended items closed cv) (free : producer ∉ cv.signalling) :
    Attended (items + 1) closed (cv.owe producer) where
  apart := attended.apart
  signalled := fun nonempty => by
    have before := attended.signalled nonempty
    simp only [CondVar.owe, Finset.card_insert_of_notMem free]
    omega
  announced := attended.announced

omit [DecidableEq π] in
/-- A waiting consumer wakes. -/
theorem wake (attended : Attended items closed cv) (waits : consumer ∈ cv.waiting) :
    Attended items closed (cv.wake consumer) where
  apart := by
    simp only [CondVar.wake, Finset.disjoint_insert_right]
    exact ⟨Finset.notMem_erase _ _,
      attended.apart.mono_left (Finset.erase_subset consumer cv.waiting)⟩
  signalled := fun _ => by
    have before := attended.signalled ⟨consumer, waits⟩
    have more : cv.woken.card ≤ (insert consumer cv.woken).card :=
      Finset.card_le_card (Finset.subset_insert _ _)
    exact before.trans (Nat.add_le_add_right more _)
  announced := fun isClosed _ => attended.announced isClosed ⟨consumer, waits⟩

/-- A producer signals: the signal that was to come is a woken consumer now, or nobody waits. -/
theorem signal (attended : Attended items closed cv) {chosen : Option κ}
    (signalled : cv.signal producer chosen = some next) : Attended items closed next := by
  unfold CondVar.signal at signalled
  split at signalled
  · next owes =>
      have fewer : (cv.signalling.erase producer).card + 1 = cv.signalling.card :=
        Finset.card_erase_add_one owes
      cases chosen with
      | none =>
          dsimp only at signalled
          split at signalled
          · next nobody =>
              cases signalled
              have none : ¬ cv.waiting.Nonempty := Finset.not_nonempty_iff_eq_empty.mpr nobody
              exact ⟨attended.apart, fun nonempty => absurd nonempty none, attended.announced⟩
          · cases signalled
      | some consumer =>
          dsimp only at signalled
          split at signalled
          · next waits =>
              cases signalled
              have woke := attended.wake waits
              refine ⟨woke.apart, fun _ => ?_, woke.announced⟩
              have before := attended.signalled ⟨consumer, waits⟩
              have absent : consumer ∉ cv.woken := Finset.disjoint_left.mp attended.apart waits
              simp only [CondVar.wake, Finset.card_insert_of_notMem absent]
              omega
          · cases signalled
  · cases signalled

omit [DecidableEq π] in
/-- A consumer takes an item. -/
theorem take (attended : Attended (items + 1) closed cv) :
    Attended items closed (cv.leave consumer) where
  apart := attended.apart.mono_right (Finset.erase_subset _ _)
  signalled := fun nonempty => by
    have before := attended.signalled nonempty
    have one : cv.woken.card - 1 ≤ (cv.woken.erase consumer).card := Finset.pred_card_le_card_erase
    simp only [CondVar.leave]
    omega
  announced := attended.announced

omit [DecidableEq π] in
/-- A consumer goes away from an empty queue. -/
theorem leave (attended : Attended 0 closed cv) : Attended 0 closed (cv.leave consumer) where
  apart := attended.apart.mono_right (Finset.erase_subset _ _)
  signalled := fun _ => Nat.zero_le _
  announced := attended.announced

omit [DecidableEq π] in
/-- A consumer waits at an empty queue that is open. -/
theorem wait (attended : Attended 0 false cv) : Attended 0 false (cv.wait consumer) where
  apart := by
    simp only [CondVar.wait, Finset.disjoint_insert_left]
    exact ⟨Finset.notMem_erase _ _, attended.apart.mono_right (Finset.erase_subset _ _)⟩
  signalled := fun _ => Nat.zero_le _
  announced := fun isClosed => by cases isClosed

omit [DecidableEq κ] [DecidableEq π] in
/-- The queue is closed. -/
theorem close (attended : Attended items closed cv) : Attended items true cv.close where
  apart := attended.apart
  signalled := attended.signalled
  announced := fun _ _ => rfl

omit [DecidableEq π] in
/-- All who wait are woken. -/
theorem broadcast : Attended items closed cv.broadcast where
  apart := Finset.disjoint_empty_left _
  signalled := fun nonempty => absurd nonempty Finset.not_nonempty_empty
  announced := fun _ nonempty => absurd nonempty Finset.not_nonempty_empty

omit [DecidableEq κ] [DecidableEq π] in
/-- Taking everything out loses no wakeup. -/
theorem fewer (attended : Attended items closed cv) {left : Nat} (less : left ≤ items) :
    Attended left closed cv :=
  { attended with signalled := fun nonempty => less.trans (attended.signalled nonempty) }

end Attended

end FizzDns
