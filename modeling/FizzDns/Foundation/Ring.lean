import Mathlib.Tactic

/-!
# Rings between two parties

A ring of a fixed number of slots that one party fills and another empties. Both count what
they have done in an index of their own that they publish to the other, so a party can see the
other's progress late, and each keeps a copy of the other's index that it reads again only when
the copy says that there is nothing to do.

`ProdRing` is a ring as its producer sees it, `ConsRing` as its consumer does. An entry is
delivered once and in order; what depends on late publication is how many free slots the
producer finds, never more than there are (`ProdRing.cachedFree_le`).
-/

namespace FizzDns

/-- A ring with its producer's copy of the consumer's index. The copy is kept as the number of
free slots that it shows. -/
structure ProdRing (α : Type) where
  size : Nat
  /-- Submitted and not yet taken by the consumer. -/
  entries : List α
  /-- Taken by the consumer, which has not yet published it. -/
  taken : Nat
  cachedFree : Nat
  bounded : entries.length + taken + cachedFree ≤ size

namespace ProdRing

variable {α : Type}

/-- A new ring: all slots are free and known to be. -/
def empty (size : Nat) : ProdRing α :=
  ⟨size, [], 0, size, by simp⟩

/-- The slots that are free by the consumer's published index. -/
def freeSlots (ring : ProdRing α) : Nat :=
  ring.size - (ring.entries.length + ring.taken)

/-- The producer knows of no more free slots than there are. -/
theorem cachedFree_le (ring : ProdRing α) : ring.cachedFree ≤ ring.freeSlots := by
  have bounded := ring.bounded
  unfold freeSlots
  omega

/-- The consumer's index is read again. -/
def reread (ring : ProdRing α) (within : ring.entries.length + ring.taken ≤ ring.size) :
    ProdRing α :=
  { ring with
    cachedFree := ring.freeSlots
    bounded := by
      unfold freeSlots
      omega }

/-- Look for `wanted` free slots: the consumer's index is read again if the copy shows fewer.
What the copy then shows is the number that is reported. -/
def nbFree (wanted : Nat) (ring : ProdRing α) : ProdRing α :=
  if wanted ≤ ring.cachedFree then ring
  else ring.reread ((Nat.le_add_right _ _).trans ring.bounded)

/-- Reserve slots for all of `items`, fill them and submit; `none` if they are not free. -/
def produce (items : List α) (ring : ProdRing α) : Option (ProdRing α) :=
  let ring := ring.nbFree items.length
  if fits : items.length ≤ ring.cachedFree then
    some
      { ring with
        entries := ring.entries ++ items
        cachedFree := ring.cachedFree - items.length
        bounded := by
          have bounded := ring.bounded
          rw [List.length_append]
          omega }
  else none

/-- The consumer takes the next entry. -/
def take (ring : ProdRing α) : Option (α × ProdRing α) :=
  match shape : ring.entries with
  | [] => none
  | entry :: rest =>
      some (entry,
        { ring with
          entries := rest
          taken := ring.taken + 1
          bounded := by
            have bounded := ring.bounded
            rw [shape, List.length_cons] at bounded
            omega })

/-- The consumer publishes that it has taken `count` more entries. -/
def publish (count : Nat) (ring : ProdRing α) : ProdRing α :=
  { ring with
    taken := ring.taken - count
    bounded := by
      have bounded := ring.bounded
      omega }

variable {ring next : ProdRing α} {items : List α}

@[simp] theorem nbFree_entries (wanted : Nat) : (ring.nbFree wanted).entries = ring.entries := by
  unfold nbFree
  split <;> rfl

/-- Enough slots are reported just when that many are free. -/
theorem le_nbFree_iff {wanted : Nat} :
    wanted ≤ (ring.nbFree wanted).cachedFree ↔ wanted ≤ ring.freeSlots := by
  have shown := ring.cachedFree_le
  unfold nbFree
  split
  · omega
  · rfl

/-- What is known to be free is not looked up again. -/
theorem nbFree_of_le {wanted : Nat} (enough : wanted ≤ ring.cachedFree) :
    ring.nbFree wanted = ring :=
  if_pos enough

/-- What is produced is behind what was there. -/
theorem produce_some (produced : ring.produce items = some next) :
    next.entries = ring.entries ++ items := by
  unfold produce at produced
  simp only at produced
  split at produced
  · cases produced
    simp only [nbFree_entries]
  · cases produced

/-- Slots that the copy shows are there. -/
theorem produce_of_le (enough : items.length ≤ ring.cachedFree) :
    ∃ next, ring.produce items = some next := by
  have fits : items.length ≤ (ring.nbFree items.length).cachedFree := by
    rw [nbFree_of_le enough]
    exact enough
  exact ⟨_, dif_pos fits⟩

/-- The consumer takes the first entry, and the producer does not know. -/
theorem take_some {entry : α} (took : ring.take = some (entry, next)) :
    ring.entries = entry :: next.entries ∧ next.cachedFree = ring.cachedFree := by
  unfold take at took
  split at took
  · cases took
  · next shape =>
      cases took
      exact ⟨shape, rfl⟩

end ProdRing

/-- A ring with its consumer's copy of the producer's index. The copy is kept as the number of
entries that it shows. -/
structure ConsRing (α : Type) where
  size : Nat
  /-- Submitted and not yet looked at by the consumer. -/
  entries : List α
  /-- Looked at by the consumer, which has not yet released the slots. -/
  held : Nat
  cachedAvail : Nat
  bounded : entries.length + held ≤ size
  cached : cachedAvail ≤ entries.length

namespace ConsRing

variable {α : Type}

/-- A new ring. -/
def empty (size : Nat) : ConsRing α :=
  ⟨size, [], 0, 0, Nat.zero_le _, Nat.le_refl _⟩

/-- The producer submits one entry, if there is a free slot. -/
def offer (item : α) (ring : ConsRing α) : Option (ConsRing α) :=
  if room : ring.entries.length + ring.held < ring.size then
    some
      { ring with
        entries := ring.entries ++ [item]
        bounded := by
          rw [List.length_append, List.length_singleton]
          omega
        cached := by
          have cached := ring.cached
          rw [List.length_append]
          omega }
  else none

/-- The entries the consumer knows of; the producer's index is read again if there are none. -/
def nbAvail (ring : ConsRing α) : Nat :=
  if ring.cachedAvail = 0 then ring.entries.length else ring.cachedAvail

/-- The consumer knows of no more entries than there are. -/
theorem nbAvail_le (ring : ConsRing α) : ring.nbAvail ≤ ring.entries.length := by
  unfold nbAvail
  split
  · exact Nat.le_refl _
  · exact ring.cached

/-- Look at the next entries, at most `wanted`. -/
def peek (wanted : Nat) (ring : ConsRing α) : List α × ConsRing α :=
  let count := min ring.nbAvail wanted
  (ring.entries.take count,
    { ring with
      entries := ring.entries.drop count
      held := ring.held + count
      cachedAvail := ring.nbAvail - count
      bounded := by
        have bounded := ring.bounded
        have known := ring.nbAvail_le
        rw [List.length_drop]
        omega
      cached := by
        have known := ring.nbAvail_le
        rw [List.length_drop]
        omega })

/-- The slots of `count` entries that were looked at are free again. -/
def release (count : Nat) (ring : ConsRing α) : ConsRing α :=
  { ring with
    held := ring.held - count
    bounded := by
      have bounded := ring.bounded
      omega }

variable {ring next : ConsRing α}

/-- What is offered is behind what was there. -/
theorem offer_some {item : α} (offered : ring.offer item = some next) :
    next.entries = ring.entries ++ [item] := by
  unfold offer at offered
  split at offered
  · cases offered
    rfl
  · cases offered

/-- What was looked at and what is left are the entries. -/
theorem peek_append (wanted : Nat) :
    (ring.peek wanted).1 ++ (ring.peek wanted).2.entries = ring.entries :=
  List.take_append_drop _ _

@[simp] theorem release_entries (count : Nat) : (ring.release count).entries = ring.entries := rfl

end ConsRing

end FizzDns
