import Mathlib.Tactic
import Mathlib.Data.List.Perm.Basic

/-!
# Counting filters with saturating byte counters

A counting filter keeps one byte per slot. Adding a key raises the counters of its
slots, deleting it lowers them again, and a key may be present only if none of its
counters is zero. A counter that has reached 255 is pinned: it has lost its count, so
it is neither raised nor lowered any more.

`Exact slots occupied` is the invariant: each counter is pinned or counts the
occurrences of its slot in the list of occupied slots. It is stated for single counter
updates (`Exact.raise`, `Exact.lower`), so it also speaks about additions and deletions
that are only half done.
-/

namespace FizzDns.CountingFilter

variable {ι : Type} [DecidableEq ι]

/-- The counters. -/
abbrev Slots (ι : Type) := ι → UInt8

/-- Store the counter of a slot after a load saw `seen` there, on the way up. -/
def raiseFrom (seen : UInt8) (slot : ι) (slots : Slots ι) : Slots ι :=
  if seen = 255 then slots else Function.update slots slot (seen + 1)

/-- Store the counter of a slot after a load saw `seen` there, on the way down. -/
def lowerFrom (seen : UInt8) (slot : ι) (slots : Slots ι) : Slots ι :=
  if seen = 0 ∨ seen = 255 then slots else Function.update slots slot (seen - 1)

/-- Raise the counter of a slot. -/
def raise (slot : ι) (slots : Slots ι) : Slots ι :=
  raiseFrom (slots slot) slot slots

/-- Lower the counter of a slot. -/
def lower (slot : ι) (slots : Slots ι) : Slots ι :=
  lowerFrom (slots slot) slot slots

/-- Add a key with the given slots. -/
def add (key : List ι) (slots : Slots ι) : Slots ι :=
  key.foldl (fun current slot => raise slot current) slots

/-- Delete a key with the given slots. -/
def del (key : List ι) (slots : Slots ι) : Slots ι :=
  key.foldl (fun current slot => lower slot current) slots

/-- Whether a key with the given slots may be present. -/
def maybe (key : List ι) (slots : Slots ι) : Bool :=
  key.all fun slot => slots slot ≠ 0

/-- Every counter is pinned or counts the occurrences of its slot among the occupied
ones. -/
def Exact (slots : Slots ι) (occupied : List ι) : Prop :=
  ∀ slot, slots slot = 255 ∨ (slots slot).toNat = occupied.count slot

/-- With every counter at zero nothing is occupied. -/
theorem exact_zero : Exact (fun _ : ι => 0) [] :=
  fun _ => Or.inr rfl

namespace Exact

variable {slots : Slots ι} {occupied : List ι}

/-- The order of the entries does not matter to the counters. -/
theorem perm {other : List ι} (exact : Exact slots occupied) (same : occupied.Perm other) :
    Exact slots other := by
  intro slot
  rw [← same.count_eq slot]
  exact exact slot

/-- Raising a counter counts one more occurrence of its slot. -/
theorem raise (exact : Exact slots occupied) (slot : ι) :
    Exact (CountingFilter.raise slot slots) (slot :: occupied) := by
  intro other
  unfold CountingFilter.raise raiseFrom
  by_cases pinned : slots slot = 255
  · rw [if_pos pinned]
    by_cases same : other = slot
    · exact Or.inl (same ▸ pinned)
    · rw [List.count_cons_of_ne (Ne.symm same)]
      exact exact other
  · rw [if_neg pinned]
    by_cases same : other = slot
    · subst same
      right
      have counted := (exact other).resolve_left pinned
      have below : (slots other).toNat < 255 := by
        have bound := (slots other).toNat_lt
        have differs : (slots other).toNat ≠ 255 := fun equal =>
          pinned (UInt8.toNat_inj.mp equal)
        omega
      rw [Function.update_self, List.count_cons_self, UInt8.toNat_add, ← counted]
      simp only [UInt8.reduceToNat]
      omega
    · rw [Function.update_of_ne same, List.count_cons_of_ne (Ne.symm same)]
      exact exact other

/-- Lowering the counter of an occupied slot counts one occurrence less. -/
theorem lower {slot : ι} (exact : Exact slots (slot :: occupied)) :
    Exact (CountingFilter.lower slot slots) occupied := by
  intro other
  unfold CountingFilter.lower lowerFrom
  by_cases pinned : slots slot = 255
  · rw [if_pos (Or.inr pinned)]
    by_cases same : other = slot
    · exact Or.inl (same ▸ pinned)
    · rw [← List.count_cons_of_ne (Ne.symm same)]
      exact exact other
  · have counted := (exact slot).resolve_left pinned
    rw [List.count_cons_self] at counted
    have nonzero : slots slot ≠ 0 := by
      intro zero
      rw [zero] at counted
      simp at counted
    rw [if_neg (by simp [nonzero, pinned])]
    by_cases same : other = slot
    · subst same
      right
      have positive : (1 : UInt8) ≤ slots other := by
        rw [UInt8.le_iff_toNat_le]
        simp only [UInt8.reduceToNat]
        omega
      rw [Function.update_self, UInt8.toNat_sub_of_le _ _ positive]
      simp only [UInt8.reduceToNat]
      omega
    · rw [Function.update_of_ne same, ← List.count_cons_of_ne (Ne.symm same)]
      exact exact other

/-- Adding a key occupies its slots. -/
theorem add (exact : Exact slots occupied) (key : List ι) :
    Exact (CountingFilter.add key slots) (key ++ occupied) := by
  induction key generalizing slots occupied with
  | nil => exact exact
  | cons slot rest ih =>
      refine (ih (exact.raise slot)).perm ?_
      exact List.perm_middle

/-- Deleting a key whose slots are occupied releases them. -/
theorem del {key : List ι} (exact : Exact slots (key ++ occupied)) :
    Exact (CountingFilter.del key slots) occupied := by
  induction key generalizing slots with
  | nil => exact exact
  | cons slot rest ih => exact ih exact.lower

/-- The counter of an occupied slot is not zero. -/
theorem ne_zero (exact : Exact slots occupied) {slot : ι} (member : slot ∈ occupied) :
    slots slot ≠ 0 := by
  intro zero
  rcases exact slot with pinned | counted
  · rw [zero] at pinned
    cases pinned
  · have positive := List.count_pos_iff.mpr member
    rw [zero] at counted
    simp only [UInt8.reduceToNat] at counted
    omega

/-- A key whose slots are all occupied is never rejected. -/
theorem maybe {key : List ι} (exact : Exact slots occupied) (present : key ⊆ occupied) :
    CountingFilter.maybe key slots = true := by
  simp only [CountingFilter.maybe, List.all_eq_true, decide_eq_true_eq]
  exact fun slot member => exact.ne_zero (present member)

/-- While no counter is pinned, at most as many of them differ from zero as slots are occupied. -/
theorem card_nonzero_le [Fintype ι] (exact : Exact slots occupied)
    (unpinned : ∀ slot, slots slot ≠ 255) :
    (Finset.univ.filter fun slot => slots slot ≠ 0).card ≤ occupied.length := by
  refine (Finset.card_le_card ?_).trans (List.toFinset_card_le occupied)
  intro slot member
  have nonzero : slots slot ≠ 0 := (Finset.mem_filter.mp member).2
  have counted := (exact slot).resolve_left (unpinned slot)
  rw [List.mem_toFinset, ← List.count_pos_iff, ← counted]
  exact Nat.pos_of_ne_zero fun zero => nonzero (UInt8.toNat_inj.mp zero)

end Exact

/-- Keys whose slots are distinct occupy a slot once for each key that uses it. -/
theorem count_flatMap_of_nodup {κ : Type} {slotsOf : κ → List ι}
    (nodup : ∀ key, (slotsOf key).Nodup) (keys : List κ) (slot : ι) :
    (keys.flatMap slotsOf).count slot = keys.countP fun key => slot ∈ slotsOf key := by
  induction keys with
  | nil => rfl
  | cons key rest ih =>
      rw [List.flatMap_cons, List.count_append, ih, List.countP_cons, Nat.add_comm]
      congr 1
      by_cases member : slot ∈ slotsOf key
      · simp [member, List.count_eq_one_of_mem (nodup key) member]
      · simp [member, List.count_eq_zero_of_not_mem member]

/-! ## Pinned counters -/

section Pinned

variable {slots : Slots ι} {pinned : ι}

/-- A pinned counter is not raised. -/
theorem raise_pinned (full : slots pinned = 255) (slot : ι) : raise slot slots pinned = 255 := by
  unfold raise raiseFrom
  split
  · exact full
  · next free =>
      rw [Function.update_of_ne, full]
      rintro rfl
      exact free full

/-- A pinned counter is not lowered. -/
theorem lower_pinned (full : slots pinned = 255) (slot : ι) : lower slot slots pinned = 255 := by
  unfold lower lowerFrom
  split
  · exact full
  · next free =>
      rw [Function.update_of_ne, full]
      rintro rfl
      exact free (Or.inr full)

/-- Additions keep counters pinned. -/
theorem add_pinned (full : slots pinned = 255) (key : List ι) : add key slots pinned = 255 := by
  induction key generalizing slots with
  | nil => exact full
  | cons slot rest ih => exact ih (raise_pinned full slot)

/-- Deletions keep counters pinned. -/
theorem del_pinned (full : slots pinned = 255) (key : List ι) : del key slots pinned = 255 := by
  induction key generalizing slots with
  | nil => exact full
  | cons slot rest ih => exact ih (lower_pinned full slot)

/-- Lowering a counter pins none. -/
theorem lower_unpinned (free : ∀ slot, slots slot ≠ 255) (slot other : ι) :
    lower slot slots other ≠ 255 := by
  unfold lower lowerFrom
  split
  · exact free other
  · next counts =>
      by_cases same : other = slot
      · subst same
        rw [Function.update_self]
        intro full
        apply counts
        left
        have back : slots other = 255 + 1 := by rw [← full, UInt8.sub_add_cancel]
        exact back
      · rw [Function.update_of_ne same]
        exact free other

/-- Deletions pin no counter. -/
theorem del_unpinned (free : ∀ slot, slots slot ≠ 255) (key : List ι) (other : ι) :
    del key slots other ≠ 255 := by
  induction key generalizing slots with
  | nil => exact free other
  | cons slot rest ih => exact ih fun next => lower_unpinned free slot next

end Pinned

end FizzDns.CountingFilter
