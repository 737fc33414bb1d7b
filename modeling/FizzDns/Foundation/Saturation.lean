import Mathlib.Data.List.Infix
import Mathlib.Data.Set.Card

/-!
# Rescanning until nothing is added

A pass over some input reads a list of things seen so far and may append to it. The loop
repeats the pass until the list stops growing, for a bounded number of turns, and its result
is that of the last pass (`saturate_eq`). If the list has a bounded length and there are
turns enough to reach it, the last pass changes nothing (`settle_stable`). A list that has grown to
the size of the set it lists is complete (`mem_of_encard_le_length`).
-/

namespace FizzDns

namespace Saturation

variable {κ ρ : Type}

/-- Repeat the pass until it sees nothing new, at most `more` times after the first. -/
def saturate (seen : ρ → List κ) (pass : List κ → ρ) : (more : Nat) → List κ → ρ
  | 0, start => pass start
  | more + 1, start =>
      if (seen (pass start)).length = start.length then pass start
      else saturate seen pass more (seen (pass start))

/-- What has been seen when the last pass starts. -/
def settle (grow : List κ → List κ) : (more : Nat) → List κ → List κ
  | 0, start => start
  | more + 1, start =>
      if (grow start).length = start.length then start else settle grow more (grow start)

/-- The loop returns what its last pass returns. -/
theorem saturate_eq {seen : ρ → List κ} {pass : List κ → ρ} {grow : List κ → List κ}
    (same : ∀ start, seen (pass start) = grow start) (more : Nat) (start : List κ) :
    saturate seen pass more start = pass (settle grow more start) := by
  induction more generalizing start with
  | zero => rfl
  | succ more ih =>
      rw [saturate, settle, same]
      split
      · rfl
      · exact ih _

variable {grow : List κ → List κ}

/-- What every pass preserves holds when the last pass starts. -/
theorem settle_holds {holds : List κ → Prop} (preserved : ∀ start, holds start → holds (grow start))
    (more : Nat) {start : List κ} (first : holds start) : holds (settle grow more start) := by
  induction more generalizing start with
  | zero => exact first
  | succ more ih =>
      rw [settle]
      split
      · exact first
      · exact ih (preserved start first)

/-- The last pass of a loop with turns enough changes nothing. -/
theorem settle_stable {bound more : Nat} {start : List κ} (grows : ∀ start, start <+: grow start)
    (bounded : ∀ start, start.length ≤ bound → (grow start).length ≤ bound)
    (small : start.length ≤ bound) (enough : bound ≤ start.length + more) :
    grow (settle grow more start) = settle grow more start := by
  induction more generalizing start with
  | zero =>
      have full := bounded start small
      exact ((grows start).eq_of_length_le (by omega)).symm
  | succ more ih =>
      rw [settle]
      split
      · next unchanged => exact ((grows start).eq_of_length unchanged.symm).symm
      · next grown =>
          have longer := (grows start).length_le
          exact ih (bounded start small) (by omega)

/-- As many different members of a set as it has at most are all of them. -/
theorem mem_of_encard_le_length {α : Type} {names : Set α} {listed : List α}
    (nodup : listed.Nodup) (within : ∀ name ∈ listed, name ∈ names)
    (few : names.encard ≤ listed.length) {name : α} (member : name ∈ names) : name ∈ listed := by
  classical
  have size : (listed.toFinset : Set α).encard = listed.length := by
    rw [Set.encard_coe_eq_coe_finsetCard, List.toFinset_card_of_nodup nodup]
  have subset : (listed.toFinset : Set α) ⊆ names :=
    fun other inside => within other (List.mem_toFinset.mp inside)
  have same := listed.toFinset.finite_toSet.eq_of_subset_of_encard_le subset (few.trans size.ge)
  rw [← same] at member
  exact List.mem_toFinset.mp member

end Saturation

end FizzDns
