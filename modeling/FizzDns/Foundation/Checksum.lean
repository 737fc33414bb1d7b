import Mathlib.Data.Nat.ModEq
import FizzDns.Foundation.Bytes

/-!
# One's-complement sums

The Internet checksum adds 16-bit words and adds every carry out of the top back in at the bottom.
This is addition modulo `65535`, with the one difference that a sum of words that are not all zero
is never `0`, but `65535`. The order of the two bytes of each word does not matter: swapping them
multiplies every word by 256, which is invertible modulo `65535`, so a receiver may check the sum of
the words in one byte order when the sender has filled in the checksum in the other
(`onesSum_netWords_of_host`).
-/

namespace FizzDns

namespace Checksum

/-! ## End-around carry -/

section EndAround

variable (radix : Nat)

/-- Addition of words below the radix, a carry being added back in. -/
def carryAdd (left right : Nat) : Nat :=
  if left + right < radix then left + right else left + right - (radix - 1)

/-- The sum of a list of words, every carry being added back in. -/
def onesSum (words : List Nat) : Nat :=
  words.foldl (carryAdd radix) 0

variable {radix}

/-- A sum with the carry added back fits a word again. -/
theorem carryAdd_lt {left right : Nat} (leftBound : left < radix) (rightBound : right < radix) :
    carryAdd radix left right < radix := by
  unfold carryAdd
  split <;> omega

/-- Adding the carry back does not change the sum modulo `radix - 1`. -/
theorem carryAdd_modEq (left right : Nat) :
    carryAdd radix left right ≡ left + right [MOD radix - 1] := by
  unfold carryAdd
  split
  · rfl
  · exact (Nat.mod_eq_sub_mod (by omega)).symm

/-- The sum is zero only if both terms are: a carry is not lost. -/
theorem carryAdd_eq_zero (positive : 0 < radix) (left right : Nat) :
    carryAdd radix left right = 0 ↔ left + right = 0 := by
  unfold carryAdd
  split <;> omega

/-- A sum with end-around carry is a word, is the sum modulo the radix less one, and vanishes only
if every word does. -/
theorem foldl_carryAdd {words : List Nat} {start : Nat} (bounded : ∀ word ∈ words, word < radix)
    (small : start < radix) :
    words.foldl (carryAdd radix) start < radix ∧
      words.foldl (carryAdd radix) start ≡ start + words.sum [MOD radix - 1] ∧
      (words.foldl (carryAdd radix) start = 0 ↔ start + words.sum = 0) := by
  induction words generalizing start with
  | nil => exact ⟨small, rfl, Iff.rfl⟩
  | cons word rest ih =>
      have wordBound := bounded word List.mem_cons_self
      obtain ⟨below, congruent, zero⟩ :=
        ih (fun other member => bounded other (List.mem_cons_of_mem _ member))
          (carryAdd_lt small wordBound)
      rw [List.foldl_cons, List.sum_cons, ← Nat.add_assoc]
      refine ⟨below, congruent.trans ((carryAdd_modEq start word).add_right _), zero.trans ?_⟩
      have first := carryAdd_eq_zero (Nat.zero_lt_of_lt small) start word
      omega

/-- Words whose sum is a positive multiple of the radix less one add up to the greatest word. -/
theorem onesSum_eq_top {words : List Nat} (bounded : ∀ word ∈ words, word < radix)
    (positive : 0 < words.sum) (balanced : radix - 1 ∣ words.sum) (large : 0 < radix) :
    onesSum radix words = radix - 1 := by
  obtain ⟨below, congruent, zero⟩ := foldl_carryAdd bounded large
  rw [Nat.zero_add] at congruent zero
  have divides : radix - 1 ∣ onesSum radix words :=
    (congruent.dvd_iff (Nat.dvd_refl _)).mpr balanced
  have nonzero : onesSum radix words ≠ 0 := fun none => Nat.ne_of_gt positive (zero.mp none)
  have least := Nat.le_of_dvd (Nat.pos_of_ne_zero nonzero) divides
  have most : onesSum radix words < radix := below
  omega

end EndAround

/-! ## The byte order of words -/

/-- The 16-bit words of a buffer in network byte order, an odd last byte being padded. -/
def netWords : Bytes → List Nat
  | [] => []
  | [last] => [last.toNat * 256]
  | high :: low :: rest => (high.toNat * 256 + low.toNat) :: netWords rest

/-- The sum of the 16-bit words of a buffer in the other byte order. -/
def hostSum : Bytes → Nat
  | [] => 0
  | [last] => last.toNat
  | low :: high :: rest => low.toNat + high.toNat * 256 + hostSum rest

/-- The words of a message have 16 bits. -/
theorem netWords_lt (bytes : Bytes) : ∀ word ∈ netWords bytes, word < 65536 := by
  fun_induction netWords bytes with
  | case1 => simp
  | case2 last =>
      have bound := last.toNat_lt
      simp only [List.mem_singleton, forall_eq]
      omega
  | case3 high low rest ih =>
      have highBound := high.toNat_lt
      have lowBound := low.toNat_lt
      rw [List.forall_mem_cons]
      exact ⟨by omega, ih⟩

/-- A bound on the sum, so that the accumulator of the loop does not overflow. -/
theorem hostSum_le (bytes : Bytes) : hostSum bytes ≤ 65535 * bytes.length := by
  fun_induction hostSum bytes with
  | case1 => exact Nat.zero_le _
  | case2 last =>
      have bound := last.toNat_lt
      simp only [List.length_singleton]
      omega
  | case3 low high rest ih =>
      have lowBound := low.toNat_lt
      have highBound := high.toNat_lt
      simp only [List.length_cons]
      omega

/-- Swapping the bytes of every word multiplies the sum by 256. -/
theorem sum_netWords_modEq (bytes : Bytes) :
    (netWords bytes).sum ≡ 256 * hostSum bytes [MOD 65535] := by
  fun_induction netWords bytes with
  | case1 => rfl
  | case2 last =>
      rw [List.sum_singleton, hostSum, Nat.mul_comm]
  | case3 high low rest ih =>
      rw [List.sum_cons, hostSum, Nat.mul_add]
      refine Nat.ModEq.add ?_ ih
      -- the byte that 256 lifts out of the word comes back in at the bottom
      have split : 256 * (high.toNat + low.toNat * 256) =
          high.toNat * 256 + low.toNat + 65535 * low.toNat := by omega
      rw [split]
      exact (Nat.add_mul_mod_self_left _ _ _).symm

/-- The sum is zero in either byte order or in none. -/
theorem sum_netWords_eq_zero (bytes : Bytes) : (netWords bytes).sum = 0 ↔ hostSum bytes = 0 := by
  fun_induction netWords bytes with
  | case1 => exact Iff.rfl
  | case2 last =>
      rw [List.sum_singleton, hostSum]
      omega
  | case3 high low rest ih =>
      rw [List.sum_cons, hostSum]
      omega

/-- Words may be summed from any even offset on. -/
theorem hostSum_append {front : Bytes} (even : front.length % 2 = 0) (back : Bytes) :
    hostSum (front ++ back) = hostSum front + hostSum back := by
  fun_induction hostSum front with
  | case1 => simp
  | case2 last => simp at even
  | case3 low high rest ih =>
      have shorter : rest.length % 2 = 0 := by
        simp only [List.length_cons] at even
        omega
      rw [List.cons_append, List.cons_append, hostSum, ih shorter]
      omega

/-- **Byte-order independence.** A buffer whose words in one byte order add up to a positive
multiple of 65535 verifies in the other. -/
theorem onesSum_netWords_of_host {bytes : Bytes} (positive : 0 < hostSum bytes)
    (balanced : 65535 ∣ hostSum bytes) : onesSum 65536 (netWords bytes) = 65535 := by
  apply onesSum_eq_top (netWords_lt bytes)
  · exact Nat.pos_of_ne_zero fun none =>
      Nat.ne_of_gt positive ((sum_netWords_eq_zero bytes).mp none)
  · exact ((sum_netWords_modEq bytes).dvd_iff (Nat.dvd_refl _)).mpr (balanced.mul_left 256)
  · decide

end Checksum

end FizzDns
