import Mathlib.Algebra.BigOperators.Fin
import Mathlib.Data.Fintype.Card
import Mathlib.Data.UInt

/-!
# Counters in shards

Threads count in shards that they take from a running number, modulo the number of shards,
and keep for good. A count is a load and a later store, so it is exact only while nobody
else writes the counter in between.

Up to as many threads as there are shards own their shards (`Apart.claim`); a value that
an owner has loaded is then still there when it stores (`Current.store`), and the store
adds one to the total (`Current.total_store`). Two threads of one shard that load before
either stores add one between them (`total_store_twice`).
-/

namespace FizzDns

/-- Counters `κ` in `n` shards, with the running number that the next thread takes and
the shard of every thread that has taken one. -/
structure Sharded (ι κ : Type) (n : Nat) where
  counters : Fin n → κ → UInt64
  next : UInt32
  owned : ι → Option (Fin n)

/-- What a thread holds: nothing, a shard, or a shard and the value that it loaded from
one of the counters and is about to raise. -/
inductive Hold (κ : Type) (n : Nat) where
  | none
  | shard (own : Fin n)
  | loaded (own : Fin n) (counter : κ) (seen : UInt64)

/-- The shard that a thread holds. -/
@[simp]
def Hold.shard? {κ : Type} {n : Nat} : Hold κ n → Option (Fin n)
  | .none => Option.none
  | .shard own => some own
  | .loaded own _ _ => some own

namespace Sharded

variable {ι κ : Type} {n : Nat}

/-- No thread has a shard and every counter is zero. -/
def start : Sharded ι κ n :=
  { counters := fun _ _ => 0, next := 0, owned := fun _ => none }

/-- The shard of a thread, which takes the next one if it has none. -/
def claim [DecidableEq ι] [NeZero n] (thread : ι) (shards : Sharded ι κ n) :
    Fin n × Sharded ι κ n :=
  match shards.owned thread with
  | some shard => (shard, shards)
  | none =>
      let shard := Fin.ofNat n shards.next.toNat
      (shard, { shards with
        next := shards.next + 1
        owned := Function.update shards.owned thread (some shard) })

/-- A thread keeps the shard that it has. -/
theorem claim_of_owned [DecidableEq ι] [NeZero n] {shards : Sharded ι κ n} {thread : ι}
    {shard : Fin n} (owned : shards.owned thread = some shard) :
    shards.claim thread = (shard, shards) := by
  rw [claim, owned]

/-- A thread without a shard takes the next one. -/
theorem claim_of_free [DecidableEq ι] [NeZero n] {shards : Sharded ι κ n} {thread : ι}
    (free : shards.owned thread = none) :
    shards.claim thread = (Fin.ofNat n shards.next.toNat, { shards with
      next := shards.next + 1
      owned := Function.update shards.owned thread (some (Fin.ofNat n shards.next.toNat)) }) := by
  rw [claim, free]

/-- The other threads keep what they have when a thread takes its shard. -/
theorem owned_claim_of_ne [DecidableEq ι] [NeZero n] {thread other : ι}
    (different : other ≠ thread) (shards : Sharded ι κ n) :
    (shards.claim thread).2.owned other = shards.owned other := by
  cases free : shards.owned thread with
  | some own => rw [claim_of_owned free]
  | none =>
      rw [claim_of_free free]
      exact Function.update_of_ne different ..

/-- Store a counter of a shard. -/
def store [DecidableEq κ] (shard : Fin n) (counter : κ) (value : UInt64)
    (shards : Sharded ι κ n) : Sharded ι κ n :=
  { shards with
    counters := Function.update shards.counters shard
      (Function.update (shards.counters shard) counter value) }

/-- Set every counter to zero; the shards stay with their threads. -/
def clear (shards : Sharded ι κ n) : Sharded ι κ n :=
  { shards with counters := fun _ _ => 0 }

/-- A counter summed over the shards. -/
def total (counter : κ) (shards : Sharded ι κ n) : UInt64 :=
  (List.finRange n).foldl (fun sum shard => sum + shards.counters shard counter) 0

/-! ### Totals -/

section Totals

open scoped UInt64.CommRing

variable {shards : Sharded ι κ n} {shard : Fin n} {counter : κ}

/-- The loop over the shards is a sum. -/
theorem total_eq_sum (counter : κ) (shards : Sharded ι κ n) :
    shards.total counter = ∑ shard, shards.counters shard counter := by
  rw [total, Fin.sum_univ_def, List.sum_eq_foldl, List.foldl_map]

/-- Zero counters sum to zero. -/
theorem total_clear (counter : κ) (shards : Sharded ι κ n) : shards.clear.total counter = 0 := by
  rw [total_eq_sum]
  exact Finset.sum_const_zero

/-- The totals before any thread has counted. -/
theorem total_start (counter : κ) : (start : Sharded ι κ n).total counter = 0 :=
  total_clear counter start

/-- Taking a shard changes no counter. -/
@[simp]
theorem counters_claim [DecidableEq ι] [NeZero n] (thread : ι) (shards : Sharded ι κ n) :
    (shards.claim thread).2.counters = shards.counters := by
  unfold claim
  split <;> rfl

/-- Taking a shard changes no total. -/
@[simp]
theorem total_claim [DecidableEq ι] [NeZero n] (thread : ι) (shards : Sharded ι κ n)
    (counter : κ) : (shards.claim thread).2.total counter = shards.total counter := by
  rw [total, total, counters_claim]

variable [DecidableEq κ]

/-- What a stored counter holds. -/
theorem counters_store_self (value : UInt64) :
    (shards.store shard counter value).counters shard counter = value := by
  simp [store]

/-- What a shard's other counters and the other shards hold after a store. -/
theorem counters_store_of_ne {other : Fin n} {kind : κ}
    (different : other ≠ shard ∨ kind ≠ counter) (value : UInt64) :
    (shards.store shard counter value).counters other kind = shards.counters other kind := by
  by_cases same : other = shard
  · subst same
    have apart : kind ≠ counter := different.resolve_left fun apart => apart rfl
    simp [store, apart]
  · simp [store, same]

/-- A store leaves the totals of the other counters. -/
theorem total_store_of_ne {kind : κ} (different : kind ≠ counter) (value : UInt64) :
    (shards.store shard counter value).total kind = shards.total kind := by
  simp only [total, counters_store_of_ne (Or.inr different)]

/-- Raising a counter adds one to its total. -/
theorem total_store_succ :
    (shards.store shard counter (shards.counters shard counter + 1)).total counter =
      shards.total counter + 1 := by
  have column : (fun other => (shards.store shard counter
      (shards.counters shard counter + 1)).counters other counter) =
        Function.update (fun other => shards.counters other counter) shard
          (shards.counters shard counter + 1) := by
    funext other
    by_cases same : other = shard
    · rw [same, counters_store_self, Function.update_self]
    · rw [counters_store_of_ne (Or.inl same), Function.update_of_ne same]
  rw [total_eq_sum, total_eq_sum, column, Finset.sum_update_of_mem (Finset.mem_univ shard),
    Finset.sum_eq_add_sum_sdiff_singleton_of_mem (Finset.mem_univ shard), add_right_comm]

/-- **A lost update.** Two threads that have loaded one counter of one shard, and then both
store what they make of it, add one to the total between them. -/
theorem total_store_twice :
    ((shards.store shard counter (shards.counters shard counter + 1)).store shard counter
      (shards.counters shard counter + 1)).total counter = shards.total counter + 1 := by
  have again : (shards.store shard counter (shards.counters shard counter + 1)).store shard
      counter (shards.counters shard counter + 1) =
        shards.store shard counter (shards.counters shard counter + 1) := by
    simp only [store, Function.update_self, Function.update_idem]
  rw [again, total_store_succ]

end Totals

/-! ### Ownership -/

section Ownership

variable [Fintype ι] {shards : Sharded ι κ n} {thread : ι}

/-- The threads that have a shard. -/
def owners (shards : Sharded ι κ n) : Finset ι :=
  Finset.univ.filter fun thread => (shards.owned thread).isSome

/-- The shards were taken in order from the first, and no two threads have the same. -/
structure Apart (shards : Sharded ι κ n) : Prop where
  taken : shards.next.toNat = shards.owners.card
  below : ∀ thread shard, shards.owned thread = some shard → shard.val < shards.next.toNat
  single : ∀ left right shard,
    shards.owned left = some shard → shards.owned right = some shard → left = right

/-- Before any thread has a shard. -/
theorem apart_start : (start : Sharded ι κ n).Apart := by
  refine ⟨?_, ?_, ?_⟩
  · simp [start, owners]
  · intro thread shard owned
    exact absurd owned (by simp [start])
  · intro left right shard owned
    exact absurd owned (by simp [start])

/-- A store moves no shard. -/
theorem Apart.store [DecidableEq κ] (apart : shards.Apart) (shard : Fin n) (counter : κ)
    (value : UInt64) : (shards.store shard counter value).Apart :=
  ⟨apart.taken, apart.below, apart.single⟩

/-- Setting the counters to zero moves no shard. -/
theorem Apart.clear (apart : shards.Apart) : shards.clear.Apart :=
  ⟨apart.taken, apart.below, apart.single⟩

/-- A thread without a shard leaves room for one more. -/
theorem owners_card_lt (free : shards.owned thread = none) :
    shards.owners.card < Fintype.card ι := by
  have missing : thread ∉ shards.owners := by
    simp [owners, free]
  exact Finset.card_lt_univ_of_notMem missing

variable [DecidableEq ι]

/-- The owners after a thread has taken a shard. -/
theorem card_owners_update (free : shards.owned thread = none) (next : UInt32) (shard : Fin n) :
    ({ shards with next, owned := Function.update shards.owned thread (some shard) } :
      Sharded ι κ n).owners.card = shards.owners.card + 1 := by
  have inserted : ({ shards with
      next, owned := Function.update shards.owned thread (some shard) } :
        Sharded ι κ n).owners = insert thread shards.owners := by
    ext other
    by_cases same : other = thread
    · simp [owners, same]
    · simp [owners, same]
  rw [inserted, Finset.card_insert_of_notMem]
  simp [owners, free]

/-- **Few threads own their shards.** While there are no more threads than shards, the
running number does not come round, so a thread that takes a shard is alone on it. -/
theorem Apart.claim [NeZero n] (apart : shards.Apart) (few : Fintype.card ι ≤ n)
    (small : n < UInt32.size) (thread : ι) : (shards.claim thread).2.Apart := by
  cases free : shards.owned thread with
  | some shard =>
      rw [claim_of_owned free]
      exact apart
  | none =>
      have room : shards.next.toNat < n := by
        rw [apart.taken]
        exact lt_of_lt_of_le (owners_card_lt free) few
      have raised : (shards.next + 1).toNat = shards.next.toNat + 1 := by
        rw [UInt32.toNat_add]
        exact Nat.mod_eq_of_lt (lt_of_le_of_lt room small)
      have number : (Fin.ofNat n shards.next.toNat).val = shards.next.toNat :=
        Nat.mod_eq_of_lt room
      have new : ∀ other, shards.owned other ≠ some (Fin.ofNat n shards.next.toNat) := by
        intro other owned
        have below := apart.below other _ owned
        rw [number] at below
        exact lt_irrefl _ below
      rw [claim_of_free free]
      refine ⟨?_, ?_, ?_⟩
      · rw [card_owners_update free, ← apart.taken]
        exact raised
      · intro other shard owned
        dsimp only at owned ⊢
        rw [raised]
        by_cases same : other = thread
        · rw [same, Function.update_self] at owned
          rw [← Option.some.inj owned, number]
          exact Nat.lt_succ_self _
        · rw [Function.update_of_ne same] at owned
          exact Nat.lt_succ_of_lt (apart.below other shard owned)
      · intro left right shard leftOwned rightOwned
        dsimp only at leftOwned rightOwned
        by_cases leftSame : left = thread <;> by_cases rightSame : right = thread
        · rw [leftSame, rightSame]
        · rw [leftSame, Function.update_self] at leftOwned
          rw [Function.update_of_ne rightSame, ← leftOwned] at rightOwned
          exact absurd rightOwned (new right)
        · rw [rightSame, Function.update_self] at rightOwned
          rw [Function.update_of_ne leftSame, ← rightOwned] at leftOwned
          exact absurd leftOwned (new left)
        · rw [Function.update_of_ne leftSame] at leftOwned
          rw [Function.update_of_ne rightSame] at rightOwned
          exact apart.single left right shard leftOwned rightOwned

end Ownership

/-! ### Loaded values -/

section Loaded

variable {shards later : Sharded ι κ n} {holds : ι → Hold κ n} {thread : ι}
  {shard : Fin n} {counter : κ} {seen : UInt64}

/-- What threads hold is theirs, and what they have loaded is still there. -/
structure Current (shards : Sharded ι κ n) (holds : ι → Hold κ n) : Prop where
  owned : ∀ thread shard, (holds thread).shard? = some shard → shards.owned thread = some shard
  same : ∀ thread shard counter seen,
    holds thread = .loaded shard counter seen → shards.counters shard counter = seen

/-- Before any thread holds anything. -/
theorem current_start : (start : Sharded ι κ n).Current fun _ => .none := by
  refine ⟨?_, ?_⟩
  · intro thread shard held
    exact absurd held (by simp)
  · intro thread shard counter seen held
    exact absurd held (by simp)

/-- With no loaded value around, the counters may be set to zero. -/
theorem Current.clear (current : shards.Current holds)
    (nothing : ∀ thread, holds thread = .none) : shards.clear.Current holds := by
  refine ⟨current.owned, ?_⟩
  intro thread shard counter seen held
  rw [nothing thread] at held
  exact absurd held (by simp)

variable [DecidableEq ι]

/-- A step of one thread keeps what the others hold if it moves none of their shards and
changes no counter that they have loaded. -/
theorem Current.step (current : shards.Current holds) {hold : Hold κ n}
    (own : ∀ shard, hold.shard? = some shard → later.owned thread = some shard)
    (fresh : ∀ shard counter seen,
      hold = .loaded shard counter seen → later.counters shard counter = seen)
    (others : ∀ other, other ≠ thread → later.owned other = shards.owned other)
    (kept : ∀ other, other ≠ thread → ∀ shard counter seen,
      holds other = .loaded shard counter seen →
        later.counters shard counter = shards.counters shard counter) :
    later.Current (Function.update holds thread hold) := by
  refine ⟨?_, ?_⟩
  · intro other shard held
    by_cases same : other = thread
    · subst same
      rw [Function.update_self] at held
      exact own shard held
    · rw [Function.update_of_ne same] at held
      rw [others other same]
      exact current.owned other shard held
  · intro other shard counter seen held
    by_cases same : other = thread
    · subst same
      rw [Function.update_self] at held
      exact fresh shard counter seen held
    · rw [Function.update_of_ne same] at held
      rw [kept other same shard counter seen held]
      exact current.same other shard counter seen held

/-- A thread lets go of its shard. -/
theorem Current.release (current : shards.Current holds) (thread : ι) :
    shards.Current (Function.update holds thread .none) := by
  apply current.step
  · intro shard held
    exact absurd held (by simp)
  · intro shard counter seen held
    exact absurd held (by simp)
  · intro other _
    rfl
  · intro other _ shard counter seen _
    rfl

/-- A thread takes its shard. -/
theorem Current.claim [NeZero n] (current : shards.Current holds) (thread : ι) :
    (shards.claim thread).2.Current
      (Function.update holds thread (.shard (shards.claim thread).1)) := by
  apply current.step
  · intro shard held
    rw [← held, Hold.shard?]
    cases free : shards.owned thread with
    | some own =>
        rw [claim_of_owned free]
        exact free
    | none =>
        rw [claim_of_free free]
        exact Function.update_self ..
  · intro shard counter seen held
    exact absurd held (by simp)
  · intro other different
    exact owned_claim_of_ne different shards
  · intro other _ shard counter seen _
    rw [counters_claim]

/-- A thread loads a counter of the shard that it holds. -/
theorem Current.load (current : shards.Current holds) (held : holds thread = .shard shard)
    (counter : κ) :
    shards.Current (Function.update holds thread
      (.loaded shard counter (shards.counters shard counter))) := by
  apply current.step
  · intro own loaded
    apply current.owned
    rw [held]
    exact loaded
  · intro own kind seen loaded
    cases loaded
    rfl
  · intro other _
    rfl
  · intro other _ own kind seen _
    rfl

variable [DecidableEq κ]

/-- **A single writer.** When a thread stores the counter that it loaded, what the other
threads have loaded is still there, because their shards are others. -/
theorem Current.store [Fintype ι] (current : shards.Current holds) (apart : shards.Apart)
    (held : holds thread = .loaded shard counter seen) (value : UInt64) :
    (shards.store shard counter value).Current
      (Function.update holds thread (.shard shard)) := by
  have mine : shards.owned thread = some shard := by
    apply current.owned
    rw [held, Hold.shard?]
  apply current.step
  · intro own kept
    rw [← kept]
    exact mine
  · intro own kind loaded kept
    exact absurd kept (by simp)
  · intro other _
    rfl
  · intro other different own kind loaded theirs
    apply counters_store_of_ne
    left
    intro equal
    have shared : shards.owned other = some shard := by
      apply current.owned
      rw [theirs, Hold.shard?, equal]
    exact different (apart.single other thread shard shared mine)

omit [DecidableEq ι] in
/-- The store of a loaded counter adds one to its total and nothing to the others. -/
theorem Current.total_store (current : shards.Current holds)
    (held : holds thread = .loaded shard counter seen) (kind : κ) :
    (shards.store shard counter (seen + 1)).total kind =
      shards.total kind + UInt64.ofNat (if counter = kind then 1 else 0) := by
  by_cases same : counter = kind
  · subst same
    rw [if_pos rfl, ← current.same thread shard counter seen held]
    exact total_store_succ
  · rw [if_neg same, total_store_of_ne (Ne.symm same)]
    exact (UInt64.add_zero _).symm

end Loaded

end Sharded

end FizzDns
