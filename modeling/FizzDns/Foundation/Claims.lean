import Mathlib.Tactic

/-!
# What threads claim

Threads share a table of handles, a counter and a lock. The claims of a thread, at the place
where it is, are the handles it owns, the entries of the table that are its own, how often the
counter has counted it, and whether it is inside the lock. Claims add up over threads.

`ClaimsAccounted` says that the shared state is what all claims together say: no handle is claimed
twice, the table consists of the claimed entries, the counter counts the threads that claim to
be counted, and the lock is taken just while a thread is inside. Each rule below is for one way
to change the shared state together with the claims.
-/

namespace FizzDns

/-- Handles, entries of a table, the share in a counter and the number of threads inside the
lock. An entry is for a handle that is claimed too. -/
@[ext]
structure Claims (κ α : Type) where
  handles : Multiset α
  entries : Multiset (κ × α)
  counted : Nat
  inside : Nat
  within : entries.map Prod.snd ≤ handles

namespace Claims

variable {κ α : Type}

instance : Zero (Claims κ α) := ⟨⟨0, 0, 0, 0, by simp⟩⟩

instance : Add (Claims κ α) :=
  ⟨fun left right =>
    { handles := left.handles + right.handles
      entries := left.entries + right.entries
      counted := left.counted + right.counted
      inside := left.inside + right.inside
      within := by
        rw [Multiset.map_add]
        exact add_le_add left.within right.within }⟩

@[simp] theorem zero_handles : (0 : Claims κ α).handles = 0 := rfl

@[simp] theorem zero_entries : (0 : Claims κ α).entries = 0 := rfl

@[simp] theorem zero_counted : (0 : Claims κ α).counted = 0 := rfl

@[simp] theorem zero_inside : (0 : Claims κ α).inside = 0 := rfl

/-- Threads claim together what each of them claims. -/
@[simp] theorem add_handles (left right : Claims κ α) :
    (left + right).handles = left.handles + right.handles := rfl

@[simp] theorem add_entries (left right : Claims κ α) :
    (left + right).entries = left.entries + right.entries := rfl

@[simp] theorem add_counted (left right : Claims κ α) :
    (left + right).counted = left.counted + right.counted := rfl

@[simp] theorem add_inside (left right : Claims κ α) :
    (left + right).inside = left.inside + right.inside := rfl

instance : AddCommMonoid (Claims κ α) where
  add_assoc first second third := by ext1 <;> simp [add_assoc]
  zero_add claims := by ext1 <;> simp
  add_zero claims := by ext1 <;> simp
  add_comm left right := by ext1 <;> simp [add_comm]
  nsmul := nsmulRec

/-- Entries claim different handles if no handle is claimed twice. -/
theorem entries_nodup {claims : Claims κ α} (nodup : claims.handles.Nodup) :
    claims.entries.Nodup :=
  Multiset.Nodup.of_map _ (Multiset.nodup_of_le claims.within nodup)

/-- The handle of an entry is claimed. -/
theorem mem_handles {claims : Claims κ α} {key : κ} {handle : α}
    (entry : (key, handle) ∈ claims.entries) : handle ∈ claims.handles :=
  Multiset.mem_of_le claims.within (Multiset.mem_map_of_mem Prod.snd entry)

/-- A handle that is claimed once has one entry at most. -/
theorem key_unique {claims : Claims κ α} (nodup : claims.handles.Nodup) {left right : κ}
    {handle : α} (first : (left, handle) ∈ claims.entries)
    (second : (right, handle) ∈ claims.entries) : left = right := by
  have apart := Multiset.nodup_of_le claims.within nodup
  have same := Multiset.inj_on_of_nodup_map apart _ first _ second rfl
  exact congrArg Prod.fst same

/-- Every entry of a sum is one of a summand. -/
theorem mem_entries_sum {claims : Multiset (Claims κ α)} {entry : κ × α}
    (mem : entry ∈ claims.sum.entries) : ∃ part ∈ claims, entry ∈ part.entries := by
  induction claims using Multiset.induction with
  | empty => simp at mem
  | cons head rest ih =>
      rw [Multiset.sum_cons, add_entries, Multiset.mem_add] at mem
      rcases mem with mem | mem
      · exact ⟨head, Multiset.mem_cons_self _ _, mem⟩
      · obtain ⟨part, listed, mem⟩ := ih mem
        exact ⟨part, Multiset.mem_cons_of_mem listed, mem⟩

/-- A summand has no more threads inside the lock than the sum. -/
theorem inside_le_sum {claims : Multiset (Claims κ α)} {part : Claims κ α} (mem : part ∈ claims) :
    part.inside ≤ claims.sum.inside := by
  obtain ⟨rest, rfl⟩ := Multiset.exists_cons_of_mem mem
  rw [Multiset.sum_cons, add_inside]
  exact Nat.le_add_right _ _

end Claims

/-- The shared state is what the claims say. -/
structure ClaimsAccounted {κ α : Type} (table : κ → Option α) (count : Int) (locked : Bool)
    (owned : α → Prop) (claims : Claims κ α) : Prop where
  nodup : claims.handles.Nodup
  owned : ∀ handle ∈ claims.handles, owned handle
  table : ∀ key handle, table key = some handle ↔ (key, handle) ∈ claims.entries
  count : count = claims.counted
  lock : claims.inside = if locked then 1 else 0

namespace ClaimsAccounted

variable {κ α : Type} [DecidableEq κ] {table : κ → Option α} {count : Int} {locked : Bool}
  {owned owned' : α → Prop} {before after : Claims κ α}

omit [DecidableEq κ] in
/-- The table has no handle twice. -/
theorem table_injective (accounted : ClaimsAccounted table count locked owned before)
    {left right : κ} {handle : α} (first : table left = some handle)
    (second : table right = some handle) :
    left = right :=
  before.key_unique accounted.nodup ((accounted.table _ _).mp first)
    ((accounted.table _ _).mp second)

omit [DecidableEq κ] in
/-- A handle in the table is owned. -/
theorem owned_of_table (accounted : ClaimsAccounted table count locked owned before) {key : κ}
    {handle : α} (entry : table key = some handle) : owned handle :=
  accounted.owned _ (Claims.mem_handles ((accounted.table _ _).mp entry))

omit [DecidableEq κ] in
/-- There are no more claimed entries than the table has places in use. -/
theorem card_entries_le [Fintype κ] (accounted : ClaimsAccounted table count locked owned before) :
    before.entries.card ≤ (Finset.univ.filter fun key => table key ≠ none).card := by
  have keys : (before.entries.map Prod.fst).Nodup := by
    apply Multiset.Nodup.map_on _ (Claims.entries_nodup accounted.nodup)
    rintro ⟨left, first⟩ leftMem ⟨right, second⟩ rightMem (rfl : left = right)
    have entry := (accounted.table _ _).mpr leftMem
    rw [(accounted.table _ _).mpr rightMem] at entry
    rw [Option.some.inj entry]
  calc before.entries.card
      = (before.entries.map Prod.fst).card := (Multiset.card_map _ _).symm
    _ = (Finset.mk _ keys).card := rfl
    _ ≤ (Finset.univ.filter fun key => table key ≠ none).card := by
        apply Finset.card_le_card
        intro key mem
        obtain ⟨⟨_, handle⟩, entry, rfl⟩ := Multiset.mem_map.mp (Finset.mem_mk.mp mem)
        rw [Finset.mem_filter, (accounted.table _ _).mpr entry]
        exact ⟨Finset.mem_univ _, Option.some_ne_none handle⟩

omit [DecidableEq κ] in
/-- A thread takes the lock. -/
theorem acquire (accounted : ClaimsAccounted table count false owned before)
    (handles : after.handles = before.handles) (entries : after.entries = before.entries)
    (counted : after.counted = before.counted) (inside : after.inside = before.inside + 1) :
    ClaimsAccounted table count true owned after where
  nodup := handles ▸ accounted.nodup
  owned := handles ▸ accounted.owned
  table := entries ▸ accounted.table
  count := counted ▸ accounted.count
  lock := by rw [inside, accounted.lock]; rfl

omit [DecidableEq κ] in
/-- The thread inside gives the lock back. -/
theorem leave (accounted : ClaimsAccounted table count locked owned before)
    (handles : after.handles = before.handles) (entries : after.entries = before.entries)
    (counted : after.counted = before.counted) (inside : before.inside = after.inside + 1) :
    ClaimsAccounted table count false owned after where
  nodup := handles ▸ accounted.nodup
  owned := handles ▸ accounted.owned
  table := entries ▸ accounted.table
  count := counted ▸ accounted.count
  lock := by
    have held := accounted.lock
    rw [inside] at held
    split at held
    · exact Nat.succ.inj held
    · cases held

omit [DecidableEq κ] in
/-- A thread gets a handle that nobody owned. -/
theorem gain (accounted : ClaimsAccounted table count locked owned before) {handle : α}
    (fresh : ¬ owned handle) (grown : ∀ other, owned' other ↔ owned other ∨ other = handle)
    (handles : after.handles = handle ::ₘ before.handles)
    (entries : after.entries = before.entries) (counted : after.counted = before.counted)
    (inside : after.inside = before.inside) : ClaimsAccounted table count locked owned' after where
  nodup := by
    rw [handles, Multiset.nodup_cons]
    exact ⟨fun claimed => fresh (accounted.owned _ claimed), accounted.nodup⟩
  owned other claimed := by
    rw [handles, Multiset.mem_cons] at claimed
    rw [grown]
    rcases claimed with new | old
    · exact Or.inr new
    · exact Or.inl (accounted.owned _ old)
  table := entries ▸ accounted.table
  count := counted ▸ accounted.count
  lock := inside ▸ accounted.lock

omit [DecidableEq κ] in
/-- A thread gives a handle up that has no entry any more. -/
theorem drop (accounted : ClaimsAccounted table count locked owned before) {handle : α}
    (kept : ∀ other, owned other → other ≠ handle → owned' other)
    (handles : before.handles = handle ::ₘ after.handles)
    (entries : after.entries = before.entries) (counted : after.counted = before.counted)
    (inside : after.inside = before.inside) : ClaimsAccounted table count locked owned' after := by
  have apart := accounted.nodup
  rw [handles, Multiset.nodup_cons] at apart
  refine ⟨apart.2, ?_, entries ▸ accounted.table, counted ▸ accounted.count,
    inside ▸ accounted.lock⟩
  intro other claimed
  apply kept
  · exact accounted.owned _ (handles ▸ Multiset.mem_cons_of_mem claimed)
  · rintro rfl
    exact apart.1 claimed

/-- A thread enters a handle in a free place of the table. -/
theorem write (accounted : ClaimsAccounted table count locked owned before) {key : κ} {handle : α}
    (free : table key = none) (handles : after.handles = before.handles)
    (entries : after.entries = (key, handle) ::ₘ before.entries)
    (counted : after.counted = before.counted) (inside : after.inside = before.inside) :
    ClaimsAccounted (Function.update table key (some handle)) count locked owned after := by
  refine ⟨handles ▸ accounted.nodup, handles ▸ accounted.owned, ?_, counted ▸ accounted.count,
    inside ▸ accounted.lock⟩
  intro other value
  rw [entries, Multiset.mem_cons, ← accounted.table]
  by_cases same : other = key
  · subst same
    rw [Function.update_self, free]
    simp [eq_comm]
  · rw [Function.update_of_ne same]
    simp [same]

/-- A thread clears its entry. -/
theorem clear (accounted : ClaimsAccounted table count locked owned before) {key : κ} {handle : α}
    (handles : after.handles = before.handles)
    (entries : before.entries = (key, handle) ::ₘ after.entries)
    (counted : after.counted = before.counted) (inside : after.inside = before.inside) :
    ClaimsAccounted (Function.update table key none) count locked owned after := by
  have apart := Claims.entries_nodup accounted.nodup
  rw [entries, Multiset.nodup_cons] at apart
  refine ⟨handles ▸ accounted.nodup, handles ▸ accounted.owned, ?_, counted ▸ accounted.count,
    inside ▸ accounted.lock⟩
  intro other value
  have entry := accounted.table other value
  rw [entries, Multiset.mem_cons] at entry
  by_cases same : other = key
  · subst same
    rw [Function.update_self]
    refine iff_of_false (fun none => by cases none) fun claimed => ?_
    -- another entry for this place would be a second value of the table
    have here := (accounted.table other handle).mpr (entries ▸ Multiset.mem_cons_self _ _)
    have there := entry.mpr (Or.inr claimed)
    rw [here] at there
    cases there
    exact apart.1 claimed
  · rw [Function.update_of_ne same, entry]
    simp [same]

omit [DecidableEq κ] in
/-- The counter and the claims to be counted change together. -/
theorem recount (accounted : ClaimsAccounted table count locked owned before) {count' : Int}
    (handles : after.handles = before.handles) (entries : after.entries = before.entries)
    (counted : count' - after.counted = count - before.counted)
    (inside : after.inside = before.inside) : ClaimsAccounted table count' locked owned after where
  nodup := handles ▸ accounted.nodup
  owned := handles ▸ accounted.owned
  table := entries ▸ accounted.table
  count := by
    have same := accounted.count
    omega
  lock := inside ▸ accounted.lock

omit [DecidableEq κ] in
/-- Handles of others come and go. -/
theorem others (accounted : ClaimsAccounted table count locked owned before)
    (kept : ∀ handle, owned handle → owned' handle) :
    ClaimsAccounted table count locked owned' before :=
  ⟨accounted.nodup, fun handle claimed => kept handle (accounted.owned handle claimed),
    accounted.table, accounted.count, accounted.lock⟩

end ClaimsAccounted

end FizzDns
