import FizzDns.Cache.Bloom
import FizzDns.Foundation.Shards
import Mathlib.Logic.Relation
import Mathlib.SetTheory.Cardinal.Finite

/-!
# The statistics of the filter

The threads of the process inside `dns_bloom.c`, one load, store or fetch-and-add at a
time. Each thread counts in the shard that `shard()` gives it, and `bump` is a load and a
store, which is exact while no other thread writes the shard. The comment on the shards
says that each thread is the only writer of its own; `shard()` hands out 64 and then
starts again. A call that nobody interrupts is the one that the cache's model of the filter
makes (`call_alone`).

`exactStatistics_iff` says that the totals of `dns_bloom_stats` are the numbers of calls and
rejections, after every run that ends with no call in progress, exactly if the process has
at most 64 threads.
-/

namespace FizzDns

/-- `STAT_SHARDS`. -/
def statShards : Nat := 64

instance : NeZero statShards := ⟨by decide⟩

/-- The counters of `struct stat_shard`. -/
inductive StatCounter where
  | queries
  | rejected
  | saturated
  deriving DecidableEq

/-- Where a thread is: outside the filter, or before its next access to what the threads
share. `st` is the shard that `shard()` returned, `seen` what a load returned, and `rest`
the slots that the loop has still to visit. -/
inductive FilterPoint where
  | idle
  | maybeShard (hash : UInt64)
  | loadQueries (st : Fin statShards) (hash : UInt64)
  | storeQueries (st : Fin statShards) (seen : UInt64) (hash : UInt64)
  | test (st : Fin statShards) (rest : List (Fin bloomSlotCount))
  | loadRejected (st : Fin statShards)
  | storeRejected (st : Fin statShards) (seen : UInt64)
  | add (rest : List (Fin bloomSlotCount))
  | raise (seen : UInt8) (slot : Fin bloomSlotCount) (rest : List (Fin bloomSlotCount))
  | addShard (rest : List (Fin bloomSlotCount))
  | loadSaturated (st : Fin statShards) (rest : List (Fin bloomSlotCount))
  | storeSaturated (st : Fin statShards) (seen : UInt64) (rest : List (Fin bloomSlotCount))
  | del (rest : List (Fin bloomSlotCount))
  | lower (seen : UInt8) (slot : Fin bloomSlotCount) (rest : List (Fin bloomSlotCount))

namespace FilterPoint

/-- What a thread holds of the statistics. -/
def hold : FilterPoint → Hold StatCounter statShards
  | .loadQueries st _ => .shard st
  | .storeQueries st seen _ => .loaded st .queries seen
  | .test st _ => .shard st
  | .loadRejected st => .shard st
  | .storeRejected st seen => .loaded st .rejected seen
  | .loadSaturated st _ => .shard st
  | .storeSaturated st seen _ => .loaded st .saturated seen
  | _ => .none

/-- The calls of `dns_bloom_maybe` that a thread has made and not counted yet. -/
def due : FilterPoint → Nat
  | .maybeShard _ => 1
  | .loadQueries _ _ => 1
  | .storeQueries _ _ _ => 1
  | _ => 0

end FilterPoint

/-- The functions of the filter that threads call while others do. -/
inductive FilterRequest where
  | maybe (hash : UInt64)
  | add (hash : UInt64)
  | del (hash : UInt64)

/-- What the threads share and where each of them is. `calls` and `rejections` are the
calls of `dns_bloom_maybe`, and those that returned 0, since the last reset; the program
does not keep them. -/
structure FilterState (ι : Type) where
  slots : BloomSlots
  shards : Sharded ι StatCounter statShards
  threads : ι → FilterPoint
  calls : Nat
  rejections : Nat

/-- The results of `dns_bloom_stats`. -/
structure BloomStats where
  queries : UInt64
  rejected : UInt64
  saturated : UInt64
  used : Nat

namespace FilterState

variable {ι : Type}

/-- The process before its first call. -/
def start : FilterState ι :=
  { slots := fun _ => 0
    shards := Sharded.start
    threads := fun _ => .idle
    calls := 0
    rejections := 0 }

/-- No call is in progress. -/
def Quiet (s : FilterState ι) : Prop :=
  ∀ thread, s.threads thread = .idle

/-- `dns_bloom_reset`. -/
def reset (s : FilterState ι) : FilterState ι :=
  { s with slots := dnsBloomReset, shards := s.shards.clear, calls := 0, rejections := 0 }

/-- `dns_bloom_stats`. -/
def dnsBloomStats (s : FilterState ι) : BloomStats :=
  { queries := s.shards.total .queries
    rejected := s.shards.total .rejected
    saturated := s.shards.total .saturated
    used := (List.finRange bloomSlotCount).countP fun slot => s.slots slot ≠ 0 }

variable [DecidableEq ι]

/-- A thread goes on to another point. -/
def moveTo (thread : ι) (point : FilterPoint) (s : FilterState ι) : FilterState ι :=
  { s with threads := Function.update s.threads thread point }

/-- A thread calls a function of the filter. -/
def call (thread : ι) : FilterRequest → FilterState ι → FilterState ι
  | .maybe hash, s => { s with calls := s.calls + 1 }.moveTo thread (.maybeShard hash)
  | .add hash, s => s.moveTo thread (.add (bloomSlots hash))
  | .del hash, s => s.moveTo thread (.del (bloomSlots hash))

/-- A thread goes through `shard()`. -/
def claim (thread : ι) (next : Fin statShards → FilterPoint) (s : FilterState ι) :
    FilterState ι :=
  { s with shards := (s.shards.claim thread).2 }.moveTo thread (next (s.shards.claim thread).1)

/-- A thread makes the store of `bump`. -/
def bump (thread : ι) (st : Fin statShards) (counter : StatCounter) (seen : UInt64)
    (next : FilterPoint) (s : FilterState ι) : FilterState ι :=
  { s with shards := s.shards.store st counter (seen + 1) }.moveTo thread next

/-- The next access of a thread inside `dns_bloom_maybe`, `dns_bloom_add` or
`dns_bloom_del`. -/
def turn (thread : ι) (s : FilterState ι) : Option (FilterState ι) :=
  match s.threads thread with
  | .idle => none
  | .maybeShard hash => some (s.claim thread fun st => .loadQueries st hash)
  | .loadQueries st hash =>
      some (s.moveTo thread (.storeQueries st (s.shards.counters st .queries) hash))
  | .storeQueries st seen hash =>
      some (s.bump thread st .queries seen (.test st (bloomSlots hash)))
  | .test _ [] => some (s.moveTo thread .idle)
  | .test st (slot :: rest) =>
      if s.slots slot = 0 then some (s.moveTo thread (.loadRejected st))
      else some (s.moveTo thread (.test st rest))
  | .loadRejected st =>
      some (s.moveTo thread (.storeRejected st (s.shards.counters st .rejected)))
  | .storeRejected st seen =>
      -- the call returns 0
      some ({ s with rejections := s.rejections + 1 }.bump thread st .rejected seen .idle)
  | .add [] => some (s.moveTo thread .idle)
  | .add (slot :: rest) =>
      if s.slots slot = 255 then some (s.moveTo thread (.addShard rest))
      else some (s.moveTo thread (.raise (s.slots slot) slot rest))
  | .raise seen slot rest =>
      some ({ s with slots := CountingFilter.raiseFrom seen slot s.slots }.moveTo thread
        (.add rest))
  | .addShard rest => some (s.claim thread fun st => .loadSaturated st rest)
  | .loadSaturated st rest =>
      some (s.moveTo thread (.storeSaturated st (s.shards.counters st .saturated) rest))
  | .storeSaturated st seen rest => some (s.bump thread st .saturated seen (.add rest))
  | .del [] => some (s.moveTo thread .idle)
  | .del (slot :: rest) => some (s.moveTo thread (.lower (s.slots slot) slot rest))
  | .lower seen slot rest =>
      some ({ s with slots := CountingFilter.lowerFrom seen slot s.slots }.moveTo thread
        (.del rest))

end FilterState

section Runs

variable {ι : Type} [DecidableEq ι]

/-- One access of one thread, the begin of a call, or a reset. The cache resets the filter
when it is set up and taken down, with no call in progress. -/
inductive FilterStep : FilterState ι → FilterState ι → Prop where
  | call {s : FilterState ι} (thread : ι) (request : FilterRequest)
      (idle : s.threads thread = .idle) : FilterStep s (s.call thread request)
  | turn {s later : FilterState ι} (thread : ι) (moved : s.turn thread = some later) :
      FilterStep s later
  | reset {s : FilterState ι} (quiet : s.Quiet) : FilterStep s s.reset

/-- Steps of the threads in any order. -/
abbrev FilterRun : FilterState ι → FilterState ι → Prop :=
  Relation.ReflTransGen FilterStep

end Runs

/-- In a process with these threads, the statistics are the numbers of calls and of
rejections since the last reset whenever all calls have returned. -/
def ExactStatistics (ι : Type) [DecidableEq ι] : Prop :=
  ∀ s : FilterState ι, FilterRun .start s → s.Quiet →
    s.dnsBloomStats.queries = UInt64.ofNat s.calls ∧
      s.dnsBloomStats.rejected = UInt64.ofNat s.rejections

/-! ### Threads with a shard each -/

namespace FilterState

variable {ι : Type} [DecidableEq ι] {s : FilterState ι} {thread : ι}
  {old point : FilterPoint}

/-- What the threads hold of the statistics. -/
def holds (s : FilterState ι) : ι → Hold StatCounter statShards :=
  fun thread => (s.threads thread).hold

/-- What the threads hold after one of them has moved. -/
theorem holds_moveTo (thread : ι) (point : FilterPoint) (s : FilterState ι) :
    (s.moveTo thread point).holds = Function.update s.holds thread point.hold := by
  funext other
  by_cases same : other = thread
  · simp [holds, moveTo, same]
  · simp [holds, moveTo, same]

variable [Fintype ι]

/-- The calls of `dns_bloom_maybe` in progress that are not counted yet. -/
def dues (s : FilterState ι) : Nat :=
  ∑ thread, (s.threads thread).due

/-- What is due after one thread has moved. -/
theorem dues_moveTo (thread : ι) (point : FilterPoint) (s : FilterState ι) :
    (s.moveTo thread point).dues + (s.threads thread).due = s.dues + point.due := by
  have column : (fun other => ((s.moveTo thread point).threads other).due) =
      Function.update (fun other => (s.threads other).due) thread point.due := by
    funext other
    by_cases same : other = thread
    · simp [moveTo, same]
    · simp [moveTo, same]
  rw [dues, dues, column, Finset.sum_update_of_mem (Finset.mem_univ thread),
    Finset.sum_eq_add_sum_sdiff_singleton_of_mem (Finset.mem_univ thread)
      (fun other => (s.threads other).due)]
  ring

/-- Nothing becomes due by a move between points where the same is due. -/
theorem dues_moveTo_of_eq (before : s.threads thread = old) (same : point.due = old.due) :
    (s.moveTo thread point).dues = s.dues := by
  have moved := dues_moveTo thread point s
  rw [before, same] at moved
  exact Nat.add_right_cancel moved

/-- The statistics while every thread has a shard of its own: the shards are apart, loaded
values are current, and the totals and what is due add up. -/
structure CallsCounted (s : FilterState ι) : Prop where
  apart : s.shards.Apart
  current : s.shards.Current s.holds
  queries : s.shards.total .queries + UInt64.ofNat s.dues = UInt64.ofNat s.calls
  rejected : s.shards.total .rejected = UInt64.ofNat s.rejections

omit [DecidableEq ι] in
/-- Before the first call. -/
theorem counted_start : (start : FilterState ι).CallsCounted := by
  have nothing : (start : FilterState ι).dues = 0 := Finset.sum_const_zero
  refine ⟨Sharded.apart_start, Sharded.current_start, ?_, Sharded.total_start _⟩
  rw [nothing, start, Sharded.total_start]
  rfl

/-- A thread moves on without a shard. -/
theorem CallsCounted.release (counted : s.CallsCounted) (slots : BloomSlots)
    (before : s.threads thread = old) (free : point.hold = .none) (due : point.due = old.due) :
    ({ s with slots }.moveTo thread point).CallsCounted := by
  refine ⟨counted.apart, ?_, ?_, counted.rejected⟩
  · rw [holds_moveTo, free]
    exact counted.current.release thread
  · have same : ({ s with slots }.moveTo thread point).dues = s.dues :=
      dues_moveTo_of_eq before due
    rw [same]
    exact counted.queries

/-- A thread moves on with the shard that it holds. -/
theorem CallsCounted.keep (counted : s.CallsCounted) (before : s.threads thread = old)
    (kept : point.hold = old.hold) (due : point.due = old.due) :
    (s.moveTo thread point).CallsCounted := by
  have same : Function.update s.holds thread old.hold = s.holds := by
    rw [← before]
    exact Function.update_eq_self thread s.holds
  refine ⟨counted.apart, ?_, ?_, counted.rejected⟩
  · rw [holds_moveTo, kept, same]
    exact counted.current
  · rw [dues_moveTo_of_eq before due]
    exact counted.queries

/-- A thread goes through `shard()`. -/
theorem CallsCounted.claim (counted : s.CallsCounted) (few : Fintype.card ι ≤ statShards)
    (before : s.threads thread = old) {next : Fin statShards → FilterPoint}
    (takes : ∀ st, (next st).hold = .shard st) (due : ∀ st, (next st).due = old.due) :
    (s.claim thread next).CallsCounted := by
  refine ⟨counted.apart.claim few (by decide) thread, ?_, ?_, ?_⟩
  · rw [FilterState.claim, holds_moveTo, takes]
    exact counted.current.claim thread
  · have same : (s.claim thread next).dues = s.dues := dues_moveTo_of_eq before (due _)
    change (s.shards.claim thread).2.total .queries + _ = _
    rw [Sharded.total_claim, same]
    exact counted.queries
  · change (s.shards.claim thread).2.total .rejected = _
    rw [Sharded.total_claim]
    exact counted.rejected

/-- A thread makes the load of `bump`. -/
theorem CallsCounted.load (counted : s.CallsCounted) (before : s.threads thread = old)
    {st : Fin statShards} {counter : StatCounter} (held : old.hold = .shard st)
    (loads : point.hold = .loaded st counter (s.shards.counters st counter))
    (due : point.due = old.due) : (s.moveTo thread point).CallsCounted := by
  have own : s.holds thread = .shard st := by
    rw [holds, before, held]
  refine ⟨counted.apart, ?_, ?_, counted.rejected⟩
  · rw [holds_moveTo, loads]
    exact counted.current.load own counter
  · rw [dues_moveTo_of_eq before due]
    exact counted.queries

/-- A thread makes the store of `bump`. A query that is counted is no longer due, and a
rejection is counted in the step in which the call returns. -/
theorem CallsCounted.bump (counted : s.CallsCounted) (before : s.threads thread = old)
    {st : Fin statShards} {counter : StatCounter} {seen : UInt64}
    (held : old.hold = .loaded st counter seen)
    (kept : point.hold = .shard st ∨ point.hold = .none)
    (due : old.due = point.due + if counter = .queries then 1 else 0) :
    ({ s with
        rejections := s.rejections + if counter = StatCounter.rejected then 1 else 0 }.bump
      thread st counter seen point).CallsCounted := by
  have own : s.holds thread = .loaded st counter seen := by
    rw [holds, before, held]
  have totals := counted.current.total_store own
  refine ⟨counted.apart.store st counter (seen + 1), ?_, ?_, ?_⟩
  · have stored := counted.current.store counted.apart own (seen + 1)
    rw [FilterState.bump, holds_moveTo]
    rcases kept with again | free
    · rw [again]
      exact stored
    · rw [free]
      have released := stored.release thread
      rw [Function.update_idem] at released
      exact released
  · have paid := dues_moveTo thread point s
    rw [before, due, add_left_comm, add_comm s.dues, add_comm (s.moveTo thread point).dues] at paid
    change (s.shards.store st counter (seen + 1)).total .queries +
      UInt64.ofNat (s.moveTo thread point).dues = UInt64.ofNat s.calls
    rw [totals, UInt64.add_assoc, ← UInt64.ofNat_add, Nat.add_left_cancel paid]
    exact counted.queries
  · change (s.shards.store st counter (seen + 1)).total .rejected = _
    rw [totals, counted.rejected, ← UInt64.ofNat_add]
    rfl

/-- A call begins; a query is due from here on. -/
theorem CallsCounted.call (counted : s.CallsCounted) (idle : s.threads thread = .idle)
    (request : FilterRequest) : (s.call thread request).CallsCounted := by
  cases request with
  | maybe hash =>
      have added : (s.moveTo thread (.maybeShard hash)).dues + 0 = s.dues + 1 := by
        have moved := dues_moveTo thread (.maybeShard hash) s
        rw [idle] at moved
        exact moved
      refine ⟨counted.apart, ?_, ?_, counted.rejected⟩
      · rw [FilterState.call, holds_moveTo]
        exact counted.current.release thread
      · change s.shards.total .queries +
          UInt64.ofNat (s.moveTo thread (.maybeShard hash)).dues = UInt64.ofNat (s.calls + 1)
        rw [← add_zero (s.moveTo thread _).dues, added, UInt64.ofNat_add, UInt64.ofNat_add,
          ← counted.queries, UInt64.add_assoc]
  | add hash => exact counted.release s.slots idle rfl rfl
  | del hash => exact counted.release s.slots idle rfl rfl

omit [DecidableEq ι] in
/-- A reset with no call in progress. -/
theorem CallsCounted.reset (counted : s.CallsCounted) (quiet : s.Quiet) : s.reset.CallsCounted := by
  have nothing : s.reset.dues = 0 := by
    apply Finset.sum_eq_zero
    intro thread _
    change (s.threads thread).due = 0
    rw [quiet thread]
    rfl
  refine ⟨counted.apart.clear, ?_, ?_, Sharded.total_clear .rejected s.shards⟩
  · apply counted.current.clear
    intro thread
    rw [holds, quiet thread]
    rfl
  · rw [nothing]
    change s.shards.clear.total .queries + 0 = 0
    rw [Sharded.total_clear]
    rfl

/-- The next access of a thread. -/
theorem CallsCounted.turn (counted : s.CallsCounted) (few : Fintype.card ι ≤ statShards)
    {later : FilterState ι} (moved : s.turn thread = some later) : later.CallsCounted := by
  unfold FilterState.turn at moved
  -- one case for each point, each one of the five kinds of access above
  cases before : s.threads thread with
  | idle =>
      rw [before] at moved
      exact absurd moved (by simp)
  | maybeShard hash =>
      rw [before] at moved
      cases moved
      exact counted.claim few before (fun _ => rfl) (fun _ => rfl)
  | loadQueries st hash =>
      rw [before] at moved
      cases moved
      exact counted.load before rfl rfl rfl
  | storeQueries st seen hash =>
      rw [before] at moved
      cases moved
      exact counted.bump before rfl (Or.inl rfl) rfl
  | test st rest =>
      rw [before] at moved
      cases rest with
      | nil =>
          cases moved
          exact counted.release s.slots before rfl rfl
      | cons slot rest =>
          dsimp only at moved
          split at moved
          · cases moved
            exact counted.keep before rfl rfl
          · cases moved
            exact counted.keep before rfl rfl
  | loadRejected st =>
      rw [before] at moved
      cases moved
      exact counted.load before rfl rfl rfl
  | storeRejected st seen =>
      rw [before] at moved
      cases moved
      exact counted.bump before rfl (Or.inr rfl) rfl
  | add rest =>
      rw [before] at moved
      cases rest with
      | nil =>
          cases moved
          exact counted.release s.slots before rfl rfl
      | cons slot rest =>
          dsimp only at moved
          split at moved
          · cases moved
            exact counted.release s.slots before rfl rfl
          · cases moved
            exact counted.release s.slots before rfl rfl
  | raise seen slot rest =>
      rw [before] at moved
      cases moved
      exact counted.release _ before rfl rfl
  | addShard rest =>
      rw [before] at moved
      cases moved
      exact counted.claim few before (fun _ => rfl) (fun _ => rfl)
  | loadSaturated st rest =>
      rw [before] at moved
      cases moved
      exact counted.load before rfl rfl rfl
  | storeSaturated st seen rest =>
      rw [before] at moved
      cases moved
      exact counted.bump before rfl (Or.inr rfl) rfl
  | del rest =>
      rw [before] at moved
      cases rest with
      | nil =>
          cases moved
          exact counted.release s.slots before rfl rfl
      | cons slot rest =>
          cases moved
          exact counted.release s.slots before rfl rfl
  | lower seen slot rest =>
      rw [before] at moved
      cases moved
      exact counted.release _ before rfl rfl

/-- Any run of at most as many threads as there are shards. -/
theorem counted_run (few : Fintype.card ι ≤ statShards) (run : FilterRun .start s) :
    s.CallsCounted := by
  induction run with
  | refl => exact counted_start
  | tail _ step counted =>
      cases step with
      | call thread request idle => exact counted.call idle request
      | turn thread moved => exact counted.turn few moved
      | reset quiet => exact counted.reset quiet

end FilterState

/-- At most as many threads as there are shards have exact statistics. -/
theorem exactStatistics_of_card_le (ι : Type) [DecidableEq ι] [Fintype ι]
    (few : Fintype.card ι ≤ statShards) : ExactStatistics ι := by
  intro s run quiet
  have counted := FilterState.counted_run few run
  have nothing : s.dues = 0 := by
    apply Finset.sum_eq_zero
    intro thread _
    rw [quiet thread]
    rfl
  refine ⟨?_, counted.rejected⟩
  have queries := counted.queries
  rw [nothing] at queries
  exact (UInt64.add_zero _).symm.trans queries

/-! ### The accesses of one thread -/

namespace FilterState

variable {ι : Type} [DecidableEq ι] {s later : FilterState ι} {thread : ι}

/-- Where a thread is after it has moved. -/
@[simp]
theorem threads_moveTo_self (thread : ι) (point : FilterPoint) (s : FilterState ι) :
    (s.moveTo thread point).threads thread = point :=
  Function.update_self ..

/-- Where the other threads are after a thread has moved. -/
theorem threads_moveTo_of_ne {other : ι} (different : other ≠ thread) (point : FilterPoint)
    (s : FilterState ι) : (s.moveTo thread point).threads other = s.threads other :=
  Function.update_of_ne different ..

/-- Only the last of two moves of a thread shows. -/
theorem moveTo_moveTo (thread : ι) (first second : FilterPoint) (s : FilterState ι) :
    (s.moveTo thread first).moveTo thread second = s.moveTo thread second := by
  simp only [moveTo, Function.update_idem]

/-- A run goes on with the next access of a thread. -/
theorem run_turn {first : FilterState ι} (run : FilterRun first s)
    (moved : s.turn thread = some later) : FilterRun first later :=
  run.tail (.turn thread moved)

section Turns

variable {st : Fin statShards} {seen hash : UInt64} {rest : List (Fin bloomSlotCount)}

/-- `dns_bloom_maybe` goes through `shard()`. -/
theorem turn_maybeShard (before : s.threads thread = .maybeShard hash) :
    s.turn thread = some (s.claim thread fun st => .loadQueries st hash) := by
  rw [turn, before]

/-- The load of the `bump` of the queries. -/
theorem turn_loadQueries (before : s.threads thread = .loadQueries st hash) :
    s.turn thread =
      some (s.moveTo thread (.storeQueries st (s.shards.counters st .queries) hash)) := by
  rw [turn, before]

/-- The store of the `bump` of the queries. -/
theorem turn_storeQueries (before : s.threads thread = .storeQueries st seen hash) :
    s.turn thread = some (s.bump thread st .queries seen (.test st (bloomSlots hash))) := by
  rw [turn, before]

/-- `dns_bloom_add` goes through `shard()`. -/
theorem turn_addShard (before : s.threads thread = .addShard rest) :
    s.turn thread = some (s.claim thread fun st => .loadSaturated st rest) := by
  rw [turn, before]

/-- The load of the `bump` for a pinned slot. -/
theorem turn_loadSaturated (before : s.threads thread = .loadSaturated st rest) :
    s.turn thread =
      some (s.moveTo thread (.storeSaturated st (s.shards.counters st .saturated) rest)) := by
  rw [turn, before]

/-- The store of the `bump` for a pinned slot. -/
theorem turn_storeSaturated (before : s.threads thread = .storeSaturated st seen rest) :
    s.turn thread = some (s.bump thread st .saturated seen (.add rest)) := by
  rw [turn, before]

end Turns

/-- A thread that finds a zero rejects. -/
def rejectedBy (thread : ι) (st : Fin statShards) (s : FilterState ι) : FilterState ι :=
  { s with rejections := s.rejections + 1 }.bump thread st .rejected
    (s.shards.counters st .rejected) .idle

/-- The total of the queries is not touched by a rejection. -/
theorem total_rejectedBy (thread : ι) (st : Fin statShards) (s : FilterState ι) :
    (s.rejectedBy thread st).shards.total .queries = s.shards.total .queries :=
  Sharded.total_store_of_ne (by decide) _

/-- The accesses of a rejection. -/
theorem rejectedBy_run {first : FilterState ι} {st : Fin statShards}
    {slot : Fin bloomSlotCount} {rest : List (Fin bloomSlotCount)} (run : FilterRun first s)
    (testing : s.threads thread = .test st (slot :: rest)) (zero : s.slots slot = 0) :
    FilterRun first (s.rejectedBy thread st) := by
  have tested : s.turn thread = some (s.moveTo thread (.loadRejected st)) := by
    rw [turn, testing]
    exact if_pos zero
  have loaded : (s.moveTo thread (.loadRejected st)).turn thread =
      some (s.moveTo thread (.storeRejected st (s.shards.counters st .rejected))) := by
    rw [turn, threads_moveTo_self]
    exact congrArg some (moveTo_moveTo ..)
  have stored : (s.moveTo thread (.storeRejected st (s.shards.counters st .rejected))).turn
      thread = some (s.rejectedBy thread st) := by
    rw [turn, threads_moveTo_self]
    simp only [rejectedBy, bump, moveTo, Function.update_idem]
  exact run_turn (run_turn (run_turn run tested) loaded) stored

end FilterState

/-! ### A call that no other thread interrupts -/

/-- What a call does to the slots, as the cache sees it. -/
def FilterRequest.slots : FilterRequest → BloomSlots → BloomSlots
  | .maybe _, slots => slots
  | .add hash, slots => dnsBloomAdd hash slots
  | .del hash, slots => dnsBloomDel hash slots

/-- The calls of `dns_bloom_maybe` in a call. -/
def FilterRequest.calls : FilterRequest → Nat
  | .maybe _ => 1
  | _ => 0

/-- The rejections in a call, as the cache sees it. -/
def FilterRequest.rejections : FilterRequest → BloomSlots → Nat
  | .maybe hash, slots => if dnsBloomMaybe hash slots then 0 else 1
  | _, _ => 0

namespace FilterState

variable {ι : Type} [DecidableEq ι] {s next later : FilterState ι} {thread : ι}
  {slots : BloomSlots} {rejected : Nat}

/-- A thread returns from its call, with the slots and the number of rejections that it
leaves, while the other threads stay where they are. -/
structure Returns (thread : ι) (slots : BloomSlots) (rejected : Nat) (s later : FilterState ι) :
    Prop where
  run : FilterRun s later
  threads : later.threads = Function.update s.threads thread .idle
  slots : later.slots = slots
  calls : later.calls = s.calls
  rejections : later.rejections = s.rejections + rejected

/-- A call returns after its last access. -/
theorem returns_of_turn (moved : s.turn thread = some (s.moveTo thread .idle)) :
    Returns thread s.slots 0 s (s.moveTo thread .idle) :=
  ⟨run_turn .refl moved, rfl, rfl, rfl, rfl⟩

/-- A call that returns from the state after an access returns from the state before it. -/
theorem Returns.cons {point : FilterPoint} (returns : Returns thread slots rejected next later)
    (moved : s.turn thread = some next)
    (threads : next.threads = Function.update s.threads thread point)
    (calls : next.calls = s.calls) (rejections : next.rejections = s.rejections) :
    Returns thread slots rejected s later := by
  refine ⟨Relation.ReflTransGen.head (.turn thread moved) returns.run, ?_, returns.slots, ?_, ?_⟩
  · rw [returns.threads, threads, Function.update_idem]
  · rw [returns.calls, calls]
  · rw [returns.rejections, rejections]

/-- A thread returns from the loop of `dns_bloom_maybe`. -/
theorem returns_test (st : Fin statShards) (rest : List (Fin bloomSlotCount))
    (testing : s.threads thread = .test st rest) :
    ∃ later, Returns thread s.slots (if CountingFilter.maybe rest s.slots then 0 else 1)
      s later := by
  induction rest generalizing s with
  | nil =>
      refine ⟨_, returns_of_turn ?_⟩
      rw [turn, testing]
  | cons slot rest ih =>
      by_cases zero : s.slots slot = 0
      · have absent : CountingFilter.maybe (slot :: rest) s.slots = false := by
          simp [CountingFilter.maybe, zero]
        rw [absent]
        exact ⟨s.rejectedBy thread st, rejectedBy_run .refl testing zero, rfl, rfl, rfl, rfl⟩
      · have same : CountingFilter.maybe (slot :: rest) s.slots =
            CountingFilter.maybe rest s.slots := by
          simp [CountingFilter.maybe, zero]
        have moved : s.turn thread = some (s.moveTo thread (.test st rest)) := by
          rw [turn, testing]
          exact if_neg zero
        obtain ⟨later, returns⟩ := ih (threads_moveTo_self thread (.test st rest) s)
        rw [same]
        exact ⟨later, returns.cons moved rfl rfl rfl⟩

/-- A thread returns from the loop of `dns_bloom_add`. -/
theorem returns_add (rest : List (Fin bloomSlotCount)) (adding : s.threads thread = .add rest) :
    ∃ later, Returns thread (CountingFilter.add rest s.slots) 0 s later := by
  induction rest generalizing s with
  | nil =>
      refine ⟨_, returns_of_turn ?_⟩
      rw [turn, adding]
  | cons slot rest ih =>
      by_cases pinned : s.slots slot = 255
      · have same : CountingFilter.raise slot s.slots = s.slots := by
          rw [CountingFilter.raise, CountingFilter.raiseFrom, if_pos pinned]
        let tested := s.moveTo thread (.addShard rest)
        let claimed := tested.claim thread fun st => .loadSaturated st rest
        let st := (s.shards.claim thread).1
        let seen := claimed.shards.counters st .saturated
        let loaded := claimed.moveTo thread (.storeSaturated st seen rest)
        let stored := loaded.bump thread st .saturated seen (.add rest)
        obtain ⟨later, returns⟩ := ih (s := stored) (threads_moveTo_self ..)
        have fromLoaded := returns.cons (s := loaded)
          (turn_storeSaturated (threads_moveTo_self ..)) rfl rfl rfl
        have fromClaimed := fromLoaded.cons (s := claimed)
          (turn_loadSaturated (threads_moveTo_self ..)) rfl rfl rfl
        have fromTested := fromClaimed.cons (s := tested)
          (turn_addShard (threads_moveTo_self ..)) rfl rfl rfl
        have moved : s.turn thread = some tested := by
          rw [turn, adding]
          exact if_pos pinned
        rw [CountingFilter.add, List.foldl_cons, same]
        exact ⟨later, fromTested.cons moved rfl rfl rfl⟩
      · let seen := s.slots slot
        let raised : FilterState ι :=
          { s.moveTo thread (.add rest) with
            slots := CountingFilter.raiseFrom seen slot s.slots }
        obtain ⟨later, returns⟩ := ih (s := raised) (threads_moveTo_self thread (.add rest) s)
        have stored : (s.moveTo thread (.raise seen slot rest)).turn thread = some raised := by
          rw [turn, threads_moveTo_self]
          simp only [raised, moveTo, Function.update_idem]
        have loaded : s.turn thread = some (s.moveTo thread (.raise seen slot rest)) := by
          rw [turn, adding]
          exact if_neg pinned
        have after := returns.cons stored (Function.update_idem ..).symm rfl rfl
        exact ⟨later, after.cons loaded rfl rfl rfl⟩

/-- A thread returns from the loop of `dns_bloom_del`. -/
theorem returns_del (rest : List (Fin bloomSlotCount)) (deleting : s.threads thread = .del rest) :
    ∃ later, Returns thread (CountingFilter.del rest s.slots) 0 s later := by
  induction rest generalizing s with
  | nil =>
      refine ⟨_, returns_of_turn ?_⟩
      rw [turn, deleting]
  | cons slot rest ih =>
      let seen := s.slots slot
      let lowered : FilterState ι :=
        { s.moveTo thread (.del rest) with
          slots := CountingFilter.lowerFrom seen slot s.slots }
      obtain ⟨later, returns⟩ := ih (s := lowered) (threads_moveTo_self thread (.del rest) s)
      have stored : (s.moveTo thread (.lower seen slot rest)).turn thread = some lowered := by
        rw [turn, threads_moveTo_self]
        simp only [lowered, moveTo, Function.update_idem]
      have loaded : s.turn thread = some (s.moveTo thread (.lower seen slot rest)) := by
        rw [turn, deleting]
      have after := returns.cons stored (Function.update_idem ..).symm rfl rfl
      exact ⟨later, after.cons loaded rfl rfl rfl⟩

/-- **A call alone.** A call during which no other thread moves does to the slots what the
cache's model of the filter does, and is a rejection exactly if that says the key is
absent. -/
theorem call_alone (idle : s.threads thread = .idle) (request : FilterRequest) :
    ∃ later, FilterRun s later ∧ later.threads = s.threads ∧
      later.slots = request.slots s.slots ∧ later.calls = s.calls + request.calls ∧
        later.rejections = s.rejections + request.rejections s.slots := by
  have returned : ∀ {slots : BloomSlots} {rejected : Nat} {later : FilterState ι},
      Returns thread slots rejected (s.call thread request) later →
        FilterRun s later ∧ later.threads = s.threads ∧ later.slots = slots ∧
          later.calls = s.calls + request.calls ∧ later.rejections = s.rejections + rejected := by
    intro slots rejected later returns
    have back : Function.update (s.call thread request).threads thread .idle = s.threads := by
      cases request <;> simp [call, moveTo, ← idle]
    refine ⟨.head (.call thread request idle) returns.run, returns.threads.trans back,
      returns.slots, returns.calls.trans ?_, returns.rejections.trans ?_⟩
    · cases request <;> rfl
    · cases request <;> rfl
  cases request with
  | maybe hash =>
      let called := s.call thread (.maybe hash)
      let claimed := called.claim thread fun st => .loadQueries st hash
      let st := (s.shards.claim thread).1
      let seen := claimed.shards.counters st .queries
      let loaded := claimed.moveTo thread (.storeQueries st seen hash)
      let stored := loaded.bump thread st .queries seen (.test st (bloomSlots hash))
      obtain ⟨later, returns⟩ := returns_test (s := stored) st (bloomSlots hash)
        (threads_moveTo_self ..)
      have fromLoaded := returns.cons (s := loaded)
        (turn_storeQueries (threads_moveTo_self ..)) rfl rfl rfl
      have fromClaimed := fromLoaded.cons (s := claimed)
        (turn_loadQueries (threads_moveTo_self ..)) rfl rfl rfl
      have fromCalled := fromClaimed.cons (s := called)
        (turn_maybeShard (threads_moveTo_self ..)) rfl rfl rfl
      exact ⟨later, returned fromCalled⟩
  | add hash =>
      obtain ⟨later, returns⟩ := returns_add (s := s.call thread (.add hash)) (bloomSlots hash)
        (threads_moveTo_self ..)
      exact ⟨later, returned returns⟩
  | del hash =>
      obtain ⟨later, returns⟩ := returns_del (s := s.call thread (.del hash)) (bloomSlots hash)
        (threads_moveTo_self ..)
      exact ⟨later, returned returns⟩

end FilterState

/-! ### Threads that share a shard -/

namespace FilterState

variable {ι : Type} [DecidableEq ι] {s : FilterState ι} {thread : ι}

/-- A thread calls `dns_bloom_maybe` and goes through `shard()`. -/
def enter (thread : ι) (hash : UInt64) (s : FilterState ι) : FilterState ι :=
  (s.call thread (.maybe hash)).claim thread fun st => .loadQueries st hash

/-- The accesses up to the first load. -/
theorem enter_run {first : FilterState ι} (run : FilterRun first s)
    (idle : s.threads thread = .idle) (hash : UInt64) :
    FilterRun first (s.enter thread hash) := by
  apply run_turn (run.tail (.call thread (.maybe hash) idle))
  exact turn_maybeShard (threads_moveTo_self ..)

/-- The shards after a thread has entered. -/
theorem shards_enter (thread : ι) (hash : UInt64) (s : FilterState ι) :
    (s.enter thread hash).shards = (s.shards.claim thread).2 :=
  rfl

/-- A thread that enters waits before the load of the next shard's queries. -/
theorem threads_enter_self (free : s.shards.owned thread = none) (hash : UInt64) :
    (s.enter thread hash).threads thread =
      .loadQueries (Fin.ofNat statShards s.shards.next.toNat) hash := by
  have claimed : (s.shards.claim thread).1 = Fin.ofNat statShards s.shards.next.toNat := by
    rw [Sharded.claim_of_free free]
  rw [← claimed]
  exact threads_moveTo_self ..

/-- The other threads are where they were. -/
theorem threads_enter_of_ne {other : ι} (different : other ≠ thread) (hash : UInt64) :
    (s.enter thread hash).threads other = s.threads other := by
  rw [enter, claim, threads_moveTo_of_ne different]
  exact threads_moveTo_of_ne different ..

/-- On the way to a shared shard: the first thread has taken its shard and waits before its
first load, and `done` more threads have taken theirs and made one call each of an empty
filter. -/
structure Staged (threads : Fin (statShards + 1) ↪ ι) (done : Nat) (s : FilterState ι) :
    Prop where
  run : FilterRun .start s
  waiting : s.threads (threads 0) = .loadQueries 0 0
  others : ∀ thread, thread ≠ threads 0 → s.threads thread = .idle
  empty : ∀ slot, s.slots slot = 0
  next : s.shards.next = UInt32.ofNat (done + 1)
  free : ∀ k : Fin (statShards + 1), done < k.val → s.shards.owned (threads k) = none
  calls : s.calls = done + 1
  total : s.shards.total .queries = UInt64.ofNat done

/-- The running number after a thread without a shard has entered. -/
theorem next_enter (free : s.shards.owned thread = none) (hash : UInt64) :
    (s.enter thread hash).shards.next = s.shards.next + 1 := by
  rw [shards_enter, Sharded.claim_of_free free]

/-- The first thread takes the first shard. -/
theorem staged_start (threads : Fin (statShards + 1) ↪ ι) :
    Staged threads 0 ((start : FilterState ι).enter (threads 0) 0) := by
  refine ⟨enter_run .refl rfl 0, threads_enter_self rfl 0, ?_, fun _ => rfl, next_enter rfl 0,
    ?_, rfl, ?_⟩
  · intro thread different
    exact threads_enter_of_ne different 0
  · intro k behind
    have different : threads k ≠ threads 0 :=
      threads.injective.ne (Fin.pos_iff_ne_zero.mp behind)
    exact Sharded.owned_claim_of_ne different _
  · rw [shards_enter, Sharded.total_claim]
    exact Sharded.total_start _

/-- One more thread makes its call while the first one waits. -/
theorem Staged.succ {threads : Fin (statShards + 1) ↪ ι} {done : Nat}
    (staged : Staged threads done s) (more : done < statShards) :
    ∃ later, Staged threads (done + 1) later := by
  let current : Fin (statShards + 1) := ⟨done + 1, Nat.succ_lt_succ more⟩
  have different : threads 0 ≠ threads current :=
    threads.injective.ne (Fin.succ_ne_zero ⟨done, more⟩).symm
  have unowned := staged.free current (Nat.lt_succ_self done)
  let st := Fin.ofNat statShards s.shards.next.toNat
  let entered := s.enter (threads current) 0
  let stored := entered.bump (threads current) st .queries
    (entered.shards.counters st .queries) (.test st (bloomSlots 0))
  have enteredRun : FilterRun .start entered :=
    enter_run staged.run (staged.others _ different.symm) 0
  have storedRun : FilterRun .start stored := by
    have loaded := run_turn enteredRun (turn_loadQueries (threads_enter_self unowned 0))
    have moved := run_turn loaded (turn_storeQueries (threads_moveTo_self ..))
    simp only [bump, moveTo, Function.update_idem] at moved
    exact moved
  have others : ∀ thread, thread ≠ threads current →
      (stored.rejectedBy (threads current) st).threads thread = s.threads thread := by
    intro thread apart
    exact ((threads_moveTo_of_ne apart ..).trans (threads_moveTo_of_ne apart ..)).trans
      (threads_enter_of_ne apart 0)
  refine ⟨stored.rejectedBy (threads current) st,
    rejectedBy_run storedRun (threads_moveTo_self ..) (staged.empty _), ?_, ?_, staged.empty,
    ?_, ?_, ?_, ?_⟩
  · rw [others _ different]
    exact staged.waiting
  · intro thread apart
    by_cases same : thread = threads current
    · rw [same]
      exact threads_moveTo_self ..
    · rw [others thread same]
      exact staged.others thread apart
  · change entered.shards.next = _
    rw [next_enter unowned, staged.next, UInt32.ofNat_add (done + 1)]
    rfl
  · intro k behind
    have apart : threads k ≠ threads current :=
      threads.injective.ne (ne_of_gt behind)
    exact (Sharded.owned_claim_of_ne apart _).trans (staged.free k (Nat.lt_of_succ_lt behind))
  · exact congrArg (· + 1) staged.calls
  · rw [total_rejectedBy]
    change (entered.shards.store st .queries _).total .queries = _
    rw [Sharded.total_store_succ, shards_enter, Sharded.total_claim, staged.total,
      UInt64.ofNat_add]
    rfl

/-- All the other shards have been taken. -/
theorem exists_staged (threads : Fin (statShards + 1) ↪ ι) (done : Nat) (most : done ≤ statShards) :
    ∃ s : FilterState ι, Staged threads done s := by
  induction done with
  | zero => exact ⟨_, staged_start threads⟩
  | succ done ih =>
      obtain ⟨s, staged⟩ := ih (Nat.le_of_succ_le most)
      exact staged.succ most

/-- Two threads that are about to count a query in one shard lose one of the two. -/
theorem race_run {first : FilterState ι} {left right : ι} {st : Fin statShards}
    (run : FilterRun first s) (apart : left ≠ right)
    (leftWaits : s.threads left = .loadQueries st 0)
    (rightWaits : s.threads right = .loadQueries st 0)
    (others : ∀ thread, thread ≠ left → thread ≠ right → s.threads thread = .idle)
    (empty : ∀ slot, s.slots slot = 0) :
    ∃ later, FilterRun first later ∧ later.Quiet ∧ later.calls = s.calls ∧
      later.shards.total .queries = s.shards.total .queries + 1 := by
  let seen := s.shards.counters st .queries
  let loaded := (s.moveTo left (.storeQueries st seen 0)).moveTo right (.storeQueries st seen 0)
  let once := loaded.bump left st .queries seen (.test st (bloomSlots 0))
  let twice := once.bump right st .queries seen (.test st (bloomSlots 0))
  let rejected := twice.rejectedBy left st
  have loadedRun : FilterRun first loaded := by
    apply run_turn (run_turn run (turn_loadQueries leftWaits))
    apply turn_loadQueries
    exact (threads_moveTo_of_ne apart.symm ..).trans rightWaits
  have onceRun : FilterRun first once := by
    apply run_turn loadedRun
    apply turn_storeQueries
    exact (threads_moveTo_of_ne apart ..).trans (threads_moveTo_self ..)
  have twiceRun : FilterRun first twice := by
    apply run_turn onceRun
    apply turn_storeQueries
    exact (threads_moveTo_of_ne apart.symm ..).trans (threads_moveTo_self ..)
  have leftTests : twice.threads left = .test st (bloomSlots 0) :=
    (threads_moveTo_of_ne apart ..).trans (threads_moveTo_self ..)
  have rejectedRun : FilterRun first rejected := rejectedBy_run twiceRun leftTests (empty _)
  have rightTests : rejected.threads right = .test st (bloomSlots 0) :=
    (threads_moveTo_of_ne apart.symm ..).trans (threads_moveTo_self ..)
  refine ⟨rejected.rejectedBy right st, rejectedBy_run rejectedRun rightTests (empty _), ?_,
    rfl, ?_⟩
  · intro thread
    by_cases onRight : thread = right
    · rw [onRight]
      exact threads_moveTo_self ..
    · refine (threads_moveTo_of_ne onRight ..).trans ?_
      by_cases onLeft : thread = left
      · rw [onLeft]
        exact threads_moveTo_self ..
      · simp only [rejected, twice, once, loaded, rejectedBy, bump,
          threads_moveTo_of_ne onLeft, threads_moveTo_of_ne onRight]
        exact others thread onLeft onRight
  · rw [total_rejectedBy, total_rejectedBy]
    exact Sharded.total_store_twice

/-- **A lost query.** One thread more than there are shards: the last one is given the
first one's shard. -/
theorem lost_query (threads : Fin (statShards + 1) ↪ ι) :
    ∃ s : FilterState ι, FilterRun .start s ∧ s.Quiet ∧ s.calls = statShards + 1 ∧
      s.shards.total .queries = UInt64.ofNat statShards := by
  obtain ⟨s, staged⟩ := exists_staged threads (statShards - 1) (by decide)
  have apart : threads 0 ≠ threads (Fin.last statShards) :=
    threads.injective.ne (by decide)
  have unowned := staged.free (Fin.last statShards) (by decide)
  have waits := threads_enter_self unowned 0
  rw [staged.next] at waits
  obtain ⟨later, run, quiet, calls, total⟩ := race_run
    (enter_run staged.run (staged.others _ apart.symm) 0) apart
    ((threads_enter_of_ne apart 0).trans staged.waiting) waits
    (fun thread notFirst notLast =>
      (threads_enter_of_ne notLast 0).trans (staged.others thread notFirst))
    staged.empty
  refine ⟨later, run, quiet, ?_, ?_⟩
  · rw [calls]
    exact congrArg (· + 1) staged.calls
  · rw [total, shards_enter, Sharded.total_claim, staged.total]
    rfl

end FilterState

/-- A process with 65 threads in which one of 65 calls is not counted. -/
theorem statistics_lose_query :
    ∃ s : FilterState (Fin 65), FilterRun .start s ∧ s.Quiet ∧ s.calls = 65 ∧
      s.dnsBloomStats.queries = 64 :=
  FilterState.lost_query (Function.Embedding.refl _)

/-- **The statistics are exact for 64 threads and no more.** After every run that ends with
no call in progress, `dns_bloom_stats` reports the calls of `dns_bloom_maybe` since the last
reset and those that returned 0, if the process has at most as many threads as there are
shards. With more threads two of them share a shard, and some run loses a count. -/
theorem exactStatistics_iff (ι : Type) [DecidableEq ι] :
    ExactStatistics ι ↔ Finite ι ∧ Nat.card ι ≤ statShards := by
  constructor
  · intro always
    by_contra many
    have threads : Nonempty (Fin (statShards + 1) ↪ ι) := by
      rcases finite_or_infinite ι with finite | infinite
      · have := Fintype.ofFinite ι
        apply Function.Embedding.nonempty_of_card_le
        rw [Fintype.card_fin, ← Nat.card_eq_fintype_card]
        exact Nat.succ_le_of_lt (lt_of_not_ge fun few => many ⟨finite, few⟩)
      · exact ⟨Fin.valEmbedding.trans (Infinite.natEmbedding ι)⟩
    obtain ⟨s, run, quiet, calls, total⟩ := FilterState.lost_query threads.some
    have reported := (always s run quiet).1
    rw [calls] at reported
    exact absurd (total.symm.trans reported) (by decide)
  · intro few
    have := few.1
    have := Fintype.ofFinite ι
    apply exactStatistics_of_card_le
    rw [← Nat.card_eq_fintype_card]
    exact few.2

end FizzDns
