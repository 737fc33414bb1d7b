import FizzDns.Cache.Linearizable

/-!
# The counters of the cache lose nothing

`hits`, `evictions` and `expirations` are raised under the mutex only; `misses` is raised under it
and, atomically, by lookups that the filter rejects. So the counters that `dns_cache_stats` reports
are exact whenever no call is going on, whatever order the calls overlapped in: every lookup is a
hit or a miss, the hits are the lookups that returned one, and every key that was added to the
filter is in the cache, or was evicted, or expired.
-/

namespace FizzDns

open FilterRace Linearizability

/-- `dns_cache_stats`: the counters and the number of entries. -/
def dnsCacheStats {β : Type} (s : CacheState β) : CacheStats × Nat :=
  (s.stats, s.entryCount)

/-! ## Under the mutex -/

section Locked

variable {β : Type} {bloom : BloomOps β} {s next : CacheState β}

/-- Taking a node out of the list counts nothing. -/
theorem lruUnlink_stats {n : Addr} (done : lruUnlink n s = some next) : next.stats = s.stats := by
  obtain ⟨list, _, rfl⟩ := Option.map_eq_some_iff.mp done
  rfl

/-- Putting a node in front counts nothing. -/
theorem lruPushFront_stats {n : Addr} (done : lruPushFront n s = some next) :
    next.stats = s.stats := by
  obtain ⟨list, _, rfl⟩ := Option.map_eq_some_iff.mp done
  rfl

/-- Destroying a node counts nothing: its callers do. -/
theorem nodeDestroy_stats {n : Addr} (done : nodeDestroy bloom n s = some next) :
    next.stats = s.stats := by
  simp only [nodeDestroy, bucketUnlink, Option.bind_eq_bind, Option.bind_eq_some_iff,
    Option.some.injEq] at done
  obtain ⟨node, _, unlinked, ⟨_, _, _, _, rfl⟩, listed, moved, _, _, rfl⟩ := done
  have same := lruUnlink_stats moved
  exact same

/-- Filling a node counts nothing. -/
theorem fillNode_stats {n : Addr} {ans : List DnsAnswer} {rcode : Nat} {expires : Int}
    (done : fillNode n ans rcode expires s = some next) : next.stats = s.stats := by
  obtain ⟨heap, _, pushed⟩ := Option.bind_eq_some_iff.mp done
  have same := lruPushFront_stats pushed
  exact same

end Locked

/-- The cache has counted a number of lookups, of which a number were hits, and what it has taken
out of the filter it has counted as evicted or expired. -/
structure CacheCounted (s next : CacheState (List (Call CacheKey))) (lookups hits : Nat) :
    Prop where
  hits : next.stats.hits = s.stats.hits + hits
  lookups : next.stats.hits + next.stats.misses = s.stats.hits + s.stats.misses + lookups
  removals : next.stats.evictions + next.stats.expirations + s.bloom.countP (!·.adds) =
    s.stats.evictions + s.stats.expirations + next.bloom.countP (!·.adds)

section CacheCounted

variable {s middle next : CacheState (List (Call CacheKey))} {lookups hits : Nat}

/-- Nothing to count. -/
theorem CacheCounted.of_same (stats : next.stats = s.stats) (log : next.bloom = s.bloom) :
    CacheCounted s next 0 0 where
  hits := congrArg CacheStats.hits stats
  lookups := by rw [stats, Nat.add_zero]
  removals := by rw [stats, log]

/-- What is counted in two parts of a call. -/
theorem CacheCounted.trans (first : CacheCounted s middle 0 0)
    (second : CacheCounted middle next lookups hits) : CacheCounted s next lookups hits where
  hits := by rw [second.hits, first.hits, Nat.add_zero]
  lookups := by rw [second.lookups, first.lookups, Nat.add_zero]
  removals := by
    have before := first.removals
    have after := second.removals
    omega

/-- A node that is destroyed has left the filter. -/
theorem nodeDestroy_counted {n : Addr} (done : nodeDestroy recordingBloom n s = some next) :
    next.stats = s.stats ∧ next.bloom.countP (!·.adds) = s.bloom.countP (!·.adds) + 1 := by
  obtain ⟨name, qtype, log⟩ := nodeDestroy_bloom done
  refine ⟨nodeDestroy_stats done, ?_⟩
  rw [log]
  simp [recordingBloom, Call.adds]

/-- An eviction counts the entry that it destroys. -/
theorem evictOne_counted {now : Int} (done : evictOne recordingBloom now s = some next) :
    CacheCounted s next 0 0 := by
  simp only [evictOne, Option.bind_eq_bind, Option.bind_eq_some_iff] at done
  obtain ⟨expired, _, done⟩ := done
  split at done
  · cases done
    exact .of_same rfl rfl
  · obtain ⟨left, destroyed, same⟩ := Option.bind_eq_some_iff.mp done
    cases same
    obtain ⟨stats, log⟩ := nodeDestroy_counted destroyed
    refine ⟨?_, ?_, ?_⟩
    · simp only [CacheState.evicted, stats, Nat.add_zero]
    · simp only [CacheState.evicted, stats, Nat.add_zero]
    · simp only [CacheState.evicted, stats, log]
      omega

/-- So do any number of evictions. -/
theorem evictWhileFull_counted {now : Int} {fuel : Nat}
    (done : evictWhileFull recordingBloom now fuel s = some next) : CacheCounted s next 0 0 := by
  induction fuel generalizing s with
  | zero => cases done
  | succ fuel ih =>
      rw [evictWhileFull] at done
      split at done
      · obtain ⟨left, evicted, rest⟩ := Option.bind_eq_some_iff.mp done
        exact (evictOne_counted evicted).trans (ih rest)
      · cases done
        exact .of_same rfl rfl

/-- A put counts no lookup. -/
theorem dnsCachePut_counted {name : CString} {qtype : UInt16} {ans : List DnsAnswer} {rcode : Nat}
    {now : Int} {allocates : Bool}
    (done : dnsCachePut recordingBloom name qtype ans rcode now allocates s = some next) :
    CacheCounted s next 0 0 := by
  obtain ⟨found, _, done⟩ := Option.bind_eq_some_iff.mp done
  cases found with
  | some n =>
      obtain ⟨left, unlinked, filled⟩ := Option.bind_eq_some_iff.mp done
      exact .of_same ((fillNode_stats filled).trans (lruUnlink_stats unlinked))
        ((fillNode_bloom filled).trans (lruUnlink_bloom unlinked))
  | none =>
      obtain ⟨roomy, evicted, done⟩ := Option.bind_eq_some_iff.mp done
      refine (evictWhileFull_counted evicted).trans ?_
      split at done
      · have stats : next.stats = roomy.stats := (fillNode_stats done).trans rfl
        refine ⟨congrArg CacheStats.hits stats, by rw [stats, Nat.add_zero], ?_⟩
        rw [stats, fillNode_bloom done]
        simp [linkNewNode, recordingBloom, Call.adds]
      · cases done
        exact .of_same rfl rfl

/-- A lookup under the mutex counts itself, and its hit. -/
theorem cacheGetLocked_counted {hash : UInt64} {name : Bytes} {qtype : UInt16} {cap : Nat}
    {now : Int} {result : Option CacheHit}
    (done : cacheGetLocked recordingBloom hash name qtype cap now s = some (result, next)) :
    CacheCounted s next 1 result.toList.length := by
  obtain ⟨found, _, done⟩ := Option.bind_eq_some_iff.mp done
  cases found with
  | none =>
      cases done
      exact ⟨rfl, rfl, rfl⟩
  | some n =>
      obtain ⟨node, _, done⟩ := Option.bind_eq_some_iff.mp done
      split at done
      · obtain ⟨left, destroyed, same⟩ := Option.bind_eq_some_iff.mp done
        cases same
        obtain ⟨stats, log⟩ := nodeDestroy_counted destroyed
        refine ⟨?_, ?_, ?_⟩
        · simp only [CacheState.expired, CacheState.miss, stats]
          rfl
        · simp only [CacheState.expired, CacheState.miss, stats]
          rfl
        · simp only [CacheState.expired, CacheState.miss, stats, log]
          omega
      · obtain ⟨left, unlinked, done⟩ := Option.bind_eq_some_iff.mp done
        obtain ⟨last, pushed, same⟩ := Option.bind_eq_some_iff.mp done
        cases same
        have kept : CacheCounted s last 0 0 := .of_same
          ((lruPushFront_stats pushed).trans (lruUnlink_stats unlinked))
          ((lruPushFront_bloom pushed).trans (lruUnlink_bloom unlinked))
        refine kept.trans ⟨rfl, ?_, rfl⟩
        simp only [CacheState.hit]
        omega

end CacheCounted

/-- How many lookups a call is. -/
def CacheCall.lookups : CacheCall → Nat
  | .get _ _ _ _ => 1
  | .put _ _ _ _ _ _ => 0

/-- What a call counts under the mutex. -/
theorem CacheCall.locked_counted {call : CacheCall} {s next : CacheState (List (Call CacheKey))}
    {result : Option CacheHit} (done : call.locked recordingBloom s = some (result, next)) :
    CacheCounted s next call.lookups result.toList.length := by
  cases call with
  | get name qtype cap now => exact cacheGetLocked_counted done
  | put name qtype ans rcode now allocates =>
      obtain ⟨after, put, same⟩ := Option.bind_eq_some_iff.mp done
      cases same
      exact dnsCachePut_counted put

/-! ## Threads -/

/-- The lookups that a thread has still to count. -/
def CacheThread.uncounted : CacheThread → Nat
  | .testing call _ _ => call.lookups
  | .rejected => 1
  | .waiting call => call.lookups
  | .idle => 0
  | .inside _ => 0
  | .returning _ => 0

/-- The counted hits that a thread has still to return. -/
def CacheThread.unreturned : CacheThread → Nat
  | .inside result => result.toList.length
  | .returning result => result.toList.length
  | .idle => 0
  | .testing _ _ _ => 0
  | .rejected => 0
  | .waiting _ => 0

/-- In the filter a lookup has not been counted. -/
theorem CacheThread.uncounted_resume (call : CacheCall) (left : List (Fin bloomSlotCount)) :
    (CacheThread.resume call left).uncounted = call.lookups := by
  cases left <;> rfl

/-- In the filter a lookup has no hit to return. -/
theorem CacheThread.unreturned_resume (call : CacheCall) (left : List (Fin bloomSlotCount)) :
    (CacheThread.resume call left).unreturned = 0 := by
  cases left <;> rfl

variable {ι : Type}

/-- How many lookups start with an event. -/
def CacheEvent.lookups : CacheEvent ι → Nat
  | .call _ asked => asked.lookups
  | _ => 0

/-- How many hits are returned with an event. -/
def CacheEvent.hits : CacheEvent ι → Nat
  | .ret _ result => result.toList.length
  | _ => 0

variable [Fintype ι]

/-- The counters, and what threads have still to add to them, are what the events say. -/
structure Balanced (past : List (CacheEvent ι)) (s : SharedCache ι) : Prop where
  hits : s.cache.stats.hits =
    (past.map CacheEvent.hits).sum + ∑ thread, (s.threads thread).unreturned
  lookups : s.cache.stats.hits + s.cache.stats.misses + ∑ thread, (s.threads thread).uncounted =
    (past.map CacheEvent.lookups).sum
  removals : s.cache.stats.evictions + s.cache.stats.expirations =
    s.cache.bloom.countP (!·.adds)

namespace Balanced

variable [DecidableEq ι] {past : List (CacheEvent ι)} {event : CacheEvent ι}
  {s next : SharedCache ι} {thread : ι} {place : CacheThread}

omit [DecidableEq ι] in
/-- Before the first call. -/
theorem start : Balanced [] (SharedCache.start : SharedCache ι) where
  hits := by simp [SharedCache.start, CacheState.start, CacheStats.zero, CacheThread.unreturned]
  lookups := by simp [SharedCache.start, CacheState.start, CacheStats.zero, CacheThread.uncounted]
  removals := rfl

/-- A thread moves and the cache counts; what the event says, the thread's share and the counters
change together. -/
theorem move (balanced : Balanced past s) {lookups hits : Nat}
    (counted : CacheCounted s.cache next.cache lookups hits)
    (threads : next.threads = Function.update s.threads thread place)
    (returned : (s.threads thread).unreturned + hits = event.hits + place.unreturned)
    (called : (s.threads thread).uncounted + event.lookups = lookups + place.uncounted) :
    Balanced (past ++ [event]) next := by
  have unreturned := Schedule.sum_weight_update CacheThread.unreturned s.threads thread place
  have uncounted := Schedule.sum_weight_update CacheThread.uncounted s.threads thread place
  have hitsBefore := balanced.hits
  have lookupsBefore := balanced.lookups
  have removalsBefore := balanced.removals
  obtain ⟨hitsAfter, lookupsAfter, removalsAfter⟩ := counted
  refine ⟨?_, ?_, ?_⟩
  · rw [List.map_append, List.sum_append, List.map_singleton, List.sum_singleton, threads]
    omega
  · rw [List.map_append, List.sum_append, List.map_singleton, List.sum_singleton, threads]
    omega
  · omega

/-- Every event keeps the balance. -/
theorem step {shared : Shared CacheMap ι CacheCall (Option CacheHit)} {shown cache : LruCache}
    {settled : List CacheKey} (tracks : Tracks s shared shown cache settled)
    (balanced : Balanced past s) (moves : SharedCache.Moves event s next) :
    Balanced (past ++ [event]) next := by
  have nothing : CacheCounted s.cache s.cache 0 0 := .of_same rfl rfl
  cases moves with
  | call call here =>
      refine balanced.move nothing rfl ?_ ?_
      · rw [here, CacheThread.unreturned_resume]
        rfl
      · rw [here, CacheThread.uncounted_resume]
        rfl
  | reject here zero =>
      refine balanced.move nothing rfl (by rw [here]; rfl) ?_
      obtain ⟨_, client, _, placed⟩ := tracks.outside here (by simp)
      rw [here]
      cases placed
      rfl
  | pass here raised =>
      refine balanced.move nothing rfl ?_ ?_
      · rw [here, CacheThread.unreturned_resume]
        rfl
      · rw [here, CacheThread.uncounted_resume]
        exact Nat.add_comm _ _
  | miss here =>
      have missed : CacheCounted s.cache s.cache.miss 1 0 := ⟨rfl, rfl, rfl⟩
      exact balanced.move missed rfl (by rw [here]; rfl) (by rw [here]; rfl)
  | lock here free locked =>
      refine balanced.move (CacheCall.locked_counted locked) rfl ?_ ?_
      · rw [here]
        rfl
      · rw [here]
        rfl
  | @write _ thread filter mark owner wrote =>
      refine balanced.move nothing (Function.update_eq_self thread _).symm ?_ ?_
      · exact Nat.add_comm _ _
      · exact Nat.add_comm _ _
  | unlock here noCalls idle owner =>
      refine balanced.move nothing rfl ?_ ?_
      · rw [here]
        exact Nat.add_comm _ _
      · rw [here]
        rfl
  | ret here =>
      refine balanced.move nothing rfl ?_ ?_
      · rw [here]
        rfl
      · rw [here]
        rfl

end Balanced

/-- When no call is going on, the counters are exact: there were as many hits as lookups returned
one, as many hits and misses as there were lookups, and as many entries, evictions and expirations
as there were additions to the filter. -/
theorem cacheCounters_exact [DecidableEq ι] {events : List (CacheEvent ι)} {final : SharedCache ι}
    (fits : ∀ event ∈ events, event.Fits)
    (done : Schedule.run SharedCache.step events .start = some final)
    (quiet : ∀ thread, final.threads thread = .idle) :
    (dnsCacheStats final.cache).1.hits = (events.map CacheEvent.hits).sum ∧
      (dnsCacheStats final.cache).1.hits + (dnsCacheStats final.cache).1.misses =
        (events.map CacheEvent.lookups).sum ∧
      (dnsCacheStats final.cache).2 + (dnsCacheStats final.cache).1.evictions +
        (dnsCacheStats final.cache).1.expirations = final.cache.bloom.countP (·.adds) := by
  have keeps : ∀ past event (s next : SharedCache ι), event.Fits →
      (∃ shared shown cache settled, Tracks s shared shown cache settled) ∧ Balanced past s →
      s.step event = some next →
      (∃ shared shown cache settled, Tracks next shared shown cache settled) ∧
        Balanced (past ++ [event]) next := by
    rintro past event s next fits ⟨⟨shared, shown, cache, settled, tracks⟩, balanced⟩ stepped
    obtain ⟨after, _, tracked⟩ := tracks.step fits stepped
    exact ⟨⟨after, tracked⟩, balanced.step tracks (SharedCache.moves_of_step stepped)⟩
  obtain ⟨⟨shared, shown, cache, settled, tracks⟩, balanced⟩ :=
    Schedule.run_invariant keeps fits ⟨⟨_, _, _, _, .start⟩, .start⟩ done
  have hits := balanced.hits
  have lookups := balanced.lookups
  have removals := balanced.removals
  simp only [quiet, CacheThread.unreturned, CacheThread.uncounted, Finset.sum_const_zero,
    Nat.add_zero, List.nil_append] at hits lookups
  refine ⟨hits, lookups, ?_⟩
  -- the entries are the keys that replaying the filter calls leaves
  obtain ⟨present, replayed, same⟩ := tracks.refines.tracked
  have length := replay_length replayed
  have entries := tracks.refines.count
  rw [same.length_eq, List.length_map, ← entries, ← removals, List.length_nil,
    Nat.zero_add] at length
  rw [dnsCacheStats, Nat.add_assoc]
  exact length

/-- After the overlapping calls: one hit, one miss, one entry. -/
theorem cacheCounters_exact_example :
    ∃ final, Schedule.run SharedCache.step overlappingCalls .start = some final ∧
      (dnsCacheStats final.cache).1.hits = 1 ∧
      (dnsCacheStats final.cache).1.hits + (dnsCacheStats final.cache).1.misses = 2 := by
  have ended : (Schedule.run SharedCache.step overlappingCalls .start).map
      (fun final => (final.threads 0, final.threads 1)) = some (.idle, .idle) := by
    decide +kernel
  obtain ⟨final, done, idle⟩ := Option.map_eq_some_iff.mp ended
  have quiet : ∀ thread, final.threads thread = .idle := by
    rw [Fin.forall_fin_two]
    exact Prod.mk.inj idle
  obtain ⟨hits, lookups, _⟩ := cacheCounters_exact (by decide) done quiet
  exact ⟨final, done, hits, lookups⟩

end FizzDns
