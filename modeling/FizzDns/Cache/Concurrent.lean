import FizzDns.Foundation.Linearizability
import FizzDns.Cache.Interleaving
import FizzDns.Cache.FilterCount

/-!
# Threads share the cache

Any number of threads call `dns_cache_get` and `dns_cache_put`, interleaved at every access to
what they share. A lookup loads the filter's counters one by one and without the mutex; if it
sees a zero it counts a miss and returns. All else happens under the mutex.

The map is only touched under the mutex, so `lock` executes the whole part under it at once.
The filter is read by others meanwhile: the calls that the part makes to it are written down
(`recordingBloom`), and executed by `write`, one load or store at a time, before `unlock`.
-/

namespace FizzDns

open FilterRace Linearizability

/-- A call of a thread, with the clock reading at its start. `allocates` says whether `calloc`
succeeds. -/
inductive CacheCall where
  | get (name : CString) (qtype : UInt16) (cap : Nat) (now : Int)
  | put (name : CString) (qtype : UInt16) (ans : List DnsAnswer) (rcode : Nat) (now : Int)
      (allocates : Bool)
  deriving DecidableEq

namespace CacheCall

/-- The key that a call is about. -/
def key : CacheCall → CacheKey
  | .get name qtype _ _ => cacheKey name.chars qtype
  | .put name qtype _ _ _ _ => cacheKey name.chars qtype

/-- The call as an operation of the sequential model. -/
def toOp : CacheCall → CacheOp
  | .get name qtype cap now => .get name qtype cap now
  | .put name qtype ans rcode now allocates => .put name qtype ans rcode now allocates

/-- The slots that `dns_bloom_maybe` loads. -/
def slots : CacheCall → List (Fin bloomSlotCount)
  | .get name qtype _ _ => bloomSlots (dnsKeyHash name.chars qtype)
  | .put _ _ _ _ _ _ => []

/-- What a call does under the mutex. -/
def locked {β : Type} (bloom : BloomOps β) :
    CacheCall → CacheState β → Option (Option CacheHit × CacheState β)
  | .get name qtype cap now, s =>
      cacheGetLocked bloom (dnsKeyHash name.chars qtype) name.chars qtype cap now s
  | .put name qtype ans rcode now allocates, s => do
      let s ← dnsCachePut bloom name qtype ans rcode now allocates s
      some (none, s)

end CacheCall

/-- Where a thread is: outside, before a load of `dns_bloom_maybe`, behind one that saw a zero, at
`pthread_mutex_lock`, between lock and unlock, or before its return. A put returns nothing. -/
inductive CacheThread where
  | idle
  | testing (call : CacheCall) (slot : Fin bloomSlotCount) (left : List (Fin bloomSlotCount))
  | rejected
  | waiting (call : CacheCall)
  | inside (result : Option CacheHit)
  | returning (result : Option CacheHit)
  deriving DecidableEq

/-- A thread that has seen no zero, with slots left to load. -/
def CacheThread.resume (call : CacheCall) : List (Fin bloomSlotCount) → CacheThread
  | [] => .waiting call
  | slot :: left => .testing call slot left

/-- The static variables of `dns_cache.c`, those of `dns_bloom.c` with what the owner of the mutex
has still to do to them, the mutex, and the threads. -/
structure SharedCache (ι : Type) where
  cache : CacheState (List (Call CacheKey))
  filter : Race Empty CacheKey (Fin bloomSlotCount)
  owner : Option ι
  threads : ι → CacheThread

/-- What one thread does next. -/
inductive CacheEvent (ι : Type) where
  | call (thread : ι) (call : CacheCall)
  | load (thread : ι)
  | miss (thread : ι)
  | lock (thread : ι)
  | write (thread : ι)
  | unlock (thread : ι)
  | ret (thread : ι) (result : Option CacheHit)

/-- What the callers see of an event. -/
def CacheEvent.visible {ι : Type} :
    CacheEvent ι → Option (Action ι CacheCall (Option CacheHit))
  | .call thread asked => some (.call thread asked)
  | .ret thread result => some (.ret thread result)
  | .load _ => none
  | .miss _ => none
  | .lock _ => none
  | .write _ => none
  | .unlock _ => none

/-- The names that a call stores fit into a node. -/
def CacheEvent.Fits {ι : Type} : CacheEvent ι → Prop
  | .call _ asked => asked.toOp.Fits
  | _ => True

instance {ι : Type} (event : CacheEvent ι) : Decidable event.Fits := by
  cases event <;> unfold CacheEvent.Fits <;> infer_instance

namespace SharedCache

variable {ι : Type} [DecidableEq ι]

/-- An initialised cache, before any call. -/
def start : SharedCache ι where
  cache := .start []
  filter := .start []
  owner := none
  threads := fun _ => .idle

/-- A thread moves. -/
def moveTo (thread : ι) (place : CacheThread) (s : SharedCache ι) : SharedCache ι :=
  { s with threads := Function.update s.threads thread place }

section Move

variable {s : SharedCache ι} {thread other : ι} {place : CacheThread}

@[simp] theorem moveTo_cache : (s.moveTo thread place).cache = s.cache := rfl

@[simp] theorem moveTo_filter : (s.moveTo thread place).filter = s.filter := rfl

@[simp] theorem moveTo_owner : (s.moveTo thread place).owner = s.owner := rfl

@[simp] theorem moveTo_self : (s.moveTo thread place).threads thread = place :=
  Function.update_self ..

/-- A thread moves itself only. -/
theorem moveTo_of_ne (differ : other ≠ thread) :
    (s.moveTo thread place).threads other = s.threads other :=
  Function.update_of_ne differ _ _

end Move

/-- One event. -/
def step (event : CacheEvent ι) (s : SharedCache ι) : Option (SharedCache ι) :=
  match event with
  | .call thread call =>
      match s.threads thread with
      | .idle => some (s.moveTo thread (.resume call call.slots))
      | _ => none
  | .load thread =>
      match s.threads thread with
      | .testing call slot left =>
          if s.filter.slots slot = 0 then some (s.moveTo thread .rejected)
          else some (s.moveTo thread (.resume call left))
      | _ => none
  | .miss thread =>
      match s.threads thread with
      | .rejected => some ({ s with cache := s.cache.miss }.moveTo thread (.returning none))
      | _ => none
  | .lock thread =>
      match s.owner, s.threads thread with
      | none, .waiting call => do
          let (result, cache) ← call.locked recordingBloom s.cache
          let calls := cache.bloom.drop s.cache.bloom.length
          some ({ s with
            cache := cache
            filter := { s.filter with calls := calls }
            owner := some thread }.moveTo thread (.inside result))
      | _, _ => none
  | .write thread =>
      if s.owner = some thread then do
        let (filter, _) ← writeStep keySlots s.filter
        some { s with filter := filter }
      else none
  | .unlock thread =>
      match s.threads thread, s.filter.calls, s.filter.current with
      | .inside result, [], none =>
          if s.owner = some thread then
            some ({ s with owner := none }.moveTo thread (.returning result))
          else none
      | _, _, _ => none
  | .ret thread result =>
      match s.threads thread with
      | .returning returned =>
          if returned = result then some (s.moveTo thread .idle) else none
      | _ => none

/-- The same, one rule for each thing that can happen. -/
inductive Moves : CacheEvent ι → SharedCache ι → SharedCache ι → Prop where
  | call {s : SharedCache ι} {thread : ι} (call : CacheCall) (here : s.threads thread = .idle) :
      Moves (.call thread call) s (s.moveTo thread (.resume call call.slots))
  | reject {s : SharedCache ι} {thread : ι} {call : CacheCall} {slot : Fin bloomSlotCount}
      {left : List (Fin bloomSlotCount)} (here : s.threads thread = .testing call slot left)
      (zero : s.filter.slots slot = 0) : Moves (.load thread) s (s.moveTo thread .rejected)
  | pass {s : SharedCache ι} {thread : ι} {call : CacheCall} {slot : Fin bloomSlotCount}
      {left : List (Fin bloomSlotCount)} (here : s.threads thread = .testing call slot left)
      (raised : s.filter.slots slot ≠ 0) :
      Moves (.load thread) s (s.moveTo thread (.resume call left))
  | miss {s : SharedCache ι} {thread : ι} (here : s.threads thread = .rejected) :
      Moves (.miss thread) s ({ s with cache := s.cache.miss }.moveTo thread (.returning none))
  | lock {s : SharedCache ι} {thread : ι} {call : CacheCall} {result : Option CacheHit}
      {cache : CacheState (List (Call CacheKey))} (here : s.threads thread = .waiting call)
      (free : s.owner = none) (locked : call.locked recordingBloom s.cache = some (result, cache)) :
      Moves (.lock thread) s ({ s with
        cache := cache
        filter := { s.filter with calls := cache.bloom.drop s.cache.bloom.length }
        owner := some thread }.moveTo thread (.inside result))
  | write {s : SharedCache ι} {thread : ι} {filter : Race Empty CacheKey (Fin bloomSlotCount)}
      {mark : Option (Mark CacheKey)} (owner : s.owner = some thread)
      (wrote : writeStep keySlots s.filter = some (filter, mark)) :
      Moves (.write thread) s { s with filter := filter }
  | unlock {s : SharedCache ι} {thread : ι} {result : Option CacheHit}
      (here : s.threads thread = .inside result) (noCalls : s.filter.calls = [])
      (idle : s.filter.current = none) (owner : s.owner = some thread) :
      Moves (.unlock thread) s ({ s with owner := none }.moveTo thread (.returning result))
  | ret {s : SharedCache ι} {thread : ι} {result : Option CacheHit}
      (here : s.threads thread = .returning result) :
      Moves (.ret thread result) s (s.moveTo thread .idle)

variable {s next : SharedCache ι} {event : CacheEvent ι}

/-- What an event can do. -/
theorem moves_of_step (stepped : s.step event = some next) : Moves event s next := by
  cases event with
  | call thread call =>
      simp only [step] at stepped
      split at stepped
      · next here =>
          cases stepped
          exact .call call here
      · cases stepped
  | load thread =>
      simp only [step] at stepped
      split at stepped
      · next call slot left here =>
          split at stepped
          · next zero =>
              cases stepped
              exact .reject here zero
          · next raised =>
              cases stepped
              exact .pass here raised
      · cases stepped
  | miss thread =>
      simp only [step] at stepped
      split at stepped
      · next here =>
          cases stepped
          exact .miss here
      · cases stepped
  | lock thread =>
      simp only [step] at stepped
      split at stepped
      · next call free here =>
          obtain ⟨⟨result, cache⟩, locked, done⟩ := Option.bind_eq_some_iff.mp stepped
          cases done
          exact .lock here free locked
      · cases stepped
  | write thread =>
      simp only [step] at stepped
      split at stepped
      · next owner =>
          obtain ⟨⟨filter, mark⟩, wrote, done⟩ := Option.bind_eq_some_iff.mp stepped
          cases done
          exact .write owner wrote
      · cases stepped
  | unlock thread =>
      simp only [step] at stepped
      split at stepped
      · next result here noCalls idle =>
          split at stepped
          · next owner =>
              cases stepped
              exact .unlock here noCalls idle owner
          · cases stepped
      · cases stepped
  | ret thread result =>
      simp only [step] at stepped
      split at stepped
      · next returned here =>
          split at stepped
          · next equal =>
              cases stepped
              subst equal
              exact .ret here
          · cases stepped
      · cases stepped

/-- Every move is an event. -/
theorem step_of_moves (moves : Moves event s next) : s.step event = some next := by
  cases moves with
  | call call here => simp only [step, here]
  | reject here zero => simp only [step, here, zero, if_true]
  | pass here raised => simp only [step, here, raised, if_false]
  | miss here => simp only [step, here]
  | lock here free locked =>
      simp only [step, here, free, locked, Option.bind_eq_bind, Option.bind_some]
  | write owner wrote => simp only [step, owner, wrote, if_true, Option.bind_eq_bind,
      Option.bind_some]
  | unlock here noCalls idle owner => simp only [step, here, noCalls, idle, owner, if_true]
  | ret here => simp only [step, here, if_true]

end SharedCache

/-! ## What a call does to the filter -/

/-- The filter calls of the eviction loop. -/
def LruCache.evictionCalls (now : Int) (cache : LruCache) : List (Call CacheKey) :=
  if cache.entries.length < cacheCapacity then []
  else match LruCache.victim now cache.entries with
    | none => []
    | some entry => [.del entry.key]

/-- The filter calls of the part under the mutex. -/
def CacheCall.filterWork (cache : LruCache) : CacheCall → List (Call CacheKey)
  | .get name qtype _ now =>
      match cache.lookup (cacheKey name.chars qtype) with
      | none => []
      | some entry => if entry.expires ≤ now then [.del entry.key] else []
  | .put name qtype _ _ now allocates =>
      match cache.lookup (cacheKey name.chars qtype) with
      | some _ => []
      | none => cache.evictionCalls now ++
          if allocates then [.add (cacheKey name.chars qtype)] else []

variable {s next : CacheState (List (Call CacheKey))} {cache : LruCache}

/-- The eviction loop deletes its victim from the filter, if the cache is full. -/
theorem evictWhileFull_calls (refines : Refines recordingLaw s cache) {now : Int}
    (done : evictWhileFull recordingBloom now walkFuel s = some next) :
    next.bloom = s.bloom ++ cache.evictionCalls now := by
  rw [show walkFuel = cacheCapacity - 1 + 1 + 1 from rfl, evictWhileFull] at done
  by_cases full : s.entryCount ≥ cacheCapacity
  · obtain ⟨⟨order, arranged⟩, tracked⟩ := refines
    have counted : s.entryCount = cache.entries.length := by
      rw [arranged.count, ← arranged.contents, List.length_map]
    have nonempty : order ≠ [] := by
      rintro rfl
      rw [arranged.count] at full
      exact absurd full (by decide)
    obtain ⟨front, node, back, roomy, rfl, victim, evicted, layout, count, filter⟩ :=
      arranged.layout.evictOne recordingBloom arranged.length_le nonempty now
    rw [arranged.contents] at victim
    rw [if_pos full, evicted, Option.bind_eq_bind, Option.bind_some, evictWhileFull] at done
    -- one eviction is enough
    have room : ¬ roomy.entryCount ≥ cacheCapacity := by
      have bounded := arranged.length_le
      rw [count, arranged.count]
      simp only [List.length_append, List.length_cons, cacheCapacity] at bounded ⊢
      rw [sizeSub_of_le (by omega) (by omega)]
      omega
    rw [if_neg room] at done
    cases done
    rw [filter, LruCache.evictionCalls, if_neg (by rw [← counted]; exact Nat.not_lt.mpr full),
      victim]
    rfl
  · rw [if_neg full] at done
    cases done
    rw [LruCache.evictionCalls, if_pos (by rw [← refines.count]; exact Nat.lt_of_not_ge full),
      List.append_nil]

/-- The filter calls of a lookup. -/
theorem cacheGetLocked_calls (refines : Refines recordingLaw s cache) {name : CString}
    {qtype : UInt16} {cap : Nat} {now : Int} {result : Option CacheHit}
    (done : cacheGetLocked recordingBloom (dnsKeyHash name.chars qtype) name.chars qtype cap now s =
      some (result, next)) :
    next.bloom = s.bloom ++ (CacheCall.get name qtype cap now).filterWork cache := by
  obtain ⟨⟨order, arranged⟩, tracked⟩ := refines
  rcases arranged.bucketFind name.chars qtype with
    ⟨absent, missed⟩ | ⟨front, node, back, rfl, present, found⟩
  · simp only [cacheGetLocked, missed, Option.bind_eq_bind, Option.bind_some] at done
    cases done
    simp only [CacheCall.filterWork, absent, List.append_nil]
    rfl
  · obtain ⟨content, live, stored⟩ := arranged.layout.live
      (Or.inl (show node ∈ front ++ node :: back by simp))
    have expiry : content.expires = node.2.expires := congrArg CacheEntry.expires stored
    simp only [cacheGetLocked, found, Heap.read, live, Option.bind_eq_bind, Option.bind_some,
      expiry] at done
    by_cases dead : node.2.expires ≤ now
    · obtain ⟨left, destroyed, _, _, filter, _⟩ :=
        arranged.layout.nodeDestroy recordingBloom arranged.length_le
      rw [if_pos dead, destroyed, Option.bind_some] at done
      cases done
      simp only [CacheCall.filterWork, present, dead, if_true]
      exact filter
    · rw [if_neg dead] at done
      obtain ⟨middle, unlinked, done⟩ := Option.bind_eq_some_iff.mp done
      obtain ⟨last, pushed, same⟩ := Option.bind_eq_some_iff.mp done
      cases same
      simp only [CacheCall.filterWork, present, dead, if_false, List.append_nil]
      exact (lruPushFront_bloom pushed).trans (lruUnlink_bloom unlinked)

/-- The filter calls of a put. -/
theorem dnsCachePut_calls (refines : Refines recordingLaw s cache) {name : CString}
    {qtype : UInt16} {ans : List DnsAnswer} {rcode : Nat} {now : Int} {allocates : Bool}
    (done : dnsCachePut recordingBloom name qtype ans rcode now allocates s = some next) :
    next.bloom =
      s.bloom ++ (CacheCall.put name qtype ans rcode now allocates).filterWork cache := by
  obtain ⟨⟨order, arranged⟩, tracked⟩ := refines
  rcases arranged.bucketFind name.chars qtype with
    ⟨absent, missed⟩ | ⟨front, node, back, rfl, present, found⟩
  · simp only [dnsCachePut, missed, Option.bind_eq_bind, Option.bind_some] at done
    obtain ⟨roomy, evicted, done⟩ := Option.bind_eq_some_iff.mp done
    have work := evictWhileFull_calls ⟨⟨order, arranged⟩, tracked⟩ evicted
    simp only [CacheCall.filterWork, absent]
    rw [← List.append_assoc, ← work]
    split at done
    · next allocated =>
        rw [fillNode_bloom done, if_pos allocated]
        rfl
    · next failed =>
        cases done
        rw [if_neg failed, List.append_nil]
  · simp only [dnsCachePut, found, Option.bind_eq_bind, Option.bind_some] at done
    obtain ⟨middle, unlinked, filled⟩ := Option.bind_eq_some_iff.mp done
    rw [fillNode_bloom filled, lruUnlink_bloom unlinked]
    simp only [CacheCall.filterWork, present, List.append_nil]

/-- The part under the mutex does what the abstract cache does, and writes down its calls to the
filter. -/
theorem CacheCall.locked_refines {call : CacheCall} (fits : call.toOp.Fits)
    (refines : Refines recordingLaw s cache) :
    ∃ next, call.locked recordingBloom s = some ((cache.step call.toOp).1, next) ∧
      Refines recordingLaw next (cache.step call.toOp).2 ∧
      next.bloom = s.bloom ++ call.filterWork cache := by
  cases call with
  | get name qtype cap now =>
      obtain ⟨next, done, result⟩ := dnsCacheGet_refines refines name qtype cap now
      exact ⟨next, done, result, cacheGetLocked_calls refines done⟩
  | put name qtype ans rcode now allocates =>
      obtain ⟨next, done, result⟩ := dnsCachePut_refines refines fits qtype ans rcode now allocates
      refine ⟨next, ?_, result, dnsCachePut_calls refines done⟩
      rw [locked, done]
      rfl

end FizzDns
