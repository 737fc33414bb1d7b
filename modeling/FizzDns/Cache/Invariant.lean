import FizzDns.Cache.Refinement

/-!
# The representation invariant

What `dns_cache.c` relies on between two calls, in terms of its own pointers: the LRU
list and the bucket chains run through the same nodes, every node is in the bucket of
its key, keys are unique, and the counter is right. It holds after every sequence of
calls, whatever `calloc` and the clock do.
-/

namespace FizzDns

variable {β : Type} {bloom : BloomOps β} {law : FilterLaw bloom} {s : CacheState β}

/-- The invariant of the two linked structures, `order` being the nodes from `lru_head`
to `lru_tail`. -/
structure CacheInvariant (s : CacheState β) (order : List Addr) : Prop where
  /-- Every node is on the LRU list once. -/
  nodup : order.Nodup
  /-- Every node on the LRU list is allocated. -/
  live : ∀ n ∈ order, ∃ node, s.heap.cells n = some node
  head : s.lruHead = order.head?
  tail : s.lruTail = order.getLast?
  head_null_iff : s.lruHead = none ↔ s.lruTail = none
  head_prev : ∀ n node, s.lruHead = some n → s.heap.cells n = some node → node.prev = none
  tail_next : ∀ n node, s.lruTail = some n → s.heap.cells n = some node → node.next = none
  /-- A node's links lead to its neighbours in the order. -/
  neighbours : ∀ front n back node, order = front ++ n :: back → s.heap.cells n = some node →
    node.prev = front.getLast? ∧ node.next = back.head?
  inverse : ∀ m n left right, m ∈ order → n ∈ order → s.heap.cells m = some left →
    s.heap.cells n = some right → (left.next = some n ↔ right.prev = some m)
  /-- The chains run through the same nodes, each on the chain of its bucket, once. -/
  buckets : ∀ b, ∃ chain, Chain bucketLink s.heap.cells (s.buckets b) chain ∧ chain.Nodup ∧
    ∀ n, n ∈ chain ↔ n ∈ order ∧ ∃ node, s.heap.cells n = some node ∧
      bucketOf (dnsKeyHash node.name.chars node.qtype) = b
  unique : ∀ m n left right, m ∈ order → n ∈ order → s.heap.cells m = some left →
    s.heap.cells n = some right → left.qtype = right.qtype →
    dnsNameEqual left.name.chars right.name.chars = true → m = n
  count : s.entryCount = order.length
  bounded : s.entryCount ≤ cacheCapacity

/-- Between two calls the invariant holds. -/
theorem Arranged.invariant {order : List (Addr × CacheEntry)} {cache : LruCache}
    (arranged : Arranged s order cache) : CacheInvariant s (order.map Prod.fst) := by
  have holds := arranged.layout.lru
  have stored : ∀ {n : Addr} {node : CacheNode}, n ∈ order.map Prod.fst →
      s.heap.cells n = some node → (n, node.toCacheEntry) ∈ order := by
    intro n node member live
    obtain ⟨⟨_, entry⟩, listed, rfl⟩ := List.mem_map.mp member
    obtain ⟨content, found, rfl⟩ := arranged.layout.live (Or.inl listed)
    rw [Option.some.inj (live.symm.trans found)]
    exact listed
  have neighbours : ∀ front n back node, order.map Prod.fst = front ++ n :: back →
      s.heap.cells n = some node → node.prev = front.getLast? ∧ node.next = back.head? := by
    intro front n back node split live
    rw [split] at holds
    exact holds.neighbours live
  exact
    { nodup := holds.nodup
      live := fun n member => DList.segment_live holds.segment member
      head := holds.head_eq
      tail := holds.tail_eq
      head_null_iff := by
        rw [show s.lruHead = _ from holds.head_eq, show s.lruTail = _ from holds.tail_eq]
        simp
      head_prev := fun n node head live => by
        rw [show s.lruHead = _ from holds.head_eq, List.head?_eq_some_iff] at head
        obtain ⟨rest, split⟩ := head
        exact (neighbours [] n rest node split live).1
      tail_next := fun n node tail live => by
        rw [show s.lruTail = _ from holds.tail_eq, List.getLast?_eq_some_iff] at tail
        obtain ⟨rest, split⟩ := tail
        exact (neighbours rest n [] node split live).2
      neighbours := neighbours
      inverse := fun m n left right mMember nMember mLive nLive =>
        holds.next_iff_prev mMember nMember mLive nLive
      buckets := fun b => by
        obtain ⟨chain, chainHolds, nodup, members⟩ := arranged.layout.chained b
        refine ⟨chain, chainHolds, nodup, fun n => (members n).trans ⟨?_, ?_⟩⟩
        · rintro ⟨entry, listed, home⟩
          obtain ⟨content, live, rfl⟩ := arranged.layout.live (Or.inl listed)
          exact ⟨List.mem_map_of_mem (f := Prod.fst) listed, content, live, home⟩
        · rintro ⟨member, node, live, home⟩
          exact ⟨node.toCacheEntry, stored member live, home⟩
      unique := fun m n left right mMember nMember mLive nLive types names => by
        have keys : left.toCacheEntry.key = right.toCacheEntry.key :=
          Prod.ext ((dnsNameEqual_iff _ _).mp names) types
        have same := List.inj_on_of_nodup_map arranged.distinct (stored mMember mLive)
          (stored nMember nLive) keys
        exact congrArg Prod.fst same
      count := by rw [arranged.count, List.length_map]
      bounded := arranged.count ▸ arranged.length_le }

/-- The eviction loop is never stuck: a full cache has a victim, and the loop ends with
room for a new node. -/
structure EvictionProgress (bloom : BloomOps β) (s : CacheState β) : Prop where
  victim : ∀ now, s.entryCount ≥ cacheCapacity →
    ∃ next, evictOne bloom now s = some next ∧ next.entryCount + 1 = s.entryCount
  terminates : ∀ now, ∃ next, evictWhileFull bloom now walkFuel s = some next ∧
    next.entryCount < cacheCapacity

/-- While the cache is full there is something to evict, and then there is room. -/
theorem Refines.evictionProgress {cache : LruCache} (refines : Refines law s cache) :
    EvictionProgress bloom s where
  victim := fun now full => by
    obtain ⟨⟨order, arranged⟩, _⟩ := refines
    have nonempty : order ≠ [] := by
      rintro rfl
      rw [arranged.count] at full
      exact absurd full (by decide)
    obtain ⟨front, node, back, next, rfl, _, evicted, _, count, _⟩ :=
      arranged.layout.evictOne bloom arranged.length_le nonempty now
    refine ⟨next, evicted, ?_⟩
    rw [count, sizeSub_of_le (Nat.le_trans (by decide) full)]
    · exact Nat.sub_add_cancel (Nat.le_trans (by decide) full)
    · rw [arranged.count]
      exact Nat.lt_of_le_of_lt arranged.length_le (by decide)
  terminates := fun now => by
    obtain ⟨next, evicted, result⟩ := evictWhileFull_refines refines now
    exact ⟨next, evicted, by rw [result.count]; exact LruCache.makeRoom_room now cache⟩

/-- After initialisation, every sequence of calls with names that fit completes and
leaves the invariant. -/
theorem cacheRun_invariant (law : FilterLaw bloom) (s : CacheState β) (ops : List CacheOp)
    (fits : ∀ op ∈ ops, op.Fits) :
    ∃ results final order, cacheRun bloom ops (dnsCacheInit bloom s) = some (results, final) ∧
      CacheInvariant final order ∧ EvictionProgress bloom final := by
  obtain ⟨final, done, refines⟩ := cacheRun_refines (dnsCacheInit_refines law s) fits
  obtain ⟨order, arranged⟩ := refines.arranged
  exact ⟨_, final, _, done, arranged.invariant, refines.evictionProgress⟩

/-- Two puts, the second one without memory, and a lookup. -/
theorem cacheRun_invariant_example :
    ∃ results final order,
      cacheRun countingBloom
          [.put ⟨[97], by decide⟩ dnsTypeA [] dnsRcodeNxdomain 100 true,
            .put ⟨[98], by decide⟩ dnsTypeA [] dnsRcodeNxdomain 101 false,
            .get ⟨[65], by decide⟩ dnsTypeA 8 102]
          (dnsCacheInit countingBloom (.start fun _ => 0)) = some (results, final) ∧
        CacheInvariant final order ∧ EvictionProgress countingBloom final :=
  cacheRun_invariant countingLaw _ _ (by decide)

end FizzDns
