import FizzDns.Cache.Invariant

/-!
# The filter counts the cache

Every counter of the filter that is not pinned is the number of cache entries that use its slot, in
every state that calls of the cache can reach. A pinned counter stays pinned until the filter is
reset. As long as none is pinned, few counters differ from zero, and taking out the entries one by
one, in whatever order, leaves none that does.
-/

namespace FizzDns

variable {β : Type} {bloom : BloomOps β} {law : FilterLaw bloom} {s next : CacheState β}

/-! ## What the calls do to the filter -/

/-- One call of the cache to the filter that is not a reset. -/
inductive FilterCall (bloom : BloomOps β) : β → β → Prop where
  | add (name : Bytes) (qtype : UInt16) (filter : β) :
      FilterCall bloom filter (bloom.add name qtype filter)
  | del (name : Bytes) (qtype : UInt16) (filter : β) :
      FilterCall bloom filter (bloom.del name qtype filter)

/-- Any number of calls to the filter, none of them a reset. -/
abbrev FilterCalls (bloom : BloomOps β) : β → β → Prop :=
  Relation.ReflTransGen (FilterCall bloom)

/-- Taking a node out of the list leaves the filter alone. -/
theorem lruUnlink_bloom {n : Addr} (done : lruUnlink n s = some next) : next.bloom = s.bloom := by
  obtain ⟨list, _, rfl⟩ := Option.map_eq_some_iff.mp done
  rfl

/-- Putting a node in front leaves the filter alone. -/
theorem lruPushFront_bloom {n : Addr} (done : lruPushFront n s = some next) :
    next.bloom = s.bloom := by
  obtain ⟨list, _, rfl⟩ := Option.map_eq_some_iff.mp done
  rfl

/-- Destroying a node is one removal from the filter. -/
theorem nodeDestroy_bloom {n : Addr} (done : nodeDestroy bloom n s = some next) :
    ∃ name qtype, next.bloom = bloom.del name qtype s.bloom := by
  simp only [nodeDestroy, bucketUnlink, Option.bind_eq_bind, Option.bind_eq_some_iff,
    Option.some.injEq] at done
  obtain ⟨node, _, unlinked, ⟨_, _, _, _, rfl⟩, listed, moved, _, _, rfl⟩ := done
  exact ⟨_, _, lruUnlink_bloom moved⟩

/-- An eviction calls the filter, and does nothing else to it. -/
theorem evictOne_bloom {now : Int} (done : evictOne bloom now s = some next) :
    FilterCalls bloom s.bloom next.bloom := by
  simp only [evictOne, Option.bind_eq_bind, Option.bind_eq_some_iff] at done
  obtain ⟨expired, _, done⟩ := done
  split at done
  · cases done
    exact .refl
  · obtain ⟨middle, destroyed, same⟩ := Option.bind_eq_some_iff.mp done
    cases same
    obtain ⟨name, qtype, filter⟩ := nodeDestroy_bloom destroyed
    change FilterCalls bloom s.bloom middle.bloom
    rw [filter]
    exact .single (.del name qtype s.bloom)

/-- So do any number of evictions. -/
theorem evictWhileFull_bloom {now : Int} {fuel : Nat}
    (done : evictWhileFull bloom now fuel s = some next) :
    FilterCalls bloom s.bloom next.bloom := by
  induction fuel generalizing s with
  | zero => cases done
  | succ fuel ih =>
      rw [evictWhileFull] at done
      split at done
      · obtain ⟨middle, evicted, rest⟩ := Option.bind_eq_some_iff.mp done
        exact (evictOne_bloom evicted).trans (ih rest)
      · cases done
        exact .refl

/-- Filling a node leaves the filter alone. -/
theorem fillNode_bloom {n : Addr} {ans : List DnsAnswer} {rcode : Nat} {expires : Int}
    (done : fillNode n ans rcode expires s = some next) : next.bloom = s.bloom := by
  obtain ⟨heap, _, pushed⟩ := Option.bind_eq_some_iff.mp done
  have same := lruPushFront_bloom pushed
  exact same

/-- A put does to the filter what its calls do. -/
theorem dnsCachePut_bloom {name : CString} {qtype : UInt16} {ans : List DnsAnswer} {rcode : Nat}
    {now : Int} {allocates : Bool}
    (done : dnsCachePut bloom name qtype ans rcode now allocates s = some next) :
    FilterCalls bloom s.bloom next.bloom := by
  obtain ⟨found, _, done⟩ := Option.bind_eq_some_iff.mp done
  cases found with
  | some n =>
      obtain ⟨middle, unlinked, filled⟩ := Option.bind_eq_some_iff.mp done
      rw [fillNode_bloom filled, lruUnlink_bloom unlinked]
  | none =>
      obtain ⟨middle, evicted, done⟩ := Option.bind_eq_some_iff.mp done
      split at done
      · rw [fillNode_bloom done]
        exact (evictWhileFull_bloom evicted).tail (.add _ _ _)
      · cases done
        exact evictWhileFull_bloom evicted

/-- A lookup does to the filter what its calls do. -/
theorem dnsCacheGet_bloom {name : CString} {qtype : UInt16} {cap : Nat} {now : Int}
    {result : Option CacheHit}
    (done : dnsCacheGet bloom name qtype cap now s = some (result, next)) :
    FilterCalls bloom s.bloom next.bloom := by
  unfold dnsCacheGet at done
  split at done
  · obtain ⟨found, _, done⟩ := Option.bind_eq_some_iff.mp done
    cases found with
    | none =>
        cases done
        exact .refl
    | some n =>
        obtain ⟨node, _, done⟩ := Option.bind_eq_some_iff.mp done
        split at done
        · obtain ⟨middle, destroyed, same⟩ := Option.bind_eq_some_iff.mp done
          cases same
          obtain ⟨name, qtype, filter⟩ := nodeDestroy_bloom destroyed
          change FilterCalls bloom s.bloom middle.bloom
          rw [filter]
          exact .single (.del name qtype s.bloom)
        · obtain ⟨middle, unlinked, done⟩ := Option.bind_eq_some_iff.mp done
          obtain ⟨last, pushed, same⟩ := Option.bind_eq_some_iff.mp done
          cases same
          change FilterCalls bloom s.bloom last.bloom
          rw [lruPushFront_bloom pushed, lruUnlink_bloom unlinked]
  · cases done
    exact .refl

/-- The calls that reset the filter. -/
def CacheOp.Resets : CacheOp → Bool
  | .init => true
  | .put _ _ _ _ _ _ => false
  | .get _ _ _ _ => false
  | .fini => true

/-- A call that does not reset the filter adds to it and deletes from it. -/
theorem cacheStep_bloom {op : CacheOp} {result : Option CacheHit} (kept : op.Resets = false)
    (done : cacheStep bloom op s = some (result, next)) : FilterCalls bloom s.bloom next.bloom := by
  cases op with
  | init => cases kept
  | fini => cases kept
  | put name qtype ans rcode now allocates =>
      obtain ⟨middle, put, same⟩ := Option.bind_eq_some_iff.mp done
      cases same
      exact dnsCachePut_bloom put
  | get name qtype cap now => exact dnsCacheGet_bloom done

/-- Calls of which none resets the filter add to it and delete from it. -/
theorem cacheRun_bloom {ops : List CacheOp} {results : List (Option CacheHit)}
    (kept : ∀ op ∈ ops, op.Resets = false) (done : cacheRun bloom ops s = some (results, next)) :
    FilterCalls bloom s.bloom next.bloom := by
  induction ops generalizing s results with
  | nil =>
      cases done
      exact .refl
  | cons op ops ih =>
      obtain ⟨⟨result, middle⟩, stepped, done⟩ := Option.bind_eq_some_iff.mp done
      obtain ⟨⟨others, last⟩, rest, same⟩ := Option.bind_eq_some_iff.mp done
      cases same
      exact (cacheStep_bloom (kept op List.mem_cons_self) stepped).trans
        (ih (fun other member => kept other (List.mem_cons_of_mem _ member)) rest)

/-- A counter that is pinned stays pinned. -/
theorem FilterCalls.pinned {before after : BloomSlots}
    (calls : FilterCalls countingBloom before after) {slot : Fin bloomSlotCount}
    (full : before slot = 255) : after slot = 255 := by
  induction calls with
  | refl => exact full
  | tail _ call ih =>
      cases call with
      | add name qtype =>
          simp only [countingBloom, dnsBloomAdd]
          exact CountingFilter.add_pinned ih _
      | del name qtype =>
          simp only [countingBloom, dnsBloomDel]
          exact CountingFilter.del_pinned ih _

/-! ## Taking entries out -/

/-- `node_destroy` on one node after the other. -/
def destroyAll (bloom : BloomOps β) : List Addr → CacheState β → Option (CacheState β)
  | [], s => some s
  | n :: rest, s => do
      let s ← nodeDestroy bloom n s
      destroyAll bloom rest s

/-- Destroying all nodes, in whatever order, empties the cache. -/
theorem destroyAll_refines {removal : List Addr} {order : List (Addr × CacheEntry)}
    {cache : LruCache} (all : removal.Perm (order.map Prod.fst))
    (tracked : law.tracks s.bloom (cache.entries.map CacheEntry.key))
    (arranged : Arranged s order cache) :
    ∃ emptied, destroyAll bloom removal s = some emptied ∧
      Refines law emptied LruCache.empty := by
  induction removal generalizing s order cache with
  | nil =>
      have none : order = [] := List.map_eq_nil_iff.mp (List.nil_perm.mp all)
      subst none
      have empty : cache = LruCache.empty := LruCache.ext arranged.contents.symm
      exact ⟨s, rfl, empty ▸ ⟨⟨[], arranged⟩, tracked⟩⟩
  | cons n rest ih =>
      obtain ⟨node, member, rfl⟩ := List.mem_map.mp (all.subset List.mem_cons_self)
      obtain ⟨front, back, rfl⟩ := List.append_of_mem member
      have others : rest.Perm ((front ++ back).map Prod.fst) := by
        rw [List.map_append, List.map_cons] at all
        rw [List.map_append]
        exact (all.trans List.perm_middle).cons_inv
      obtain ⟨middle, destroyed, left, kept⟩ := nodeDestroy_arranged tracked arranged
      obtain ⟨emptied, done, refines⟩ := ih others kept left
      exact ⟨emptied, by simp [destroyAll, destroyed, done], refines⟩

/-- Destroying nodes pins no counter. -/
theorem destroyAll_unpinned {removal : List Addr} {s emptied : CacheState BloomSlots}
    (free : ∀ slot, s.bloom slot ≠ 255) (done : destroyAll countingBloom removal s = some emptied) :
    ∀ slot, emptied.bloom slot ≠ 255 := by
  induction removal generalizing s with
  | nil =>
      cases done
      exact free
  | cons n rest ih =>
      obtain ⟨middle, destroyed, done⟩ := Option.bind_eq_some_iff.mp done
      obtain ⟨name, qtype, filter⟩ := nodeDestroy_bloom destroyed
      apply ih _ done
      rw [filter]
      simp only [countingBloom, dnsBloomDel]
      exact CountingFilter.del_unpinned free _

/-! ## Counts -/

/-- Whether the entry at an address uses a slot of the filter. -/
def usesSlot (s : CacheState β) (slot : Fin bloomSlotCount) (n : Addr) : Bool :=
  match s.heap.cells n with
  | none => false
  | some node => slot ∈ bloomSlots (dnsKeyHash node.name.chars node.qtype)

/-- The slots that the keys of a cache occupy. -/
theorem length_flatMap_keySlots (keys : List CacheKey) :
    (keys.flatMap keySlots).length = bloomHashes * keys.length := by
  rw [List.length_flatMap, List.map_congr_left fun key _ => length_keySlots key, List.map_const',
    List.sum_replicate, smul_eq_mul, Nat.mul_comm]

section

variable {s : CacheState BloomSlots} {order : List (Addr × CacheEntry)} {cache : LruCache}

/-- A slot is occupied once for each entry in memory that uses it. -/
theorem Arranged.count_slots (arranged : Arranged s order cache) (slot : Fin bloomSlotCount) :
    ((cache.entries.map CacheEntry.key).flatMap keySlots).count slot =
      (order.map Prod.fst).countP (usesSlot s slot) := by
  rw [CountingFilter.count_flatMap_of_nodup keySlots_nodup, ← arranged.contents,
    List.countP_map, List.countP_map, List.countP_map]
  refine List.countP_congr fun node member => ?_
  obtain ⟨content, live, stored⟩ := arranged.layout.live (Or.inl member)
  simp only [Function.comp_apply, usesSlot, live]
  rw [← stored, CacheEntry.key, keySlots_cacheKey]

/-- Every counter of a filter that tracks the cache is pinned or counts the entries in memory that
use its slot. -/
theorem Arranged.counters (arranged : Arranged s order cache)
    (tracked : countingLaw.tracks s.bloom (cache.entries.map CacheEntry.key))
    (slot : Fin bloomSlotCount) :
    s.bloom slot = 255 ∨
      (s.bloom slot).toNat = (order.map Prod.fst).countP (usesSlot s slot) := by
  rw [← arranged.count_slots slot]
  exact tracked slot

/-- The counters that differ from zero, while none is pinned. -/
theorem Arranged.card_nonzero_le (arranged : Arranged s order cache)
    (tracked : countingLaw.tracks s.bloom (cache.entries.map CacheEntry.key))
    (free : ∀ slot, s.bloom slot ≠ 255) :
    (Finset.univ.filter fun slot => s.bloom slot ≠ 0).card ≤ bloomHashes * s.entryCount := by
  have bound := CountingFilter.Exact.card_nonzero_le tracked free
  rwa [length_flatMap_keySlots, List.length_map, ← arranged.contents, List.length_map,
    ← arranged.count] at bound

/-- A filter that tracks nothing and has no pinned counter is as it was reset. -/
theorem bloom_eq_reset (tracked : countingLaw.tracks s.bloom [])
    (free : ∀ slot, s.bloom slot ≠ 255) : s.bloom = dnsBloomReset := by
  funext slot
  have counted := (tracked slot).resolve_left (free slot)
  exact UInt8.toNat_inj.mp counted

end

/-- **Counters are exact until they are pinned.** After any calls from the start of the process,
each counter is 255 or the number of entries that use its slot; one that is 255 stays so until a
call resets the filter. The slots of a hash are four and distinct. While no counter is pinned, at
most four times as many differ from zero as there are entries, and destroying the entries in any
order leaves the filter as after a reset. -/
theorem bloom_counters_exact (ops : List CacheOp) (fits : ∀ op ∈ ops, op.Fits) :
    (∀ hash, (bloomSlots hash).Nodup ∧ (bloomSlots hash).length = bloomHashes) ∧
    ∃ results s order,
      cacheRun countingBloom ops (.start dnsBloomReset) = some (results, s) ∧
      CacheInvariant s order ∧
      (∀ slot, s.bloom slot = 255 ∨ (s.bloom slot).toNat = order.countP (usesSlot s slot)) ∧
      (∀ more results' later slot, (∀ op ∈ more, op.Resets = false) →
        cacheRun countingBloom more s = some (results', later) →
        s.bloom slot = 255 → later.bloom slot = 255) ∧
      ((∀ slot, s.bloom slot ≠ 255) →
        (Finset.univ.filter fun slot => s.bloom slot ≠ 0).card ≤ bloomHashes * s.entryCount ∧
        ∀ removal : List Addr, removal.Perm order → ∃ emptied,
          destroyAll countingBloom removal s = some emptied ∧ emptied.entryCount = 0 ∧
            emptied.bloom = dnsBloomReset) := by
  refine ⟨fun hash => ⟨bloomSlots_nodup hash, length_bloomSlots hash⟩, ?_⟩
  have start : Refines countingLaw (.start dnsBloomReset) LruCache.empty :=
    ⟨⟨[], Layout.nil (fun _ => rfl) rfl rfl, rfl, rfl⟩, CountingFilter.exact_zero⟩
  obtain ⟨s, done, ⟨order, arranged⟩, tracked⟩ := cacheRun_refines start fits
  refine ⟨_, s, order.map Prod.fst, done, arranged.invariant, arranged.counters tracked, ?_, ?_⟩
  · intro more results' later slot kept run full
    exact (cacheRun_bloom kept run).pinned full
  · intro free
    refine ⟨arranged.card_nonzero_le tracked free, fun removal all => ?_⟩
    obtain ⟨emptied, destroyed, refines⟩ := destroyAll_refines all tracked arranged
    exact ⟨emptied, destroyed, refines.count,
      bloom_eq_reset refines.tracked (destroyAll_unpinned free destroyed)⟩

/-- Two entries, the first of which is put again, and a lookup that drops the other. -/
theorem bloom_counters_exact_example :
    (∀ hash, (bloomSlots hash).Nodup ∧ (bloomSlots hash).length = bloomHashes) ∧
    ∃ results s order,
      cacheRun countingBloom
          [.init, .put ⟨[97], by decide⟩ dnsTypeA [] dnsRcodeNxdomain 100 true,
            .put ⟨[98], by decide⟩ dnsTypeA [] dnsRcodeNxdomain 101 true,
            .put ⟨[65], by decide⟩ dnsTypeA [] dnsRcodeNoerror 102 true,
            .get ⟨[98], by decide⟩ dnsTypeA 8 500]
          (.start dnsBloomReset) = some (results, s) ∧
      CacheInvariant s order ∧
      (∀ slot, s.bloom slot = 255 ∨ (s.bloom slot).toNat = order.countP (usesSlot s slot)) := by
  obtain ⟨slots, results, s, order, done, invariant, counters, _⟩ :=
    bloom_counters_exact
      [.init, .put ⟨[97], by decide⟩ dnsTypeA [] dnsRcodeNxdomain 100 true,
        .put ⟨[98], by decide⟩ dnsTypeA [] dnsRcodeNxdomain 101 true,
        .put ⟨[65], by decide⟩ dnsTypeA [] dnsRcodeNoerror 102 true,
        .get ⟨[98], by decide⟩ dnsTypeA 8 500] (by decide)
  exact ⟨slots, results, s, order, done, invariant, counters⟩

end FizzDns
