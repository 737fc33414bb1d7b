import FizzDns.Cache.Layout

/-!
# The cache in memory refines the abstract cache

`Refines law s cache` says that the nodes of `s` hold the entries of the abstract cache
in LRU order, that the entry counter counts them, and that the filter tracks their
keys. Every public function preserves it and returns what the abstract cache returns,
with every admissible filter; `cacheRun_refines` says so for whole runs, which in
particular never dereference a dangling pointer.
-/

namespace FizzDns

variable {β : Type} {bloom : BloomOps β} {law : FilterLaw bloom} {s : CacheState β}
  {order front back : List (Addr × CacheEntry)} {node : Addr × CacheEntry} {cache : LruCache}

/-- The nodes in LRU order hold the entries of an abstract cache. -/
structure Arranged (s : CacheState β) (order : List (Addr × CacheEntry)) (cache : LruCache) :
    Prop where
  layout : Layout s order order
  contents : order.map Prod.snd = cache.entries
  count : s.entryCount = order.length

/-- A cache in memory stands for an abstract cache. -/
structure Refines (law : FilterLaw bloom) (s : CacheState β) (cache : LruCache) : Prop where
  arranged : ∃ order, Arranged s order cache
  tracked : law.tracks s.bloom (cache.entries.map CacheEntry.key)

namespace Arranged

/-- There are at most 4096 nodes. -/
theorem length_le (arranged : Arranged s order cache) : order.length ≤ cacheCapacity := by
  rw [← List.length_map (f := Prod.snd), arranged.contents]
  exact cache.bounded

/-- No key has two nodes. -/
theorem distinct (arranged : Arranged s order cache) :
    (order.map fun node => node.2.key).Nodup := by
  have keys := cache.distinct
  rwa [← arranged.contents, List.map_map] at keys

/-- A lookup in memory and in the abstract cache find the same entry. -/
theorem bucketFind (arranged : Arranged s order cache) (name : Bytes) (qtype : UInt16) :
    (cache.lookup (cacheKey name qtype) = none ∧
      FizzDns.bucketFind (dnsKeyHash name qtype) name qtype s = some none) ∨
    ∃ front node back, order = front ++ node :: back ∧
      cache.lookup (cacheKey name qtype) = some node.2 ∧
      FizzDns.bucketFind (dnsKeyHash name qtype) name qtype s = some (some node.1) := by
  have walked := arranged.layout.bucketFind arranged.length_le arranged.distinct name qtype
  have abstract : cache.lookup (cacheKey name qtype) =
      (order.find? fun node => node.2.key = cacheKey name qtype).map Prod.snd := by
    rw [LruCache.lookup, Recency.lookup, ← arranged.contents, List.find?_map]
    rfl
  cases found : order.find? fun node => node.2.key = cacheKey name qtype with
  | none => exact Or.inl ⟨by rw [abstract, found]; rfl, by rw [walked, found]; rfl⟩
  | some node =>
      obtain ⟨front, back, split⟩ := List.append_of_mem (List.mem_of_find?_eq_some found)
      exact Or.inr ⟨front, node, back, split, by rw [abstract, found]; rfl,
        by rw [walked, found]; rfl⟩

/-- Without the node, the list represents the cache without its key. -/
theorem remove_entries (arranged : Arranged s (front ++ node :: back) cache) :
    (cache.remove node.2.key).entries = (front ++ back).map Prod.snd := by
  have distinct := cache.distinct
  rw [LruCache.remove]
  simp only [← arranged.contents, List.map_append, List.map_cons] at distinct ⊢
  rw [Recency.remove_split (by simpa using distinct)]

end Arranged

/-- The keys of the entries, one moved to the front. -/
private theorem tracked_split (tracked : law.tracks s.bloom (cache.entries.map CacheEntry.key))
    (arranged : Arranged s (front ++ node :: back) cache) :
    law.tracks s.bloom
      (node.2.key :: (cache.remove node.2.key).entries.map CacheEntry.key) := by
  refine law.perm tracked ?_
  rw [arranged.remove_entries, ← arranged.contents, ← List.map_cons, ← List.map_cons]
  exact (List.perm_middle.map Prod.snd).map CacheEntry.key

/-- The count goes down with the node. -/
private theorem count_pred (arranged : Arranged s (front ++ node :: back) cache) :
    sizeSub s.entryCount 1 = (front ++ back).length := by
  have bounded := arranged.length_le
  rw [arranged.count]
  simp only [List.length_append, List.length_cons, cacheCapacity] at bounded ⊢
  rw [sizeSub_of_le (by omega) (by omega)]
  omega

/-- Destroying a node takes it out of the order and its key out of the filter. -/
theorem nodeDestroy_arranged (tracked : law.tracks s.bloom (cache.entries.map CacheEntry.key))
    (arranged : Arranged s (front ++ node :: back) cache) :
    ∃ next, nodeDestroy bloom node.1 s = some next ∧
      Arranged next (front ++ back) (cache.remove node.2.key) ∧
      law.tracks next.bloom ((cache.remove node.2.key).entries.map CacheEntry.key) := by
  obtain ⟨next, destroyed, layout, count, filter, _⟩ :=
    arranged.layout.nodeDestroy bloom arranged.length_le
  refine ⟨next, destroyed, ⟨layout, arranged.remove_entries.symm, ?_⟩, ?_⟩
  · rw [count, count_pred arranged]
  · rw [filter]
    exact law.del (tracked_split tracked arranged)

/-- Destroying a node removes its key. -/
theorem nodeDestroy_refines (tracked : law.tracks s.bloom (cache.entries.map CacheEntry.key))
    (arranged : Arranged s (front ++ node :: back) cache) :
    ∃ next, nodeDestroy bloom node.1 s = some next ∧
      Refines law next (cache.remove node.2.key) := by
  obtain ⟨next, destroyed, result, kept⟩ := nodeDestroy_arranged tracked arranged
  exact ⟨next, destroyed, ⟨_, result⟩, kept⟩

/-- A full cache evicts the abstract victim. -/
theorem evictOne_refines (refines : Refines law s cache) (nonempty : cache.entries ≠ [])
    (now : Int) :
    ∃ entry next, LruCache.victim now cache.entries = some entry ∧
      evictOne bloom now s = some next ∧ Refines law next (cache.remove entry.key) := by
  obtain ⟨⟨order, arranged⟩, tracked⟩ := refines
  have someNode : order ≠ [] := by
    rintro rfl
    exact nonempty arranged.contents.symm
  obtain ⟨front, node, back, next, rfl, victim, evicted, layout, count, filter⟩ :=
    arranged.layout.evictOne bloom arranged.length_le someNode now
  rw [arranged.contents] at victim
  refine ⟨node.2, next, victim, evicted,
    ⟨front ++ back, layout, arranged.remove_entries.symm, ?_⟩, ?_⟩
  · rw [count, count_pred arranged]
  · rw [filter]
    exact law.del (tracked_split tracked arranged)

/-- The cache counts its entries. -/
theorem Refines.count (refines : Refines law s cache) : s.entryCount = cache.entries.length := by
  obtain ⟨⟨order, arranged⟩, _⟩ := refines
  rw [arranged.count, ← arranged.contents, List.length_map]

/-- The eviction loop makes room with at most one eviction. -/
theorem evictWhileFull_refines (refines : Refines law s cache) (now : Int) :
    ∃ next, evictWhileFull bloom now walkFuel s = some next ∧
      Refines law next (cache.makeRoom now) := by
  rw [show walkFuel = cacheCapacity - 1 + 1 + 1 from rfl, evictWhileFull]
  by_cases full : s.entryCount ≥ cacheCapacity
  · have nonempty : cache.entries ≠ [] := by
      intro empty
      rw [refines.count, empty] at full
      exact absurd full (by decide)
    obtain ⟨entry, next, victim, evicted, result⟩ := evictOne_refines refines nonempty now
    have made : cache.makeRoom now = cache.remove entry.key := by
      rw [LruCache.makeRoom, if_neg (by rw [← refines.count]; exact Nat.not_lt.mpr full),
        victim]
    refine ⟨next, ?_, made ▸ result⟩
    have room : ¬ next.entryCount ≥ cacheCapacity := by
      rw [result.count, ← made]
      exact Nat.not_le.mpr (LruCache.makeRoom_room now cache)
    rw [if_pos full, evicted, Option.bind_eq_bind, Option.bind_some, evictWhileFull, if_neg room]
  · refine ⟨s, if_neg full, ?_⟩
    rwa [LruCache.makeRoom, if_pos (by rw [← refines.count]; exact Nat.lt_of_not_ge full)]

/-- Counters are no part of what a cache stands for. -/
theorem Refines.of_stats (refines : Refines law s cache) (stats : CacheStats) :
    Refines law { s with stats := stats } cache := by
  obtain ⟨⟨order, arranged⟩, tracked⟩ := refines
  exact ⟨⟨order, arranged.layout.of_pointers rfl rfl rfl rfl, arranged.contents, arranged.count⟩,
    tracked⟩

/-- A node that is filled and pushed to the front is placed. -/
private theorem fillNode_refines (law : FilterLaw bloom) {listed others : List (Addr × CacheEntry)}
    (layout : Layout s listed (node :: others)) (same : listed.Perm others)
    (absent : node.1 ∉ listed.map Prod.fst) (ans : List DnsAnswer) (rcode : Nat) (expires : Int)
    (placed : cache.entries =
      { node.2 with ans := ans, rcode := rcode, expires := expires } :: listed.map Prod.snd)
    (count : s.entryCount = listed.length + 1)
    (tracked : law.tracks s.bloom (cache.entries.map CacheEntry.key)) :
    ∃ next, fillNode node.1 ans rcode expires s = some next ∧ Refines law next cache := by
  obtain ⟨next, filled, final, finalCount, finalFilter, _⟩ :=
    layout.fillNode absent ans rcode expires
  refine ⟨next, filled, ⟨_, final.perm (same.symm.cons _), placed.symm, ?_⟩, ?_⟩
  · rw [finalCount, count, List.length_cons]
  · rwa [finalFilter]

/-- A node is not among the others. -/
private theorem notMem_rest (layout : Layout s (front ++ node :: back) order) :
    node.1 ∉ (front ++ back).map Prod.fst := by
  have single := layout.listed_single
  rw [List.map_append, List.map_cons] at single
  rw [List.map_append]
  exact (List.nodup_cons.mp (List.nodup_middle.mp single)).1

/-! ## Public functions -/

/-- `dns_cache_init` leaves an empty cache. -/
theorem dnsCacheInit_refines (law : FilterLaw bloom) (s : CacheState β) :
    Refines law (dnsCacheInit bloom s) LruCache.empty where
  arranged := ⟨[], Layout.nil (fun _ => rfl) rfl rfl, rfl, rfl⟩
  tracked := law.reset s.bloom

/-- `dns_cache_fini` succeeds and leaves an empty cache. -/
theorem dnsCacheFini_refines (refines : Refines law s cache) :
    ∃ next, dnsCacheFini bloom s = some next ∧ Refines law next LruCache.empty := by
  obtain ⟨⟨order, arranged⟩, _⟩ := refines
  have segment : DList.Segment lruLinks s.heap.cells none (order.map Prod.fst) none :=
    arranged.layout.lru.segment
  have enough : (order.map Prod.fst).length < walkFuel := by
    rw [List.length_map]
    exact Nat.lt_succ_of_le arranged.length_le
  obtain ⟨heap, freed⟩ := Layout.freeAll arranged.layout.lru.nodup segment enough
  have head : s.lruHead = (order.map Prod.fst).head? := arranged.layout.lru.head_eq
  refine ⟨_, by rw [dnsCacheFini, head, freed]; rfl,
    ⟨[], Layout.nil (fun _ => rfl) rfl rfl, rfl, rfl⟩, law.reset s.bloom⟩

/-- `dns_cache_get` returns what the abstract cache returns. -/
theorem dnsCacheGet_refines (refines : Refines law s cache) (name : CString) (qtype : UInt16)
    (cap : Nat) (now : Int) :
    ∃ next, dnsCacheGet bloom name qtype cap now s =
        some ((cache.get name qtype cap now).1, next) ∧
      Refines law next (cache.get name qtype cap now).2 := by
  obtain ⟨⟨order, arranged⟩, tracked⟩ := refines
  rcases arranged.bucketFind name.chars qtype with
    ⟨absent, missed⟩ | ⟨front, node, back, rfl, present, found⟩
  · -- a miss, whether the filter or the bucket says so
    refine ⟨s.miss, ?_, ?_⟩
    · simp [dnsCacheGet, cacheGetLocked, missed, LruCache.get, absent]
    · simp only [LruCache.get, absent]
      exact Refines.of_stats ⟨⟨order, arranged⟩, tracked⟩ _
  · have same := LruCache.key_of_lookup present
    have split := tracked_split tracked arranged
    have passes : bloom.maybe name.chars qtype s.bloom = true := by
      rw [same] at split
      exact law.maybe split List.mem_cons_self
    obtain ⟨content, live, stored⟩ := arranged.layout.live
      (Or.inl (show node ∈ front ++ node :: back by simp))
    by_cases dead : node.2.expires ≤ now
    · obtain ⟨next, destroyed, result⟩ := nodeDestroy_refines tracked arranged
      refine ⟨next.expired.miss, ?_, ?_⟩
      · simp [dnsCacheGet, cacheGetLocked, passes, found, Heap.read, live, stored, dead, destroyed,
          LruCache.get, present]
      · simp only [LruCache.get, present, dead, if_true]
        exact (result.of_stats _).of_stats _
    · obtain ⟨list, unlinked, offList, _⟩ := arranged.layout.lruUnlink
      obtain ⟨pushedList, pushed, final⟩ := offList.lruPushFront
        (show node ∈ front ++ node :: back by simp) (notMem_rest arranged.layout)
      have placed : (cache.place node.2).entries = node.2 :: (front ++ back).map Prod.snd := by
        rw [LruCache.place_entries_of_lookup (same ▸ present), arranged.remove_entries]
      have moved : Refines law ((s.withLru list).withLru pushedList) (cache.place node.2) := by
        refine ⟨⟨node :: (front ++ back), final.perm List.perm_middle, placed.symm, ?_⟩, ?_⟩
        · rw [List.length_cons, List.length_append, Nat.add_assoc, ← List.length_cons,
            ← List.length_append]
          exact arranged.count
        · rw [placed, ← arranged.remove_entries]
          exact split
      refine ⟨((s.withLru list).withLru pushedList).hit, ?_, ?_⟩
      · simp [dnsCacheGet, cacheGetLocked, passes, found, Heap.read, live, dead, unlinked, pushed,
          LruCache.get, present, stored]
      · simp only [LruCache.get, present, dead, if_false]
        exact moved.of_stats _

/-- `dns_cache_put` leaves what the abstract cache holds after a put. -/
theorem dnsCachePut_refines (refines : Refines law s cache) {name : CString}
    (fits : name.chars.length ≤ dnsMaxName) (qtype : UInt16) (ans : List DnsAnswer) (rcode : Nat)
    (now : Int) (allocates : Bool) :
    ∃ next, dnsCachePut bloom name qtype ans rcode now allocates s = some next ∧
      Refines law next (cache.put name qtype ans rcode now allocates) := by
  obtain ⟨⟨order, arranged⟩, tracked⟩ := refines
  rcases arranged.bucketFind name.chars qtype with
    ⟨absent, missed⟩ | ⟨front, node, back, rfl, present, found⟩
  · obtain ⟨roomy, evicted, made⟩ := evictWhileFull_refines ⟨⟨order, arranged⟩, tracked⟩ now
    cases allocates with
    | false =>
        refine ⟨roomy, ?_, ?_⟩
        · simp [dnsCachePut, missed, evicted]
        · simpa [LruCache.put, absent] using made
    | true =>
        obtain ⟨⟨order, arranged⟩, tracked⟩ := made
        have key := LruCache.blank_key fits qtype
        -- eviction does not bring the key back
        have stillAbsent : (LruCache.blank name qtype).key ∉
            (cache.makeRoom now).entries.map CacheEntry.key := by
          rw [key]
          exact fun member => Recency.lookup_eq_none_iff.mp absent
            (((LruCache.makeRoom_sublist now cache).map _).subset member)
        have placed := LruCache.makeRoom_place_entries now cache
          (LruCache.refresh (LruCache.blank name qtype) ans rcode now)
        have kept : ((cache.makeRoom now).remove (LruCache.blank name qtype).key).entries =
            order.map Prod.snd := by
          rw [arranged.contents]
          exact Recency.remove_of_notMem stillAbsent
        rw [LruCache.refresh_key, kept] at placed
        have fresh : roomy.heap.fresh ∉ order.map Prod.fst := by
          intro member
          obtain ⟨node, listed, same⟩ := List.mem_map.mp member
          exact Nat.ne_of_lt (arranged.layout.address_lt (Or.inl listed)) same
        obtain ⟨next, filled, result⟩ := fillNode_refines law
          (arranged.layout.linkNewNode bloom fits qtype) (List.Perm.refl _) fresh
          (ans.take dnsMaxAnswers) rcode (now + (entryTtl (ans.take dnsMaxAnswers)).toNat) placed
          (congrArg (· + 1) arranged.count)
          (by
            rw [placed, List.map_cons, arranged.contents]
            rw [LruCache.refresh_key, key]
            exact law.add _ _ tracked)
        refine ⟨next, ?_, ?_⟩
        · simp only [dnsCachePut, missed, evicted, Option.bind_eq_bind, Option.bind_some, if_true]
          exact filled
        · simpa [LruCache.put, absent] using result
  · have same := LruCache.key_of_lookup present
    have split := tracked_split tracked arranged
    obtain ⟨list, unlinked, offList, _⟩ := arranged.layout.lruUnlink
    have placed : (cache.place (LruCache.refresh node.2 ans rcode now)).entries =
        LruCache.refresh node.2 ans rcode now :: (front ++ back).map Prod.snd := by
      have replaced : cache.lookup (LruCache.refresh node.2 ans rcode now).key = some node.2 := by
        rw [LruCache.refresh_key, same, present]
      rw [LruCache.place_entries_of_lookup replaced, LruCache.refresh_key, arranged.remove_entries]
    obtain ⟨next, filled, result⟩ := fillNode_refines law
      (offList.perm List.perm_middle) (List.Perm.refl _) (notMem_rest arranged.layout)
      (ans.take dnsMaxAnswers) rcode (now + (entryTtl (ans.take dnsMaxAnswers)).toNat) placed
      (by
        rw [List.length_append, Nat.add_assoc, ← List.length_cons (a := node), ← List.length_append]
        exact arranged.count)
      (by
        rw [placed, ← arranged.remove_entries]
        exact split)
    refine ⟨next, ?_, ?_⟩
    · simp only [dnsCachePut, found, unlinked, Option.bind_eq_bind, Option.bind_some]
      exact filled
    · simpa [LruCache.put, present] using result

/-! ## Runs -/

/-- The names that a call stores fit into a node. -/
def CacheOp.Fits : CacheOp → Prop
  | .put name _ _ _ _ _ => name.chars.length ≤ dnsMaxName
  | .get _ _ _ _ => True
  | .init => True
  | .fini => True

instance (op : CacheOp) : Decidable op.Fits := by
  cases op <;> unfold CacheOp.Fits <;> infer_instance

/-- Every call does on the heap what it does on the abstract cache. -/
theorem cacheStep_refines (refines : Refines law s cache) {op : CacheOp} (fits : op.Fits) :
    ∃ next, cacheStep bloom op s = some ((cache.step op).1, next) ∧
      Refines law next (cache.step op).2 := by
  cases op with
  | init => exact ⟨_, rfl, dnsCacheInit_refines law s⟩
  | put name qtype ans rcode now allocates =>
      obtain ⟨next, done, result⟩ := dnsCachePut_refines refines fits qtype ans rcode now allocates
      exact ⟨next, by simp [cacheStep, done, LruCache.step], result⟩
  | get name qtype cap now => exact dnsCacheGet_refines refines name qtype cap now
  | fini =>
      obtain ⟨next, done, result⟩ := dnsCacheFini_refines refines
      exact ⟨next, by simp [cacheStep, done, LruCache.step], result⟩

/-- Whole runs return what the abstract cache returns. -/
theorem cacheRun_refines (refines : Refines law s cache) {ops : List CacheOp}
    (fits : ∀ op ∈ ops, op.Fits) :
    ∃ next, cacheRun bloom ops s = some ((cache.run ops).1, next) ∧
      Refines law next (cache.run ops).2 := by
  induction ops generalizing s cache with
  | nil => exact ⟨s, rfl, refines⟩
  | cons op ops ih =>
      obtain ⟨middle, stepped, middleRefines⟩ := cacheStep_refines refines
        (fits op List.mem_cons_self)
      obtain ⟨final, rest, result⟩ := ih middleRefines
        fun other member => fits other (List.mem_cons_of_mem _ member)
      exact ⟨final, by simp [cacheRun, stepped, rest, LruCache.run], result⟩

end FizzDns
