import FizzDns.Cache.Refinement

/-!
# The filter is invisible

The cache compiled with the counting filter and the cache compiled without one go
through the same states. Forgetting the filter commutes with every function that runs
under the mutex, whatever the filter does; the test before the mutex is where the two
builds differ, and there an admissible filter only rejects keys that the buckets do not
hold either.
-/

namespace FizzDns

variable {β : Type} {bloom : BloomOps β} {law : FilterLaw bloom} {s : CacheState β}
  {cache : LruCache}

/-- The cache of the build without a filter. -/
def CacheState.withoutFilter (s : CacheState β) : CacheState Unit :=
  { s with bloom := () }

/-! ## Functions under the mutex -/

/-- The list does not know of the filter. -/
theorem lruUnlink_withoutFilter (n : Addr) (s : CacheState β) :
    lruUnlink n s.withoutFilter = (lruUnlink n s).map .withoutFilter := by
  rw [lruUnlink, lruUnlink, Option.map_map]
  rfl

theorem lruPushFront_withoutFilter (n : Addr) (s : CacheState β) :
    lruPushFront n s.withoutFilter = (lruPushFront n s).map .withoutFilter := by
  rw [lruPushFront, lruPushFront, Option.map_map]
  rfl

/-- Nor do the buckets. -/
theorem bucketUnlink_withoutFilter (n : Addr) (s : CacheState β) :
    bucketUnlink n s.withoutFilter = (bucketUnlink n s).map .withoutFilter := by
  simp only [bucketUnlink, Option.bind_eq_bind, Option.map_bind, Function.comp_def]
  rfl

theorem bucketFind_withoutFilter (h : UInt64) (name : Bytes) (qtype : UInt16)
    (s : CacheState β) : bucketFind h name qtype s.withoutFilter = bucketFind h name qtype s :=
  rfl

/-- Destroying a node goes the same way without a filter. -/
theorem nodeDestroy_withoutFilter (bloom : BloomOps β) (n : Addr) (s : CacheState β) :
    nodeDestroy disabledBloom n s.withoutFilter = (nodeDestroy bloom n s).map .withoutFilter := by
  simp only [nodeDestroy, Option.bind_eq_bind, Option.map_bind, Function.comp_def]
  refine Option.bind_congr fun node _ => ?_
  rw [show ({ s.withoutFilter with bloom := _ } : CacheState Unit) =
    CacheState.withoutFilter
      { s with bloom := bloom.del node.name.chars node.qtype s.bloom } from rfl,
    bucketUnlink_withoutFilter, Option.bind_map]
  refine Option.bind_congr fun unchained _ => ?_
  rw [Function.comp_apply, lruUnlink_withoutFilter, Option.bind_map]
  rfl

/-- So does an eviction: the victim does not depend on the filter. -/
theorem evictOne_withoutFilter (bloom : BloomOps β) (now : Int) (s : CacheState β) :
    evictOne disabledBloom now s.withoutFilter = (evictOne bloom now s).map .withoutFilter := by
  simp only [evictOne, Option.bind_eq_bind, Option.map_bind]
  refine Option.bind_congr fun expired _ => ?_
  rw [show s.withoutFilter.lruTail = s.lruTail from rfl, Function.comp_apply]
  cases expired.or s.lruTail with
  | none => rfl
  | some victim =>
      simp only [nodeDestroy_withoutFilter bloom, Option.bind_map, Option.map_bind]
      rfl

theorem evictWhileFull_withoutFilter (bloom : BloomOps β) (now : Int) (fuel : Nat)
    (s : CacheState β) :
    evictWhileFull disabledBloom now fuel s.withoutFilter =
      (evictWhileFull bloom now fuel s).map .withoutFilter := by
  induction fuel generalizing s with
  | zero => rfl
  | succ fuel ih =>
      rw [evictWhileFull, evictWhileFull, show s.withoutFilter.entryCount = s.entryCount from rfl]
      split
      · simp only [evictOne_withoutFilter bloom, Option.bind_eq_bind, Option.bind_map,
          Option.map_bind]
        exact Option.bind_congr fun evicted _ => ih evicted
      · rfl

theorem fillNode_withoutFilter (n : Addr) (ans : List DnsAnswer) (rcode : Nat) (expires : Int)
    (s : CacheState β) :
    fillNode n ans rcode expires s.withoutFilter =
      (fillNode n ans rcode expires s).map .withoutFilter := by
  simp only [fillNode, Option.bind_eq_bind, Option.map_bind]
  exact Option.bind_congr fun heap _ => lruPushFront_withoutFilter n { s with heap := heap }

/-- A put goes the same way without a filter. -/
theorem dnsCachePut_withoutFilter (bloom : BloomOps β) (name : CString) (qtype : UInt16)
    (ans : List DnsAnswer)
    (rcode : Nat) (now : Int) (allocates : Bool) (s : CacheState β) :
    dnsCachePut disabledBloom name qtype ans rcode now allocates s.withoutFilter =
      (dnsCachePut bloom name qtype ans rcode now allocates s).map .withoutFilter := by
  simp only [dnsCachePut, Option.bind_eq_bind, Option.map_bind, bucketFind_withoutFilter]
  refine Option.bind_congr fun found _ => ?_
  cases found with
  | some n =>
      simp only [lruUnlink_withoutFilter, Option.bind_map, Function.comp_apply, Option.map_bind]
      exact Option.bind_congr fun unlinked _ => fillNode_withoutFilter ..
  | none =>
      simp only [evictWhileFull_withoutFilter bloom, Option.bind_map, Function.comp_apply,
        Option.map_bind]
      refine Option.bind_congr fun evicted _ => ?_
      cases allocates with
      | false => rfl
      | true => exact fillNode_withoutFilter _ _ _ _ (linkNewNode bloom _ name qtype evicted)

/-- So does `dns_cache_fini`. -/
theorem dnsCacheFini_withoutFilter (bloom : BloomOps β) (s : CacheState β) :
    dnsCacheFini disabledBloom s.withoutFilter = (dnsCacheFini bloom s).map .withoutFilter := by
  simp only [dnsCacheFini, Option.bind_eq_bind, Option.map_bind]
  rfl

/-- So does a lookup once it is past the filter. -/
theorem cacheGetLocked_withoutFilter (bloom : BloomOps β) (h : UInt64) (name : Bytes)
    (qtype : UInt16) (cap : Nat)
    (now : Int) (s : CacheState β) :
    cacheGetLocked disabledBloom h name qtype cap now s.withoutFilter =
      (cacheGetLocked bloom h name qtype cap now s).map (Prod.map id .withoutFilter) := by
  simp only [cacheGetLocked, Option.bind_eq_bind, Option.map_bind, bucketFind_withoutFilter]
  refine Option.bind_congr fun found _ => ?_
  cases found with
  | none => rfl
  | some n =>
      simp only [Function.comp_apply, Option.map_bind]
      refine Option.bind_congr fun node _ => ?_
      by_cases dead : node.expires ≤ now
      · simp only [dead, if_true, nodeDestroy_withoutFilter bloom, Option.bind_map,
          Function.comp_apply, Option.map_bind]
        rfl
      · simp only [dead, if_false, lruUnlink_withoutFilter, Option.bind_map, Function.comp_apply,
          Option.map_bind]
        refine Option.bind_congr fun unlinked _ => ?_
        rw [lruPushFront_withoutFilter, Option.bind_map]
        rfl

/-! ## The test before the mutex -/

/-- An admissible filter does not reject a key that the buckets hold. -/
theorem Refines.maybe_of_present (refines : Refines law s cache) {name : Bytes} {qtype : UInt16}
    {n : Addr} (present : bucketFind (dnsKeyHash name qtype) name qtype s = some (some n)) :
    bloom.maybe name qtype s.bloom = true := by
  obtain ⟨⟨order, arranged⟩, tracked⟩ := refines
  rcases arranged.bucketFind name qtype with ⟨_, missed⟩ | ⟨front, node, back, rfl, found, _⟩
  · rw [missed] at present
    cases present
  · refine law.maybe tracked ?_
    rw [← LruCache.key_of_lookup found]
    exact List.mem_map_of_mem (LruCache.mem_of_lookup found)

/-- A lookup that the filter rejects would have found nothing. -/
theorem dnsCacheGet_withoutFilter (refines : Refines law s cache) (name : CString)
    (qtype : UInt16) (cap : Nat) (now : Int) :
    dnsCacheGet disabledBloom name qtype cap now s.withoutFilter =
      (dnsCacheGet bloom name qtype cap now s).map (Prod.map id .withoutFilter) := by
  have unfiltered : dnsCacheGet disabledBloom name qtype cap now s.withoutFilter =
      (cacheGetLocked bloom (dnsKeyHash name.chars qtype) name.chars qtype cap now s).map
        (Prod.map id .withoutFilter) :=
    cacheGetLocked_withoutFilter ..
  rw [unfiltered, dnsCacheGet]
  cases passes : bloom.maybe name.chars qtype s.bloom with
  | true => simp only [if_true]
  | false =>
      -- rejected, so the walk under the mutex would have found nothing
      obtain ⟨order, arranged⟩ := refines.arranged
      rcases arranged.bucketFind name.chars qtype with ⟨_, missed⟩ | ⟨_, _, _, _, _, found⟩
      · simp [cacheGetLocked, missed]
      · rw [refines.maybe_of_present found] at passes
        cases passes

/-- One call takes both builds to the same state, with the same result. -/
theorem cacheStep_withoutFilter (refines : Refines law s cache) (op : CacheOp) :
    cacheStep disabledBloom op s.withoutFilter =
      (cacheStep bloom op s).map (Prod.map id .withoutFilter) := by
  cases op with
  | init => rfl
  | put name qtype ans rcode now allocates =>
      simp only [cacheStep, dnsCachePut_withoutFilter bloom, Option.bind_eq_bind,
        Option.bind_map, Option.map_bind]
      rfl
  | get name qtype cap now => exact dnsCacheGet_withoutFilter refines name qtype cap now
  | fini =>
      simp only [cacheStep, dnsCacheFini_withoutFilter bloom, Option.bind_eq_bind,
        Option.bind_map, Option.map_bind]
      rfl

/-- So does every run. -/
theorem cacheRun_withoutFilter (refines : Refines law s cache) {ops : List CacheOp}
    (fits : ∀ op ∈ ops, op.Fits) :
    cacheRun disabledBloom ops s.withoutFilter =
      (cacheRun bloom ops s).map (Prod.map id .withoutFilter) := by
  induction ops generalizing s cache with
  | nil => rfl
  | cons op ops ih =>
      obtain ⟨middle, stepped, middleRefines⟩ := cacheStep_refines refines
        (fits op List.mem_cons_self)
      have rest := ih middleRefines fun other member => fits other (List.mem_cons_of_mem _ member)
      have unfiltered := cacheStep_withoutFilter refines op
      rw [stepped, Option.map_some] at unfiltered
      simp only [cacheRun, unfiltered, stepped, Option.bind_eq_bind, Option.bind_some, Prod.map,
        id_eq, rest, Option.bind_map, Option.map_bind]
      rfl

/-- Before the first call nothing is cached. -/
theorem start_refines : Refines countingLaw (.start fun _ => 0) LruCache.empty where
  arranged := ⟨[], Layout.nil (fun _ => rfl) rfl rfl, rfl, rfl⟩
  tracked := CountingFilter.exact_zero

/-- From program start, every sequence of calls with names that fit gives the same
results in both builds and ends in the same state, filter aside; and the filter never
rejects a key that is in its bucket. -/
theorem filter_invisible (ops : List CacheOp) (fits : ∀ op ∈ ops, op.Fits) :
    ∃ results final,
      cacheRun countingBloom ops (.start fun _ => 0) = some (results, final) ∧
      cacheRun disabledBloom ops (.start ()) = some (results, final.withoutFilter) ∧
      ∀ name qtype n, bucketFind (dnsKeyHash name qtype) name qtype final = some (some n) →
        dnsBloomMaybe (dnsKeyHash name qtype) final.bloom = true := by
  obtain ⟨final, done, refines⟩ := cacheRun_refines start_refines fits
  have unfiltered := cacheRun_withoutFilter start_refines fits
  rw [done, Option.map_some] at unfiltered
  exact ⟨_, final, done, unfiltered, fun _ _ _ present => refines.maybe_of_present present⟩

/-- A put, a hit under another spelling, a miss and a shutdown. -/
theorem filter_invisible_example :
    ∃ results final,
      cacheRun countingBloom
          [.put ⟨[97], by decide⟩ dnsTypeA [] dnsRcodeNxdomain 100 true,
            .get ⟨[65], by decide⟩ dnsTypeA 8 102, .get ⟨[98], by decide⟩ dnsTypeA 8 103, .fini]
          (.start fun _ => 0) = some (results, final) ∧
      cacheRun disabledBloom
          [.put ⟨[97], by decide⟩ dnsTypeA [] dnsRcodeNxdomain 100 true,
            .get ⟨[65], by decide⟩ dnsTypeA 8 102, .get ⟨[98], by decide⟩ dnsTypeA 8 103, .fini]
          (.start ()) = some (results, final.withoutFilter) ∧
      ∀ name qtype n, bucketFind (dnsKeyHash name qtype) name qtype final = some (some n) →
        dnsBloomMaybe (dnsKeyHash name qtype) final.bloom = true :=
  filter_invisible _ (by decide)

end FizzDns
