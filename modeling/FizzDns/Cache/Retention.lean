import FizzDns.Cache.Transparency

/-!
# What a lookup returns, and how long an entry stays

An entry is served with the contents of the last put for its key until its lifetime is
over. In between it can only be lost by eviction, and a live entry is evicted only from
the end of the LRU order, when `cacheCapacity` other keys have been used since.
-/

namespace FizzDns

/-- How long an answer set lives, in seconds: the shortest TTL within the bounds, or the
negative TTL if there are no answers. -/
def lifetime (ans : List DnsAnswer) : Nat :=
  match (ans.map fun answer => answer.ttl.toNat).min? with
  | none => 60
  | some least => max 5 (min 86400 least)

/-- Nothing is kept for more than a day. -/
theorem lifetime_le (ans : List DnsAnswer) : lifetime ans ≤ 86400 := by
  unfold lifetime
  split <;> omega

/-- The loop over the answers finds their least TTL. -/
private theorem toNat_least (ans : List DnsAnswer) (start : UInt32) :
    (ans.foldl (fun ttl answer => if answer.ttl < ttl then answer.ttl else ttl) start).toNat =
      (ans.map fun answer => answer.ttl.toNat).foldl min start.toNat := by
  induction ans generalizing start with
  | nil => rfl
  | cons answer rest ih =>
      have smaller : (if answer.ttl < start then answer.ttl else start).toNat =
          min start.toNat answer.ttl.toNat := by
        split
        · next below =>
            exact (Nat.min_eq_right (Nat.le_of_lt (UInt32.lt_iff_toNat_lt.mp below))).symm
        · next above =>
            exact (Nat.min_eq_left (Nat.le_of_not_lt fun below =>
              above (UInt32.lt_iff_toNat_lt.mpr below))).symm
      rw [List.foldl_cons, ih, smaller, List.map_cons, List.foldl_cons]

private theorem foldl_min (values : List Nat) (start bound : Nat) :
    values.foldl min (min bound start) = min bound (values.foldl min start) := by
  induction values generalizing start with
  | nil => rfl
  | cons value rest ih => rw [List.foldl_cons, List.foldl_cons, Nat.min_assoc, ih]

/-- A TTL is kept between 5 seconds and a day. -/
private theorem toNat_clampTtl (ttl : UInt32) :
    (clampTtl ttl).toNat = max 5 (min 86400 ttl.toNat) := by
  have low : cacheMinTtl.toNat = 5 := rfl
  have high : cacheMaxTtl.toNat = 86400 := rfl
  unfold clampTtl
  simp only [UInt32.lt_iff_toNat_lt, gt_iff_lt, low, high]
  split
  · omega
  · split <;> omega

/-- `dns_cache_put` keeps an answer set for its lifetime. -/
theorem entryTtl_eq (ans : List DnsAnswer) : (entryTtl ans).toNat = lifetime ans := by
  cases ans with
  | nil => rfl
  | cons answer rest =>
      rw [entryTtl, if_neg (by simp), toNat_clampTtl, toNat_least, lifetime, List.map_cons,
        List.min?_cons', List.foldl_cons, show cacheMaxTtl.toNat = 86400 from rfl, foldl_min,
        ← Nat.min_assoc, Nat.min_self]

/-! ## Keys that calls use -/

namespace CacheOp

/-- The clock reading of a call. -/
def time : CacheOp → Option Int
  | .put _ _ _ _ now _ => some now
  | .get _ _ _ now => some now
  | .init => none
  | .fini => none

/-- The key that a call stores to. -/
def putKey : CacheOp → Option CacheKey
  | .put name qtype _ _ _ _ => some (cacheKey name.chars qtype)
  | _ => none

/-- Whether a call empties the cache. -/
def clears : CacheOp → Bool
  | .init => true
  | .fini => true
  | _ => false

/-- Whether every allocation of the call succeeds. -/
def allocates : CacheOp → Bool
  | .put _ _ _ _ _ allocates => allocates
  | _ => true

/-- The key that a call puts or hits. -/
def used : CacheOp → Option CacheHit → Option CacheKey
  | .put name qtype _ _ _ _, _ => some (cacheKey name.chars qtype)
  | .get name qtype _ _, some _ => some (cacheKey name.chars qtype)
  | _, _ => none

end CacheOp

/-- The other keys put or hit after one more call. -/
def othersAfter (key : CacheKey) (others : Finset CacheKey) (call : CacheOp × Option CacheHit) :
    Finset CacheKey :=
  match call.1.used call.2 with
  | none => others
  | some used => if used = key then ∅ else insert used others

/-- The other keys put or hit since a key was last put or hit, from calls with their
results, the first one made right after the key was used. -/
def othersSince (key : CacheKey) (calls : List (CacheOp × Option CacheHit)) : Finset CacheKey :=
  calls.foldl (othersAfter key) ∅

/-! ## One step -/

namespace LruCache

variable {cache : LruCache} {key : CacheKey} {entry : CacheEntry} {now : Int}

/-- Whatever the cache has for a key is what was put there. -/
def Serves (key : CacheKey) (ans : List DnsAnswer) (rcode : Nat) (deadline : Int)
    (cache : LruCache) : Prop :=
  ∀ entry, cache.lookup key = some entry →
    entry.ans = ans ∧ entry.rcode = rcode ∧ entry.expires = deadline

/-- The cache has an entry for the key, and only `others` were used more recently. -/
def Retains (key : CacheKey) (deadline : Int) (others : Finset CacheKey) (cache : LruCache) :
    Prop :=
  (∃ entry, cache.lookup key = some entry ∧ entry.expires = deadline) ∧
    ∀ other ∈ Recency.ahead CacheEntry.key key cache.entries, other ∈ others

/-- Other keys are found as before. -/
theorem lookup_remove_of_ne {other : CacheKey} (differ : other ≠ key) :
    (cache.remove other).lookup key = cache.lookup key :=
  Recency.lookup_remove_of_ne differ

/-- Removing keys never adds an entry. -/
theorem lookup_of_remove {other : CacheKey} (found : (cache.remove other).lookup key = some entry) :
    cache.lookup key = some entry := by
  by_cases same : other = key
  · subst same
    rw [lookup, remove, Recency.lookup_remove_self] at found
    cases found
  · rwa [lookup_remove_of_ne same] at found

/-- What is found after making room was there before. -/
theorem lookup_of_makeRoom (found : (cache.makeRoom now).lookup key = some entry) :
    cache.lookup key = some entry := by
  unfold makeRoom at found
  split at found
  · exact found
  · split at found
    · exact found
    · exact lookup_of_remove found

/-- A new entry is found. -/
theorem lookup_place_self (placed : (cache.place entry).entries =
    entry :: (cache.remove entry.key).entries) :
    (cache.place entry).lookup entry.key = some entry := by
  rw [lookup, placed]
  exact Recency.lookup_cons_self rfl

/-- A new entry does not hide those of other keys. -/
theorem lookup_place_of_ne (placed : (cache.place entry).entries =
    entry :: (cache.remove entry.key).entries) (differ : entry.key ≠ key) :
    (cache.place entry).lookup key = cache.lookup key := by
  rw [lookup, placed, Recency.lookup_cons_of_ne differ]
  exact lookup_remove_of_ne differ

/-- A new entry is the most recent one. -/
theorem ahead_place_self (placed : (cache.place entry).entries =
    entry :: (cache.remove entry.key).entries) :
    Recency.ahead CacheEntry.key entry.key (cache.place entry).entries = [] := by
  rw [placed, Recency.ahead_cons_self rfl]

/-- A new entry is the only one that can get ahead of another key. -/
theorem ahead_place_of_ne (placed : (cache.place entry).entries =
    entry :: (cache.remove entry.key).entries) (differ : entry.key ≠ key) :
    Recency.ahead CacheEntry.key key (cache.place entry).entries ⊆
      entry.key :: Recency.ahead CacheEntry.key key cache.entries := by
  rw [placed, Recency.ahead_cons_of_ne differ]
  exact List.cons_subset_cons _ (Recency.ahead_remove_subset differ)

/-- How a put changes the list: eviction if the key is new, then the entry in front. -/
theorem put_eq {name : CString} (fits : name.chars.length ≤ dnsMaxName) (qtype : UInt16)
    (ans : List DnsAnswer) (rcode : Nat) (now : Int) (cache : LruCache) :
    ∃ base entry, cache.put name qtype ans rcode now true = base.place entry ∧
      (base = cache ∨
        base = cache.makeRoom now ∧ cache.lookup (cacheKey name.chars qtype) = none) ∧
      entry.key = cacheKey name.chars qtype ∧
      (base.place entry).entries = entry :: (base.remove entry.key).entries ∧
      entry.ans = ans.take dnsMaxAnswers ∧ entry.rcode = rcode ∧
      entry.expires = now + lifetime (ans.take dnsMaxAnswers) := by
  have expires : ∀ old, (refresh old ans rcode now).expires =
      now + lifetime (ans.take dnsMaxAnswers) := fun old => by
    simp only [refresh, entryTtl_eq]
  cases found : cache.lookup (cacheKey name.chars qtype) with
  | some old =>
      have same : (refresh old ans rcode now).key = cacheKey name.chars qtype :=
        (refresh_key old ans rcode now).trans (key_of_lookup found)
      exact ⟨cache, refresh old ans rcode now, by simp [put, found], Or.inl rfl, same,
        place_entries_of_lookup (same ▸ found), rfl, rfl, expires old⟩
  | none =>
      exact ⟨cache.makeRoom now, refresh (blank name qtype) ans rcode now, by simp [put, found],
        Or.inr ⟨rfl, rfl⟩, blank_key fits qtype, makeRoom_place_entries now cache _, rfl, rfl,
        expires _⟩

/-- A hit puts the entry in front. -/
theorem place_lookup_entries (found : cache.lookup key = some entry) :
    (cache.place entry).entries = entry :: (cache.remove entry.key).entries :=
  place_entries_of_lookup (key_of_lookup found ▸ found)

/-- A put for another key, or a lookup, or a reset, changes no contents. -/
theorem serves_step {ans : List DnsAnswer} {rcode : Nat} {deadline : Int} {op : CacheOp}
    (serves : Serves key ans rcode deadline cache) (fits : op.Fits)
    (allocates : op.allocates = true)
    (other : op.putKey ≠ some key) : Serves key ans rcode deadline (cache.step op).2 := by
  intro entry found
  cases op with
  | init => cases found
  | fini => cases found
  | put name qtype putAns putRcode now succeeds =>
      obtain rfl : succeeds = true := allocates
      have differ : cacheKey name.chars qtype ≠ key := fun same => other (congrArg some same)
      obtain ⟨base, placed, put, bases, same, entries, _⟩ :=
        put_eq fits qtype putAns putRcode now cache
      rw [step, put, lookup_place_of_ne entries (same ▸ differ)] at found
      rcases bases with rfl | ⟨rfl, _⟩
      · exact serves entry found
      · exact serves entry (lookup_of_makeRoom found)
  | get name qtype cap now =>
      simp only [step, get] at found
      split at found
      · exact serves entry found
      · next old present =>
          split at found
          · exact serves entry (lookup_of_remove found)
          · have entries := place_lookup_entries present
            by_cases same : old.key = key
            · subst same
              rw [lookup_place_self entries] at found
              cases found
              exact serves _ (lookup_of_mem (mem_of_lookup present))
            · rw [lookup_place_of_ne entries same] at found
              exact serves entry found

/-- A live entry is evicted for a new key only if all other entries are ahead of it. -/
theorem retains_makeRoom {deadline : Int} {others : Finset CacheKey} {used : CacheKey}
    (retains : Retains key deadline others cache) (live : now < deadline)
    (fresh : cache.lookup used = none) (few : (insert used others).card < cacheCapacity) :
    Retains key deadline others (cache.makeRoom now) := by
  obtain ⟨⟨entry, found, expires⟩, ahead⟩ := retains
  unfold makeRoom
  split
  · exact ⟨⟨entry, found, expires⟩, ahead⟩
  · next full =>
      split
      · exact ⟨⟨entry, found, expires⟩, ahead⟩
      · next victim chosen =>
          have differ : victim.key ≠ key := by
            rintro rfl
            -- the victim is the entry itself, at the end of a full list
            have same : victim = entry :=
              Option.some.inj ((lookup_of_mem (mem_of_victim chosen)).symm.trans found)
            subst same
            have last := victim_live chosen (expires ▸ live)
            obtain ⟨front, split⟩ := List.getLast?_eq_some_iff.mp last
            have distinct := cache.distinct
            have length := Recency.length_ahead_of_last (split ▸ distinct)
            rw [← split] at length
            have notAhead : used ∉ Recency.ahead CacheEntry.key victim.key cache.entries :=
              fun member => Recency.lookup_eq_none_iff.mp fresh
                (Recency.ahead_subset_keys member)
            have counted :
                (used :: Recency.ahead CacheEntry.key victim.key cache.entries).toFinset ⊆
                insert used others := by
              intro other member
              rw [List.toFinset_cons, Finset.mem_insert, List.mem_toFinset] at member
              rw [Finset.mem_insert]
              exact member.imp_right (ahead other)
            have card := Finset.card_le_card counted
            rw [List.toFinset_card_of_nodup
              (List.nodup_cons.mpr ⟨notAhead, Recency.nodup_ahead distinct⟩), List.length_cons,
              length] at card
            have total : cache.entries.length = front.length + 1 := by rw [split]; simp
            omega
          exact ⟨⟨entry, (lookup_remove_of_ne differ).trans found, expires⟩,
            fun other member => ahead other (Recency.ahead_remove_subset differ member)⟩

/-- While few other keys are used, a live entry stays. -/
theorem retains_step {ans : List DnsAnswer} {rcode : Nat} {deadline : Int}
    {others : Finset CacheKey} {op : CacheOp} (serves : Serves key ans rcode deadline cache)
    (retains : others.card < cacheCapacity → Retains key deadline others cache) (fits : op.Fits)
    (allocates : op.allocates = true) (other : op.putKey ≠ some key) (keeps : op.clears = false)
    (early : ∀ now, op.time = some now → now < deadline)
    (few : (othersAfter key others (op, (cache.step op).1)).card < cacheCapacity) :
    Retains key deadline (othersAfter key others (op, (cache.step op).1)) (cache.step op).2 := by
  cases op with
  | init => cases keeps
  | fini => cases keeps
  | put name qtype putAns putRcode now succeeds =>
      obtain rfl : succeeds = true := allocates
      have differ : cacheKey name.chars qtype ≠ key := fun same => other (congrArg some same)
      simp only [othersAfter, CacheOp.used, differ, if_false] at few ⊢
      have before :=
        retains (Nat.lt_of_le_of_lt (Finset.card_le_card (Finset.subset_insert _ _)) few)
      obtain ⟨base, placed, put, bases, same, entries, _⟩ :=
        put_eq fits qtype putAns putRcode now cache
      obtain ⟨⟨entry, found, expires⟩, ahead⟩ : Retains key deadline others base := by
        rcases bases with rfl | ⟨rfl, fresh⟩
        · exact before
        · exact retains_makeRoom before (early now rfl) fresh few
      rw [step, put]
      refine ⟨⟨entry, (lookup_place_of_ne entries (same ▸ differ)).trans found, expires⟩, ?_⟩
      intro used member
      rw [Finset.mem_insert, ← same]
      exact (List.mem_cons.mp (ahead_place_of_ne entries (same ▸ differ) member)).imp_right
        (ahead used)
  | get name qtype cap now =>
      have live := early now rfl
      cases present : cache.lookup (cacheKey name.chars qtype) with
      | none =>
          simp only [step, get, present, othersAfter, CacheOp.used] at few ⊢
          exact retains few
      | some old =>
          have entries := place_lookup_entries present
          have named := key_of_lookup present
          by_cases dead : old.expires ≤ now
          · simp only [step, get, present, dead, if_true, othersAfter, CacheOp.used] at few ⊢
            obtain ⟨⟨entry, found, expires⟩, ahead⟩ := retains few
            have differ : old.key ≠ key := by
              rintro rfl
              have same : old = entry :=
                Option.some.inj ((lookup_of_mem (mem_of_lookup present)).symm.trans found)
              subst same
              omega
            exact ⟨⟨entry, (lookup_remove_of_ne differ).trans found, expires⟩,
              fun used member => ahead used (Recency.ahead_remove_subset differ member)⟩
          · simp only [step, get, present, dead, if_false, othersAfter, CacheOp.used] at few ⊢
            by_cases same : cacheKey name.chars qtype = key
            · subst same
              rw [if_pos rfl, ← named]
              refine ⟨⟨old, lookup_place_self entries, (serves old present).2.2⟩, ?_⟩
              rw [ahead_place_self entries]
              simp
            · simp only [same, if_false] at few ⊢
              have differ : old.key ≠ key := named ▸ same
              obtain ⟨⟨entry, found, expires⟩, ahead⟩ :=
                retains (Nat.lt_of_le_of_lt (Finset.card_le_card (Finset.subset_insert _ _)) few)
              refine ⟨⟨entry, (lookup_place_of_ne entries differ).trans found, expires⟩, ?_⟩
              intro used member
              rw [Finset.mem_insert, ← named]
              exact (List.mem_cons.mp (ahead_place_of_ne entries differ member)).imp_right
                (ahead used)

/-! ## Runs -/

theorem run_append (first second : List CacheOp) (cache : LruCache) :
    cache.run (first ++ second) =
      ((cache.run first).1 ++ ((cache.run first).2.run second).1,
        ((cache.run first).2.run second).2) := by
  induction first generalizing cache with
  | nil => rfl
  | cons op rest ih => simp [run, ih]

theorem length_run (ops : List CacheOp) (cache : LruCache) :
    (cache.run ops).1.length = ops.length := by
  induction ops generalizing cache with
  | nil => rfl
  | cons op rest ih => simp [run, ih]

/-- Operations other than a put of the key keep what is served for it. -/
theorem serves_run {ans : List DnsAnswer} {rcode : Nat} {deadline : Int} {ops : List CacheOp}
    (serves : Serves key ans rcode deadline cache) (fits : ∀ op ∈ ops, op.Fits)
    (allocates : ∀ op ∈ ops, op.allocates = true) (other : ∀ op ∈ ops, op.putKey ≠ some key) :
    Serves key ans rcode deadline (cache.run ops).2 := by
  induction ops generalizing cache with
  | nil => exact serves
  | cons op rest ih =>
      rw [List.forall_mem_cons] at fits allocates other
      exact ih (serves_step serves fits.1 allocates.1 other.1) fits.2 allocates.2 other.2

/-- The entry stays through a run in which it is not crowded out. -/
theorem retains_run {ans : List DnsAnswer} {rcode : Nat} {deadline : Int}
    {others : Finset CacheKey} {ops : List CacheOp} (serves : Serves key ans rcode deadline cache)
    (retains : others.card < cacheCapacity → Retains key deadline others cache)
    (fits : ∀ op ∈ ops, op.Fits) (allocates : ∀ op ∈ ops, op.allocates = true)
    (other : ∀ op ∈ ops, op.putKey ≠ some key) (keeps : ∀ op ∈ ops, op.clears = false)
    (early : ∀ op ∈ ops, ∀ now, op.time = some now → now < deadline)
    (few : ((ops.zip (cache.run ops).1).foldl (othersAfter key) others).card < cacheCapacity) :
    ∃ entry, (cache.run ops).2.lookup key = some entry := by
  induction ops generalizing cache others with
  | nil =>
      obtain ⟨⟨entry, found, _⟩, _⟩ := retains few
      exact ⟨entry, found⟩
  | cons op rest ih =>
      rw [List.forall_mem_cons] at fits allocates other keeps early
      exact ih (serves_step serves fits.1 allocates.1 other.1)
        (retains_step serves retains fits.1 allocates.1 other.1 keeps.1 early.1) fits.2 allocates.2
        other.2 keeps.2 early.2 few

/-- A put leaves its entry in front. -/
theorem put_serves {name : CString} (fits : name.chars.length ≤ dnsMaxName) (qtype : UInt16)
    {ans : List DnsAnswer} (few : ans.length ≤ dnsMaxAnswers) (rcode : Nat) (now : Int)
    (cache : LruCache) :
    Serves (cacheKey name.chars qtype) ans rcode (now + lifetime ans)
        (cache.put name qtype ans rcode now true) ∧
      Retains (cacheKey name.chars qtype) (now + lifetime ans) ∅
        (cache.put name qtype ans rcode now true) := by
  obtain ⟨base, entry, put, _, same, entries, answers, code, expires⟩ :=
    put_eq fits qtype ans rcode now cache
  rw [List.take_of_length_le few] at answers expires
  rw [put, ← same]
  refine ⟨fun found lookup => ?_, ⟨entry, lookup_place_self entries, expires⟩, ?_⟩
  · rw [lookup_place_self entries] at lookup
    cases lookup
    exact ⟨answers, code, expires⟩
  · rw [ahead_place_self entries]
    simp

/-- What a lookup makes of the contents that the cache serves. -/
theorem get_serves {ans : List DnsAnswer} {rcode : Nat} {deadline : Int} {name : CString}
    {qtype : UInt16} (serves : Serves (cacheKey name.chars qtype) ans rcode deadline cache)
    (cap : Nat) (now : Int) :
    (deadline ≤ now → (cache.get name qtype cap now).1 = none) ∧
    (now < deadline → (∃ entry, cache.lookup (cacheKey name.chars qtype) = some entry) →
      (cache.get name qtype cap now).1.isSome) ∧
    ∀ hit, (cache.get name qtype cap now).1 = some hit →
      now < deadline ∧ hit.rcode = rcode ∧
      hit.ans = (ans.take cap).map fun answer =>
        { answer with ttl := UInt32.ofInt (deadline - now) } := by
  cases present : cache.lookup (cacheKey name.chars qtype) with
  | none => simp [get, present]
  | some entry =>
      obtain ⟨rfl, rfl, rfl⟩ := serves entry present
      by_cases dead : entry.expires ≤ now
      · simp [get, present, dead]
      · have live : now < entry.expires := not_le.mp dead
        simp [get, present, dead, live, CacheEntry.serve]

end LruCache

/-- The seconds that are left fit a TTL. -/
private theorem toNat_ofInt {seconds : Int} (positive : 0 ≤ seconds) (small : seconds ≤ 86400) :
    ((UInt32.ofInt seconds).toNat : Int) = seconds := by
  simp only [UInt32.ofInt, UInt32.toNat_ofNat']
  omega

/-- A lookup after the last put for its key, in a run with a clock that does not go back
and allocations that succeed. `during` are the results of the calls in between. -/
theorem get_after_put {ops before after : List CacheOp} {name wanted : CString} {qtype : UInt16}
    {ans : List DnsAnswer} {rcode cap : Nat} {stored now : Int}
    (shape : ops = before ++ .put name qtype ans rcode stored true ::
      (after ++ [.get wanted qtype cap now]))
    (few : ans.length ≤ dnsMaxAnswers) (same : dnsNameEqual wanted.chars name.chars = true)
    (last : ∀ op ∈ after, op.putKey ≠ some (cacheKey name.chars qtype))
    (fits : ∀ op ∈ ops, op.Fits) (allocates : ∀ op ∈ ops, op.allocates = true)
    (clock : (ops.filterMap CacheOp.time).Pairwise (· ≤ ·)) :
    ∃ earlier during result final,
      cacheRun countingBloom ops (.start fun _ => 0) =
        some (earlier ++ none :: (during ++ [result]), final) ∧
      earlier.length = before.length ∧ during.length = after.length ∧
      (stored + lifetime ans ≤ now → result = none) ∧
      (now < stored + lifetime ans → (∀ op ∈ after, op.clears = false) →
        (othersSince (cacheKey name.chars qtype) (after.zip during)).card < cacheCapacity →
        result.isSome) ∧
      ∀ hit, result = some hit → ∃ ttl : UInt32,
        hit.rcode = rcode ∧
        hit.ans = (ans.take cap).map (fun answer => { answer with ttl := ttl }) ∧
        (ttl.toNat : Int) = stored + lifetime ans - now ∧
        1 ≤ ttl.toNat ∧ ttl.toNat ≤ lifetime ans := by
  obtain ⟨final, done, _⟩ := cacheRun_refines start_refines fits
  subst shape
  simp only [List.forall_mem_append, List.forall_mem_cons] at fits allocates
  obtain ⟨fitsBefore, fitsPut, fitsAfter, _⟩ := fits
  obtain ⟨_, _, allocatesAfter, _⟩ := allocates
  simp only [List.filterMap_append, List.filterMap_cons, CacheOp.time, List.filterMap_nil,
    List.pairwise_append, List.pairwise_cons, List.mem_append] at clock
  obtain ⟨_, ⟨fromPut, _, _, untilGet⟩, _⟩ := clock
  let filled := ((LruCache.empty.run before).2).put name qtype ans rcode stored true
  obtain ⟨serves, retains⟩ := LruCache.put_serves fitsPut qtype few rcode stored
    (LruCache.empty.run before).2
  have servesLater := LruCache.serves_run serves fitsAfter allocatesAfter last
  have key : cacheKey wanted.chars qtype = cacheKey name.chars qtype :=
    Prod.ext ((dnsNameEqual_iff _ _).mp same) rfl
  rw [← key] at servesLater
  obtain ⟨expired, hits, contents⟩ := LruCache.get_serves servesLater cap now
  refine ⟨(LruCache.empty.run before).1, (filled.run after).1,
    ((filled.run after).2.get wanted qtype cap now).1, final, ?_, LruCache.length_run ..,
    LruCache.length_run .., expired, ?_, ?_⟩
  · rw [done, LruCache.run_append]
    simp only [LruCache.run, LruCache.step, LruCache.run_append]
    rfl
  · intro live keeps unused
    refine hits live ?_
    rw [key]
    refine
      LruCache.retains_run serves (fun _ => retains) fitsAfter allocatesAfter last keeps ?_ unused
    intro op member time reading
    have ordered := untilGet time (List.mem_filterMap.mpr ⟨op, member, reading⟩) now
      List.mem_cons_self
    omega
  · intro hit found
    obtain ⟨live, code, answers⟩ := contents hit found
    have ordered : stored ≤ now := fromPut now (Or.inr List.mem_cons_self)
    have bound := lifetime_le ans
    have remaining : ((UInt32.ofInt (stored + lifetime ans - now)).toNat : Int) =
        stored + lifetime ans - now := toNat_ofInt (by omega) (by omega)
    exact ⟨_, code, answers, remaining, by omega, by omega⟩

/-- An answer is found again under another spelling, 10 s later and after another key was
used. -/
theorem get_after_put_example :
    ∃ earlier during result final,
      cacheRun countingBloom
          [.put ⟨[97], by decide⟩ dnsTypeA [⟨.root, 30, .a fun _ => 7⟩] 0 100 true,
            .put ⟨[98], by decide⟩ dnsTypeA [] 3 105 true, .get ⟨[65], by decide⟩ dnsTypeA 8 110]
          (.start fun _ => 0) = some (earlier ++ none :: (during ++ [result]), final) ∧
      during.length = 1 ∧
      ((othersSince (cacheKey [97] dnsTypeA)
        ([CacheOp.put ⟨[98], by decide⟩ dnsTypeA [] 3 105 true].zip during)).card <
          cacheCapacity → result.isSome) ∧
      ∀ hit, result = some hit → hit.rcode = 0 := by
  have shape : ([.put ⟨[97], by decide⟩ dnsTypeA [⟨.root, 30, .a fun _ => 7⟩] 0 100 true,
      .put ⟨[98], by decide⟩ dnsTypeA [] 3 105 true, .get ⟨[65], by decide⟩ dnsTypeA 8 110] :
        List CacheOp) =
      [] ++ .put ⟨[97], by decide⟩ dnsTypeA [⟨.root, 30, .a fun _ => 7⟩] 0 100 true ::
        ([.put ⟨[98], by decide⟩ dnsTypeA [] 3 105 true] ++
          [.get ⟨[65], by decide⟩ dnsTypeA 8 110]) :=
    rfl
  obtain ⟨earlier, during, result, final, run, _, length, _, hits, contents⟩ :=
    get_after_put shape (by decide) (by decide) (by decide) (by decide) (by decide) (by decide)
  refine ⟨earlier, during, result, final, run, length, hits (by decide) (by decide), ?_⟩
  intro hit found
  obtain ⟨ttl, code, _⟩ := contents hit found
  exact code

/-- A name of 256 characters is stored truncated and not found again, although nothing
else is cached and its lifetime has not passed. -/
theorem long_name_not_found :
    (cacheRun countingBloom
      [.put ⟨List.replicate 256 97, by decide⟩ dnsTypeA [] dnsRcodeNxdomain 100 true,
        .get ⟨List.replicate 256 97, by decide⟩ dnsTypeA 8 100]
      (.start fun _ => 0)).map Prod.fst = some [none, none] ∧
    (100 : Int) < 100 + lifetime [] := by
  decide +kernel

end FizzDns
