import FizzDns.Foundation.Recency
import FizzDns.Cache.Store

/-!
# What the cache is for

The cache as a bounded list of entries in order of use, without nodes, links, buckets
or a filter. `LruCache` carries the two facts that make it a cache: no key occurs
twice, and there are at most `cacheCapacity` entries.

`FilterLaw` says when a filter is admissible: whatever is tracked is never rejected.
Both builds of the filter are (`countingLaw`, `disabledLaw`).
-/

namespace FizzDns

/-- What identifies an entry: the name without regard to case, and the query type. -/
abbrev CacheKey := Bytes × UInt16

/-- The key that a lookup asks for. -/
def cacheKey (name : Bytes) (qtype : UInt16) : CacheKey :=
  (foldCase name, qtype)

namespace CacheEntry

/-- The key of an entry. -/
def key (entry : CacheEntry) : CacheKey :=
  cacheKey entry.name.chars entry.qtype

/-- The hash of an entry's key. -/
def hash (entry : CacheEntry) : UInt64 :=
  dnsKeyHash entry.name.chars entry.qtype

/-- The bucket an entry belongs to. -/
def home (entry : CacheEntry) : Fin cacheBuckets :=
  bucketOf entry.hash

/-- An entry is served with other TTLs, as far as there is room. -/
theorem untimed_serve (entry : CacheEntry) (cap : Nat) (now : Int) :
    (entry.serve cap now).ans.map DnsAnswer.untimed =
      (entry.ans.take cap).map DnsAnswer.untimed := by
  simp only [serve, List.map_map]
  rfl

/-- The test of `bucket_find` is for the key. -/
theorem isFor_iff {entry : CacheEntry} {name : Bytes} {qtype : UInt16} :
    entry.isFor name qtype = true ↔ entry.key = cacheKey name qtype := by
  simp [isFor, key, cacheKey, dnsNameEqual_iff, and_comm]

/-- The hash depends on the key only. -/
theorem hash_of_key {entry : CacheEntry} {name : Bytes} {qtype : UInt16}
    (same : entry.key = cacheKey name qtype) : entry.hash = dnsKeyHash name qtype := by
  obtain ⟨names, types⟩ := Prod.mk.inj same
  rw [hash, types, dnsKeyHash_congr names]

/-- And so does the bucket. -/
theorem home_of_key {entry : CacheEntry} {name : Bytes} {qtype : UInt16}
    (same : entry.key = cacheKey name qtype) : entry.home = bucketOf (dnsKeyHash name qtype) := by
  rw [home, hash_of_key same]

end CacheEntry

/-! ## The abstract cache -/

/-- Entries in order of use, most recent first. -/
structure LruCache where
  entries : List CacheEntry
  distinct : (entries.map CacheEntry.key).Nodup
  bounded : entries.length ≤ cacheCapacity

namespace LruCache

@[ext] theorem ext {left right : LruCache} (same : left.entries = right.entries) :
    left = right := by
  cases left
  cases right
  cases same
  rfl

/-- No entries. -/
def empty : LruCache where
  entries := []
  distinct := List.nodup_nil
  bounded := Nat.zero_le _

/-- The entry for a key. -/
def lookup (key : CacheKey) (cache : LruCache) : Option CacheEntry :=
  Recency.lookup CacheEntry.key key cache.entries

/-- Drop the entry for a key. -/
def remove (key : CacheKey) (cache : LruCache) : LruCache where
  entries := Recency.remove CacheEntry.key key cache.entries
  distinct := Recency.distinct_remove cache.distinct
  bounded := Recency.length_remove_le.trans cache.bounded

/-- Make an entry the most recently used one, replacing what its key had. A full cache
takes no new key. -/
def place (entry : CacheEntry) (cache : LruCache) : LruCache :=
  if room : (cache.remove entry.key).entries.length < cacheCapacity then
    { entries := entry :: (cache.remove entry.key).entries
      distinct := List.nodup_cons.mpr ⟨Recency.notMem_remove, (cache.remove entry.key).distinct⟩
      bounded := room }
  else cache

/-- Whom an eviction removes: an expired entry among the eight least recently used, or
else the least recently used. -/
def victim (now : Int) (entries : List CacheEntry) : Option CacheEntry :=
  ((entries.reverse.take 8).find? fun entry => entry.expires ≤ now).or entries.getLast?

/-- Evict if the cache is full. -/
def makeRoom (now : Int) (cache : LruCache) : LruCache :=
  if cache.entries.length < cacheCapacity then cache
  else match victim now cache.entries with
    | none => cache
    | some entry => cache.remove entry.key

/-- Look up a key: serve a live entry and mark it used, drop an expired one. -/
def get (name : CString) (qtype : UInt16) (cap : Nat) (now : Int) (cache : LruCache) :
    Option CacheHit × LruCache :=
  match cache.lookup (cacheKey name.chars qtype) with
  | none => (none, cache)
  | some entry =>
      if entry.expires ≤ now then (none, cache.remove entry.key)
      else (some (entry.serve cap now), cache.place entry)

/-- The entry that a put writes over `old`. -/
def refresh (old : CacheEntry) (ans : List DnsAnswer) (rcode : Nat) (now : Int) : CacheEntry :=
  let ans := ans.take dnsMaxAnswers
  { old with ans := ans, rcode := rcode, expires := now + (entryTtl ans).toNat }

/-- The node for a key as it is allocated, before it is filled. -/
def blank (name : CString) (qtype : UInt16) : CacheEntry :=
  ⟨DnsName.ofText name.chars, qtype, [], 0, 0⟩

/-- Store an answer set for a key. -/
def put (name : CString) (qtype : UInt16) (ans : List DnsAnswer) (rcode : Nat) (now : Int)
    (allocates : Bool) (cache : LruCache) : LruCache :=
  match cache.lookup (cacheKey name.chars qtype) with
  | some old => cache.place (refresh old ans rcode now)
  | none =>
      if allocates then (cache.makeRoom now).place (refresh (blank name qtype) ans rcode now)
      else cache.makeRoom now

/-- One call on the abstract cache. -/
def step (op : CacheOp) (cache : LruCache) : Option CacheHit × LruCache :=
  match op with
  | .init => (none, empty)
  | .put name qtype ans rcode now allocates => (none, cache.put name qtype ans rcode now allocates)
  | .get name qtype cap now => cache.get name qtype cap now
  | .fini => (none, empty)

/-- Calls one after the other. -/
def run : List CacheOp → LruCache → List (Option CacheHit) × LruCache
  | [], cache => ([], cache)
  | op :: ops, cache =>
      let (result, cache) := cache.step op
      let (results, cache) := run ops cache
      (result :: results, cache)

variable {cache : LruCache} {entry : CacheEntry} {key : CacheKey}

/-- With room, the new entry is in front and its old one is gone. -/
theorem place_entries (room : (cache.remove entry.key).entries.length < cacheCapacity) :
    (cache.place entry).entries = entry :: (cache.remove entry.key).entries := by
  rw [place, dif_pos room]

/-- There is always room to replace. -/
theorem place_entries_of_lookup {old : CacheEntry} (found : cache.lookup entry.key = some old) :
    (cache.place entry).entries = entry :: (cache.remove entry.key).entries :=
  place_entries (Nat.lt_of_lt_of_le (Recency.length_remove_lt found) cache.bounded)

@[simp] theorem refresh_key (old : CacheEntry) (ans : List DnsAnswer) (rcode : Nat) (now : Int) :
    (refresh old ans rcode now).key = old.key := rfl

/-- A name that fits is kept, and with it the key. -/
theorem blank_key {name : CString} (fits : name.chars.length ≤ dnsMaxName) (qtype : UInt16) :
    (blank name qtype).key = cacheKey name.chars qtype := by
  simp only [CacheEntry.key, blank, DnsName.ofText_chars_of_nulFree fits name.nulFree]

/-- What is found has the key asked for. -/
theorem key_of_lookup (found : cache.lookup key = some entry) : entry.key = key :=
  Recency.key_of_lookup found

/-- What is found is in the cache. -/
theorem mem_of_lookup (found : cache.lookup key = some entry) : entry ∈ cache.entries :=
  Recency.mem_of_lookup found

/-- What is in the cache is found. -/
theorem lookup_of_mem (member : entry ∈ cache.entries) : cache.lookup entry.key = some entry :=
  Recency.lookup_of_mem cache.distinct member

/-! ## Eviction -/

/-- What is evicted was there. -/
theorem mem_of_victim {now : Int} {entries : List CacheEntry}
    (chosen : victim now entries = some entry) : entry ∈ entries := by
  rw [victim, Option.or_eq_some_iff] at chosen
  rcases chosen with near | ⟨_, last⟩
  · exact List.mem_reverse.mp (List.mem_of_mem_take (List.mem_of_find?_eq_some near))
  · exact List.mem_of_getLast? last

/-- A nonempty cache has a victim. -/
theorem exists_victim (now : Int) {entries : List CacheEntry} (nonempty : entries ≠ []) :
    ∃ entry, victim now entries = some entry := by
  have last := List.getLast?_eq_some_getLast nonempty
  rw [victim, last]
  cases (entries.reverse.take 8).find? fun entry => entry.expires ≤ now <;> simp

/-- A victim that has not expired is the least recently used entry. -/
theorem victim_live {now : Int} {entries : List CacheEntry}
    (chosen : victim now entries = some entry) (live : now < entry.expires) :
    entries.getLast? = some entry := by
  rw [victim, Option.or_eq_some_iff] at chosen
  rcases chosen with near | ⟨_, last⟩
  · have expired := List.find?_some near
    simp only [decide_eq_true_eq] at expired
    omega
  · exact last

/-- One eviction makes room. -/
theorem makeRoom_room (now : Int) (cache : LruCache) :
    (cache.makeRoom now).entries.length < cacheCapacity := by
  unfold makeRoom
  split
  · assumption
  · next full =>
      have nonempty : cache.entries ≠ [] := by
        rintro empty
        simp [empty, cacheCapacity] at full
      obtain ⟨entry, chosen⟩ := exists_victim now nonempty
      rw [chosen]
      exact Nat.lt_of_lt_of_le (Recency.length_remove_lt (lookup_of_mem (mem_of_victim chosen)))
        cache.bounded

/-- Making room only removes entries. -/
theorem makeRoom_sublist (now : Int) (cache : LruCache) :
    (cache.makeRoom now).entries.Sublist cache.entries := by
  unfold makeRoom
  split
  · exact List.Sublist.refl _
  · split
    · exact List.Sublist.refl _
    · exact List.filter_sublist

/-- After making room there is room. -/
theorem makeRoom_place_entries (now : Int) (cache : LruCache) (entry : CacheEntry) :
    ((cache.makeRoom now).place entry).entries =
      entry :: ((cache.makeRoom now).remove entry.key).entries :=
  place_entries (Nat.lt_of_le_of_lt Recency.length_remove_le (makeRoom_room now cache))

/-! ## What a cache can hold -/

/-- A removal adds nothing. -/
theorem mem_of_mem_remove {other : CacheEntry} (member : other ∈ (cache.remove key).entries) :
    other ∈ cache.entries :=
  List.mem_of_mem_filter member

/-- A new entry is all that is added. -/
theorem mem_place {other : CacheEntry} (member : other ∈ (cache.place entry).entries) :
    other = entry ∨ other ∈ cache.entries := by
  unfold place at member
  split at member
  · exact (List.mem_cons.mp member).imp_right mem_of_mem_remove
  · exact Or.inr member

theorem remove_of_lookup_none (absent : cache.lookup key = none) : cache.remove key = cache :=
  LruCache.ext (Recency.remove_of_notMem (Recency.lookup_eq_none_iff.mp absent))

/-- A lookup serves the live entry of the key and marks it used, or leaves the key without an
entry. -/
theorem get_cases (name : CString) (qtype : UInt16) (cap : Nat) (now : Int) (cache : LruCache) :
    (∃ entry, cache.lookup (cacheKey name.chars qtype) = some entry ∧ now < entry.expires ∧
      cache.get name qtype cap now = (some (entry.serve cap now), cache.place entry)) ∨
    (∀ entry, cache.lookup (cacheKey name.chars qtype) = some entry → entry.expires ≤ now) ∧
      cache.get name qtype cap now = (none, cache.remove (cacheKey name.chars qtype)) := by
  unfold get
  cases found : cache.lookup (cacheKey name.chars qtype) with
  | none => exact Or.inr ⟨by simp, by rw [remove_of_lookup_none found]⟩
  | some entry =>
      simp only [Option.some.injEq, forall_eq', exists_eq_left']
      by_cases expired : entry.expires ≤ now
      · rw [if_pos expired, key_of_lookup found]
        exact Or.inr ⟨expired, rfl⟩
      · rw [if_neg expired]
        exact Or.inl ⟨Int.not_le.mp expired, rfl⟩

/-- A put adds nothing to the cache but the answers it was given, under the key. -/
theorem mem_put {name : CString} (fits : name.chars.length ≤ dnsMaxName) {qtype : UInt16}
    {ans : List DnsAnswer} {rcode : Nat} {now : Int} {allocates : Bool} {other : CacheEntry}
    (member : other ∈ (cache.put name qtype ans rcode now allocates).entries) :
    other ∈ cache.entries ∨
      other.key = cacheKey name.chars qtype ∧ other.ans = ans.take dnsMaxAnswers ∧
        other.rcode = rcode := by
  unfold put at member
  split at member
  · next old found =>
      rcases mem_place member with rfl | before
      · exact Or.inr ⟨(refresh_key old ans rcode now).trans (key_of_lookup found), rfl, rfl⟩
      · exact Or.inl before
  · split at member
    · rcases mem_place member with rfl | before
      · exact Or.inr ⟨blank_key fits qtype, rfl, rfl⟩
      · exact Or.inl ((makeRoom_sublist now cache).subset before)
    · exact Or.inl ((makeRoom_sublist now cache).subset member)

end LruCache

/-! ## Filters -/

/-- A filter that never rejects what it tracks. -/
structure FilterLaw {β : Type} (bloom : BloomOps β) where
  tracks : β → List CacheKey → Prop
  perm : ∀ {filter keys others}, tracks filter keys → keys.Perm others → tracks filter others
  reset : ∀ filter, tracks (bloom.reset filter) []
  add : ∀ {filter keys} name qtype, tracks filter keys →
    tracks (bloom.add name qtype filter) (cacheKey name qtype :: keys)
  del : ∀ {filter keys name qtype}, tracks filter (cacheKey name qtype :: keys) →
    tracks (bloom.del name qtype filter) keys
  maybe : ∀ {filter keys name qtype}, tracks filter keys → cacheKey name qtype ∈ keys →
    bloom.maybe name qtype filter = true

/-- The slots of a key. -/
def keySlots (key : CacheKey) : List (Fin bloomSlotCount) :=
  bloomSlots (dnsKeyHash key.1 key.2)

/-- The slots of a key are those of its hash. -/
theorem keySlots_cacheKey (name : Bytes) (qtype : UInt16) :
    keySlots (cacheKey name qtype) = bloomSlots (dnsKeyHash name qtype) := by
  rw [keySlots, cacheKey, dnsKeyHash_congr (foldCase_foldCase name)]

/-- A key has four slots. -/
theorem length_keySlots (key : CacheKey) : (keySlots key).length = bloomHashes :=
  length_bloomSlots _

/-- The slots of a key are distinct. -/
theorem keySlots_nodup (key : CacheKey) : (keySlots key).Nodup :=
  bloomSlots_nodup _

/-- The counting filter counts, in every slot that is not pinned, how many of the
tracked keys use the slot. -/
def countingLaw : FilterLaw countingBloom where
  tracks := fun filter keys => CountingFilter.Exact filter (keys.flatMap keySlots)
  perm := fun exact same => exact.perm (same.flatMap_right keySlots)
  reset := fun _ => CountingFilter.exact_zero
  add := fun name qtype exact => by
    simp only [List.flatMap_cons, countingBloom, dnsBloomAdd, keySlots_cacheKey]
    exact exact.add _
  del := fun exact => by
    simp only [List.flatMap_cons, keySlots_cacheKey] at exact
    simp only [countingBloom, dnsBloomDel]
    exact exact.del
  maybe := fun {filter keys name qtype} exact member => by
    simp only [countingBloom, dnsBloomMaybe, ← keySlots_cacheKey]
    exact exact.maybe fun _ slot => List.mem_flatMap.mpr ⟨_, member, slot⟩

/-- The filter that is compiled out rejects nothing. -/
def disabledLaw : FilterLaw disabledBloom where
  tracks := fun _ _ => True
  perm := fun _ _ => trivial
  reset := fun _ => trivial
  add := fun _ _ _ => trivial
  del := fun _ => trivial
  maybe := fun _ _ => rfl

end FizzDns
