import FizzDns.Foundation.LinkedList
import FizzDns.Cache.Bloom
import FizzDns.Msg.Build

/-!
# The cache as it is laid out in memory

`dns_cache.c` on a heap of nodes: every node is on the chain of its bucket and on the
LRU list, most recently used first. All functions run under the cache mutex, except
for the filter test at the start of `dnsCacheGet`.

A result `none` means that the source would dereference a dangling pointer or loop
forever: bucket walks and the eviction loop carry `walkFuel`, more turns than any of
them makes on a well-formed cache. The clock reading and the outcome of `calloc` are
arguments.
-/

namespace FizzDns

/-- `CACHE_CAPACITY`. -/
def cacheCapacity : Nat := 4096

/-- `CACHE_BUCKETS`. -/
def cacheBuckets : Nat := 2048

/-- `CACHE_MIN_TTL`. -/
def cacheMinTtl : UInt32 := 5

/-- `CACHE_MAX_TTL`. -/
def cacheMaxTtl : UInt32 := 86400

/-- `CACHE_NEG_TTL`. -/
def cacheNegTtl : UInt32 := 60

/-- The fields of `struct cache_node` that are not links. `ans` is the part of the
answer array below `nans`. -/
structure CacheEntry where
  name : DnsName
  qtype : UInt16
  ans : List DnsAnswer
  rcode : Nat
  expires : Int
  deriving DecidableEq

/-- `struct cache_node`. -/
structure CacheNode extends CacheEntry where
  hnext : Option Addr
  prev : Option Addr
  next : Option Addr
  deriving DecidableEq

/-- The LRU list is threaded through `prev` and `next`. -/
def lruLinks : DLinks CacheNode (CacheEntry × Option Addr) where
  prev := CacheNode.prev
  next := CacheNode.next
  setPrev := fun link node => { node with prev := link }
  setNext := fun link node => { node with next := link }
  body := fun node => (node.toCacheEntry, node.hnext)
  prev_setPrev := fun _ _ => rfl
  next_setPrev := fun _ _ => rfl
  prev_setNext := fun _ _ => rfl
  next_setNext := fun _ _ => rfl
  body_setPrev := fun _ _ => rfl
  body_setNext := fun _ _ => rfl

/-- Bucket chains are threaded through `hnext`. -/
def bucketLink : CLink CacheNode (CacheEntry × Option Addr × Option Addr) where
  link := CacheNode.hnext
  setLink := fun target node => { node with hnext := target }
  body := fun node => (node.toCacheEntry, node.prev, node.next)
  link_setLink := fun _ _ => rfl
  body_setLink := fun _ _ => rfl

/-- The counters that `dns_cache_stats` reports. They are of type `uint64_t` in the source, and no
function but that one reads them: what it reports is a number here modulo `2 ^ 64`. -/
structure CacheStats where
  hits : Nat
  misses : Nat
  evictions : Nat
  expirations : Nat
  deriving DecidableEq

/-- All counters at zero. -/
def CacheStats.zero : CacheStats := ⟨0, 0, 0, 0⟩

/-- The static variables of `dns_cache.c`, and the state of the filter. -/
structure CacheState (β : Type) where
  heap : Heap CacheNode
  buckets : Fin cacheBuckets → Option Addr
  lruHead : Option Addr
  lruTail : Option Addr
  entryCount : Nat
  bloom : β
  stats : CacheStats

/-- Count a miss. -/
def CacheState.miss {β : Type} (s : CacheState β) : CacheState β :=
  { s with stats := { s.stats with misses := s.stats.misses + 1 } }

/-- Count a hit. -/
def CacheState.hit {β : Type} (s : CacheState β) : CacheState β :=
  { s with stats := { s.stats with hits := s.stats.hits + 1 } }

/-- Count an eviction. -/
def CacheState.evicted {β : Type} (s : CacheState β) : CacheState β :=
  { s with stats := { s.stats with evictions := s.stats.evictions + 1 } }

/-- Count an expiration. -/
def CacheState.expired {β : Type} (s : CacheState β) : CacheState β :=
  { s with stats := { s.stats with expirations := s.stats.expirations + 1 } }

variable {β : Type} (bloom : BloomOps β)

/-- `bucket_of`: the low bits of the hash. -/
def bucketOf (hash : UInt64) : Fin cacheBuckets :=
  ⟨hash.toUInt32.toNat % cacheBuckets, Nat.mod_lt _ (by decide)⟩

/-- `clamp_ttl`. -/
def clampTtl (ttl : UInt32) : UInt32 :=
  if ttl < cacheMinTtl then cacheMinTtl else if ttl > cacheMaxTtl then cacheMaxTtl else ttl

/-- More turns than a loop of this file makes on a well-formed cache. -/
def walkFuel : Nat := cacheCapacity + 1

/-! ## List helpers -/

/-- The LRU list of a cache. -/
def CacheState.lru (s : CacheState β) : DList CacheNode :=
  ⟨s.heap, s.lruHead, s.lruTail⟩

/-- The cache with another LRU list. -/
def CacheState.withLru (s : CacheState β) (list : DList CacheNode) : CacheState β :=
  { s with heap := list.heap, lruHead := list.head, lruTail := list.tail }

/-- `lru_unlink`. -/
def lruUnlink (n : Addr) (s : CacheState β) : Option (CacheState β) :=
  (DList.unlink lruLinks n s.lru).map s.withLru

/-- `lru_push_front`. -/
def lruPushFront (n : Addr) (s : CacheState β) : Option (CacheState β) :=
  (DList.pushFront lruLinks n s.lru).map s.withLru

/-- `bucket_unlink`. -/
def bucketUnlink (n : Addr) (s : CacheState β) : Option (CacheState β) := do
  let node ← s.heap.read n
  let b := bucketOf (dnsKeyHash node.name.chars node.qtype)
  let (heap, head) ← Chain.unlink bucketLink n walkFuel none (s.buckets b) (s.buckets b) s.heap
  some { s with heap := heap, buckets := Function.update s.buckets b head }

/-- `node_destroy`. -/
def nodeDestroy (n : Addr) (s : CacheState β) : Option (CacheState β) := do
  let node ← s.heap.read n
  let s := { s with bloom := bloom.del node.name.chars node.qtype s.bloom }
  let s ← bucketUnlink n s
  let s ← lruUnlink n s
  let heap ← s.heap.free n
  some { s with heap := heap, entryCount := sizeSub s.entryCount 1 }

/-- Whether an entry is the one for a key. -/
def CacheEntry.isFor (name : Bytes) (qtype : UInt16) (entry : CacheEntry) : Bool :=
  entry.qtype = qtype && dnsNameEqual entry.name.chars name

/-- `bucket_find`. -/
def bucketFind (hash : UInt64) (name : Bytes) (qtype : UInt16) (s : CacheState β) :
    Option (Option Addr) :=
  Chain.find bucketLink (fun node => node.isFor name qtype) s.heap walkFuel
    (s.buckets (bucketOf hash))

/-- The scan of `evict_one`: the first expired node among the `left` next ones,
walking towards the head. -/
def evictScan (now : Int) (heap : Heap CacheNode) :
    (left : Nat) → Option Addr → Option (Option Addr)
  | 0, _ => some none
  | _ + 1, none => some none
  | left + 1, some n => do
      let node ← heap.read n
      if node.expires ≤ now then some (some n) else evictScan now heap left node.prev

/-- `evict_one`. -/
def evictOne (now : Int) (s : CacheState β) : Option (CacheState β) := do
  let expired ← evictScan now s.heap 8 s.lruTail
  match expired.or s.lruTail with
  | none => some s
  | some victim => do
      let s ← nodeDestroy bloom victim s
      some s.evicted

/-- `while (entry_count >= CACHE_CAPACITY) evict_one(now);` -/
def evictWhileFull (now : Int) : (fuel : Nat) → CacheState β → Option (CacheState β)
  | 0, _ => none
  | fuel + 1, s =>
      if s.entryCount ≥ cacheCapacity then do
        let s ← evictOne bloom now s
        evictWhileFull now fuel s
      else some s

/-! ## Public functions -/

/-- `dns_cache_init`. Nodes that are still linked are forgotten, not freed. -/
def dnsCacheInit (s : CacheState β) : CacheState β :=
  { s with
    buckets := fun _ => none
    lruHead := none
    lruTail := none
    entryCount := 0
    bloom := bloom.reset s.bloom
    stats := .zero }

/-- The freeing loop of `dns_cache_fini`. -/
def freeAll : (fuel : Nat) → Option Addr → Heap CacheNode → Option (Heap CacheNode)
  | 0, _, _ => none
  | _ + 1, none, heap => some heap
  | fuel + 1, some n, heap => do
      let node ← heap.read n
      let heap ← heap.free n
      freeAll fuel node.next heap

/-- `dns_cache_fini`. -/
def dnsCacheFini (s : CacheState β) : Option (CacheState β) := do
  let heap ← freeAll walkFuel s.lruHead s.heap
  some
    { s with
      heap := heap
      buckets := fun _ => none
      lruHead := none
      lruTail := none
      entryCount := 0
      bloom := bloom.reset s.bloom }

/-- What a hit hands to the caller. -/
structure CacheHit where
  ans : List DnsAnswer
  rcode : Nat
  deriving DecidableEq

/-- The answers of an entry as they are served at a time, with the remaining TTL. -/
def CacheEntry.serve (entry : CacheEntry) (cap : Nat) (now : Int) : CacheHit where
  ans := (entry.ans.take cap).map fun answer =>
    { answer with ttl := UInt32.ofInt (entry.expires - now) }
  rcode := entry.rcode

/-- The part of `dns_cache_get` under the mutex. -/
def cacheGetLocked (h : UInt64) (name : Bytes) (qtype : UInt16) (cap : Nat) (now : Int)
    (s : CacheState β) : Option (Option CacheHit × CacheState β) := do
  match ← bucketFind h name qtype s with
  | none => some (none, s.miss)
  | some n => do
      let node ← s.heap.read n
      if node.expires ≤ now then
        let s ← nodeDestroy bloom n s
        some (none, s.expired.miss)
      else
        let s ← lruUnlink n s
        let s ← lruPushFront n s
        some (some (node.serve cap now), s.hit)

/-- `dns_cache_get`: a hit's content, or `none` for a miss. -/
def dnsCacheGet (name : CString) (qtype : UInt16) (cap : Nat) (now : Int) (s : CacheState β) :
    Option (Option CacheHit × CacheState β) :=
  let h := dnsKeyHash name.chars qtype
  if bloom.maybe name.chars qtype s.bloom then cacheGetLocked bloom h name.chars qtype cap now s
  else some (none, s.miss)

/-- How long `dns_cache_put` keeps an answer set: as long as its shortest lived member,
within bounds. -/
def entryTtl (ans : List DnsAnswer) : UInt32 :=
  if ans.length = 0 then cacheNegTtl
  else clampTtl (ans.foldl (fun ttl answer => if answer.ttl < ttl then answer.ttl else ttl)
    cacheMaxTtl)

/-- Link a freshly allocated, zeroed node for a new key into its bucket. -/
def linkNewNode (h : UInt64) (name : CString) (qtype : UInt16) (s : CacheState β) :
    CacheState β :=
  let b := bucketOf h
  { s with
    heap := s.heap.alloc
      { name := DnsName.ofText name.chars
        qtype := qtype
        ans := []
        rcode := 0
        expires := 0
        hnext := s.buckets b
        prev := none
        next := none }
    buckets := Function.update s.buckets b (some s.heap.fresh)
    entryCount := s.entryCount + 1
    bloom := bloom.add name.chars qtype s.bloom }

/-- Write an answer set into a node that is off the LRU list and make it the most
recently used. -/
def fillNode (n : Addr) (ans : List DnsAnswer) (rcode : Nat) (expires : Int)
    (s : CacheState β) : Option (CacheState β) := do
  let heap ← s.heap.modify n fun node =>
    { node with ans := ans, rcode := rcode, expires := expires }
  lruPushFront n { s with heap := heap }

/-- `dns_cache_put`. `allocates` says whether `calloc` succeeds. -/
def dnsCachePut (name : CString) (qtype : UInt16) (ans : List DnsAnswer) (rcode : Nat)
    (now : Int) (allocates : Bool) (s : CacheState β) : Option (CacheState β) := do
  let ans := ans.take dnsMaxAnswers
  let expires := now + (entryTtl ans).toNat
  let h := dnsKeyHash name.chars qtype
  match ← bucketFind h name.chars qtype s with
  | some n => do
      let s ← lruUnlink n s
      fillNode n ans rcode expires s
  | none => do
      let s ← evictWhileFull bloom now walkFuel s
      if allocates then fillNode s.heap.fresh ans rcode expires (linkNewNode bloom h name qtype s)
      else some s

/-! ## Runs -/

/-- The state before any call: statics are zero. -/
def CacheState.start (empty : β) : CacheState β where
  heap := .empty
  buckets := fun _ => none
  lruHead := none
  lruTail := none
  entryCount := 0
  bloom := empty
  stats := .zero

/-- A call of a public function, with the clock reading it sees. -/
inductive CacheOp where
  | init
  | put (name : CString) (qtype : UInt16) (ans : List DnsAnswer) (rcode : Nat) (now : Int)
      (allocates : Bool)
  | get (name : CString) (qtype : UInt16) (cap : Nat) (now : Int)
  | fini

/-- Execute one call; only `get` has a result. -/
def cacheStep (op : CacheOp) (s : CacheState β) : Option (Option CacheHit × CacheState β) :=
  match op with
  | .init => some (none, dnsCacheInit bloom s)
  | .put name qtype ans rcode now allocates => do
      let s ← dnsCachePut bloom name qtype ans rcode now allocates s
      some (none, s)
  | .get name qtype cap now => dnsCacheGet bloom name qtype cap now s
  | .fini => do
      let s ← dnsCacheFini bloom s
      some (none, s)

/-- Execute calls one after the other, collecting their results. -/
def cacheRun : List CacheOp → CacheState β → Option (List (Option CacheHit) × CacheState β)
  | [], s => some ([], s)
  | op :: ops, s => do
      let (result, s) ← cacheStep bloom op s
      let (results, s) ← cacheRun ops s
      some (result :: results, s)

end FizzDns
