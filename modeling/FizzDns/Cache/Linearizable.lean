import FizzDns.Cache.Concurrent

/-!
# The shared cache is a bounded map

Without nodes, filter and mutex, the cache is a map from keys to what was put last. A lookup
returns what is stored and has not expired, and takes out what has expired. A put stores, unless
the key is new and `calloc` fails. The map holds at most `cacheCapacity` keys; when it is full it
may forget one.

Every history of calls and returns that threads can make with the cache is one of this map, where
each call takes effect in one step between its call and its return
(`sharedCache_linearizable`). Where that step is, depends:

* a lookup that sees a zero in the filter takes effect at that load;
* a lookup under the mutex takes effect when it has the mutex, or, if it finds an expired entry,
  with the first load of the entry's deletion from the filter;
* a put that replaces, or that gets no memory, takes effect when it has the mutex;
* a put of a new key takes effect with the last store of the key's addition to the filter. What it
  evicts is forgotten earlier, with the first load of the deletion.
-/

namespace FizzDns

open FilterRace Linearizability

/-! ## The map -/

/-- What a put stores. -/
structure Stored where
  ans : List DnsAnswer
  rcode : Nat
  expires : Int
  deriving DecidableEq

/-- What is served of it at a time. -/
def Stored.serve (stored : Stored) (cap : Nat) (now : Int) : CacheHit where
  ans := (stored.ans.take cap).map fun answer =>
    { answer with ttl := UInt32.ofInt (stored.expires - now) }
  rcode := stored.rcode

/-- An answer set with the time until which it is kept. -/
def Stored.of (ans : List DnsAnswer) (rcode : Nat) (now : Int) : Stored where
  ans := ans.take dnsMaxAnswers
  rcode := rcode
  expires := now + (entryTtl (ans.take dnsMaxAnswers)).toNat

/-- What is stored for each key. -/
abbrev CacheMap := CacheKey → Option Stored

/-- The number of keys. -/
noncomputable def CacheMap.size (map : CacheMap) : ℕ∞ :=
  {key | map key ≠ none}.encard

/-- One call on the map. -/
def CacheCall.onMap : CacheCall → CacheMap → Option CacheHit × CacheMap
  | .get name qtype cap now, map =>
      match map (cacheKey name.chars qtype) with
      | none => (none, map)
      | some stored =>
          if stored.expires ≤ now then
            (none, Function.update map (cacheKey name.chars qtype) none)
          else (some (stored.serve cap now), map)
  | .put name qtype ans rcode now allocates, map =>
      if allocates || (map (cacheKey name.chars qtype)).isSome then
        (none, Function.update map (cacheKey name.chars qtype) (some (.of ans rcode now)))
      else (none, map)

/-- The map as an object: every call needs room for what it leaves, and a full map may forget a
key. -/
def boundedMap : Object CacheMap CacheCall (Option CacheHit) where
  apply := fun call before result after =>
    call.onMap before = (result, after) ∧ after.size ≤ cacheCapacity
  drift := fun before after =>
    before.size = cacheCapacity ∧ ∃ key, after = Function.update before key none

/-! ## The abstract cache as a map -/

/-- What an entry stores. -/
def CacheEntry.stored (entry : CacheEntry) : Stored :=
  ⟨entry.ans, entry.rcode, entry.expires⟩

namespace LruCache

/-- What is stored for each key. -/
def contents (cache : LruCache) : CacheMap :=
  fun key => (cache.lookup key).map CacheEntry.stored

/-- The keys, most recently used first. -/
def keys (cache : LruCache) : List CacheKey :=
  cache.entries.map CacheEntry.key

variable {cache : LruCache} {entry : CacheEntry} {key : CacheKey}

/-- What is found is what the map has. -/
theorem contents_of_lookup (found : cache.lookup key = some entry) :
    cache.contents key = some entry.stored := by
  rw [contents, found, Option.map_some]

/-- The map has just the keys of the cache. -/
theorem contents_eq_none : cache.contents key = none ↔ key ∉ cache.keys := by
  rw [contents, Option.map_eq_none_iff, lookup, Recency.lookup_eq_none_iff, keys]

/-- The map has as many keys as the cache has entries. -/
theorem size_contents (cache : LruCache) : cache.contents.size = cache.entries.length := by
  have same : {key | cache.contents key ≠ none} = (cache.keys.toFinset : Set CacheKey) := by
    ext key
    rw [Set.mem_ofPred_eq, Ne, contents_eq_none, not_not, Finset.mem_coe, List.mem_toFinset]
  rw [CacheMap.size, same, Set.encard_coe_eq_coe_finsetCard, keys,
    List.toFinset_card_of_nodup cache.distinct, List.length_map]

/-- The map has at most 4096 keys. -/
theorem size_contents_le (cache : LruCache) : cache.contents.size ≤ cacheCapacity := by
  rw [size_contents]
  exact_mod_cast cache.bounded

/-- A removal forgets one key. -/
theorem contents_remove (cache : LruCache) (key : CacheKey) :
    (cache.remove key).contents = Function.update cache.contents key none := by
  funext other
  by_cases same : other = key
  · subst same
    rw [Function.update_self, contents, lookup, remove, Recency.lookup_remove_self, Option.map_none]
  · rw [Function.update_of_ne same, contents, contents, lookup, remove,
      Recency.lookup_remove_of_ne (Ne.symm same), lookup]

/-- With room, a new entry changes one key. -/
theorem contents_place (room : (cache.remove entry.key).entries.length < cacheCapacity) :
    (cache.place entry).contents =
      Function.update cache.contents entry.key (some entry.stored) := by
  funext other
  have placed := place_entries room
  by_cases same : other = entry.key
  · subst same
    rw [Function.update_self, contents, lookup, placed, Recency.lookup_cons_self rfl,
      Option.map_some]
  · rw [Function.update_of_ne same, contents, lookup, placed,
      Recency.lookup_cons_of_ne (Ne.symm same)]
    exact (congrFun (contents_remove cache entry.key) other).trans (Function.update_of_ne same _ _)

/-- Replacing an entry needs no further room. -/
theorem room_of_lookup {old : CacheEntry} (found : cache.lookup key = some old) :
    (cache.remove key).entries.length < cacheCapacity :=
  Nat.lt_of_lt_of_le (Recency.length_remove_lt found) cache.bounded

theorem room_of_lt (room : cache.entries.length < cacheCapacity) :
    (cache.remove key).entries.length < cacheCapacity :=
  Nat.lt_of_le_of_lt Recency.length_remove_le room

/-- Taking out an entry takes out its key. -/
theorem keys_remove (found : cache.lookup key = some entry) :
    cache.keys.Perm (key :: (cache.remove key).keys) := by
  obtain ⟨front, back, split⟩ := List.append_of_mem (mem_of_lookup found)
  have distinct := cache.distinct
  obtain rfl := key_of_lookup found
  have left : (cache.remove entry.key).entries = front ++ back := by
    rw [split] at distinct
    simp only [remove, split]
    exact Recency.remove_split distinct
  rw [keys, keys, left, split, ← List.map_cons]
  exact List.perm_middle.map CacheEntry.key

/-- With room, a new entry is in front of the others. -/
theorem keys_place (room : (cache.remove entry.key).entries.length < cacheCapacity) :
    (cache.place entry).keys = entry.key :: (cache.remove entry.key).keys := by
  rw [keys, place_entries room, List.map_cons, keys]

/-- Replacing an entry keeps the keys. -/
theorem keys_place_of_lookup {old : CacheEntry} (found : cache.lookup entry.key = some old) :
    (cache.place entry).keys.Perm cache.keys := by
  rw [keys_place (room_of_lookup found)]
  exact (keys_remove found).symm

end LruCache

/-! ## What the owner of the mutex owes -/

/-- The filter calls that the owner of the mutex has still to mark, what the others are to see of
the cache meanwhile, what the cache is when all is done, where the owner is as a client of the
map, and the result it returns. -/
inductive Owes : List (Call CacheKey) → (shown cache : LruCache) →
    Client CacheCall (Option CacheHit) → Option CacheHit → Prop where
  | nothing {cache : LruCache} {result : Option CacheHit} :
      Owes [] cache cache (.done result) result
  | expiry {shown : LruCache} {name : CString} {qtype : UInt16} {now : Int} {entry : CacheEntry}
      (cap : Nat) (found : shown.lookup (cacheKey name.chars qtype) = some entry)
      (expired : entry.expires ≤ now) :
      Owes [.del entry.key] shown (shown.remove entry.key) (.pending (.get name qtype cap now)) none
  | insertion {shown : LruCache} {name : CString} {qtype : UInt16} {ans : List DnsAnswer}
      {rcode : Nat} {now : Int} (fits : name.chars.length ≤ dnsMaxName)
      (absent : shown.lookup (cacheKey name.chars qtype) = none)
      (room : shown.entries.length < cacheCapacity) :
      Owes [.add (cacheKey name.chars qtype)] shown
        (shown.place (LruCache.refresh (LruCache.blank name qtype) ans rcode now))
        (.pending (.put name qtype ans rcode now true)) none
  | eviction {owed : List (Call CacheKey)} {shown cache : LruCache} {entry : CacheEntry}
      {client : Client CacheCall (Option CacheHit)} {result : Option CacheHit}
      (full : shown.entries.length = cacheCapacity) (member : entry ∈ shown.entries)
      (rest : Owes owed (shown.remove entry.key) cache client result) :
      Owes (.del entry.key :: owed) shown cache client result

/-- What the map can do for one client while another view of the cache becomes visible: nothing,
forget something, or execute the client's call. -/
inductive Advance : LruCache × Client CacheCall (Option CacheHit) →
    LruCache × Client CacheCall (Option CacheHit) → Prop where
  | stay {before} : Advance before before
  | forget {shown after : LruCache} {client : Client CacheCall (Option CacheHit)}
      (drifts : boundedMap.drift shown.contents after.contents) :
      Advance (shown, client) (after, client)
  | execute {shown after : LruCache} {call : CacheCall} {result : Option CacheHit}
      (answers : call.onMap shown.contents = (result, after.contents)) :
      Advance (shown, .pending call) (after, .done result)

section Client

variable {ι : Type} [DecidableEq ι] {shared : Shared CacheMap ι CacheCall (Option CacheHit)}
  {thread : ι} {shown after : LruCache} {client moved : Client CacheCall (Option CacheHit)}

/-- What the map does for a client is a run without a call or a return. -/
theorem Advance.run (advance : Advance (shown, client) (after, moved))
    (contents : shared.object = shown.contents) (place : shared.clients thread = client) :
    boundedMap.Run shared [] ({ shared with object := after.contents }.move thread moved) := by
  obtain ⟨object, clients⟩ := shared
  cases contents
  cases advance with
  | stay =>
      rw [Shared.move_same (by exact place)]
      exact .refl _
  | forget drifts =>
      rw [Shared.move_same (by exact place)]
      exact (Object.Step.drift drifts).run
  | execute answers =>
      have applies : boundedMap.apply _ shown.contents _ after.contents :=
        ⟨answers, after.size_contents_le⟩
      exact (Object.Step.execute place applies).run

end Client

namespace Owes

variable {call : Call CacheKey} {owed : List (Call CacheKey)} {shown cache : LruCache}
  {client : Client CacheCall (Option CacheHit)} {result : Option CacheHit}

/-- Owing nothing is being done. -/
theorem finished (owes : Owes [] shown cache client result) :
    shown = cache ∧ client = .done result := by
  cases owes
  exact ⟨rfl, rfl⟩

/-- What is owed deletes only what is there. -/
theorem replays (owes : Owes owed shown cache client result) {settled : List CacheKey}
    (same : settled.Perm shown.keys) : (replay owed settled).isSome := by
  induction owes generalizing settled with
  | nothing => rfl
  | expiry cap found expired =>
      rw [LruCache.key_of_lookup found, (replay_del [] (same.trans (LruCache.keys_remove found))).1]
      rfl
  | insertion fits absent room => rfl
  | @eviction owed _ _ _ _ _ full member rest ih =>
      obtain ⟨replayed, left⟩ := replay_del owed
        (same.trans (LruCache.keys_remove (LruCache.lookup_of_mem member)))
      rw [replayed]
      exact ih left

/-- The mark of an addition puts the key on show. -/
theorem inserted {key : CacheKey} (owes : Owes (.add key :: owed) shown cache client result) :
    ∃ after moved, Advance (shown, client) (after, moved) ∧ after.keys = key :: shown.keys ∧
      Owes owed after cache moved result := by
  cases owes with
  | @insertion _ name qtype ans rcode now fits absent room =>
      have key := LruCache.blank_key fits qtype
      have same : (LruCache.refresh (LruCache.blank name qtype) ans rcode now).key =
          cacheKey name.chars qtype := by
        rw [LruCache.refresh_key, key]
      have roomy : (shown.remove (LruCache.refresh (LruCache.blank name qtype) ans rcode now).key
          ).entries.length < cacheCapacity := LruCache.room_of_lt room
      refine ⟨_, .done none, .execute ?_, ?_, .nothing⟩
      · rw [LruCache.contents_place roomy, same]
        rfl
      · rw [LruCache.keys_place roomy, same, LruCache.remove_of_lookup_none absent]

/-- The mark of a deletion takes the key off show. -/
theorem removing {key : CacheKey} (owes : Owes (.del key :: owed) shown cache client result) :
    ∃ after moved, Advance (shown, client) (after, moved) ∧
      shown.keys.Perm (key :: after.keys) ∧ Owes owed after cache moved result := by
  cases owes with
  | @expiry _ name qtype now entry cap found expired =>
      have same := LruCache.key_of_lookup found
      rw [same]
      refine ⟨_, .done none, .execute ?_, LruCache.keys_remove found, .nothing⟩
      simp only [CacheCall.onMap, LruCache.contents_of_lookup found]
      rw [LruCache.contents_remove]
      exact if_pos expired
  | @eviction _ _ _ entry _ _ full member rest =>
      refine ⟨_, client, .forget ⟨?_, entry.key, LruCache.contents_remove _ _⟩,
        LruCache.keys_remove (LruCache.lookup_of_mem member), rest⟩
      rw [LruCache.size_contents, full]

/-- What the eviction loop adds to what is owed. -/
theorem evicting {now : Int} (rest : Owes owed (shown.makeRoom now) cache client result) :
    Owes (shown.evictionCalls now ++ owed) shown cache client result := by
  unfold LruCache.evictionCalls
  unfold LruCache.makeRoom at rest
  split
  · next room =>
      rw [if_pos room] at rest
      exact rest
  · next full =>
      rw [if_neg full] at rest
      cases chosen : LruCache.victim now shown.entries with
      | none =>
          rw [chosen] at rest
          exact rest
      | some entry =>
          rw [chosen] at rest
          exact .eviction (Nat.le_antisymm shown.bounded (Nat.le_of_not_lt full))
            (LruCache.mem_of_victim chosen) rest

end Owes

/-- What a thread owes once it has the mutex, and what the map has done for it by then. -/
theorem CacheCall.owes_of_locked {call : CacheCall} (fits : call.toOp.Fits) (cache : LruCache) :
    ∃ shown client, Advance (cache, .pending call) (shown, client) ∧ shown.keys.Perm cache.keys ∧
      Owes (call.filterWork cache) shown (cache.step call.toOp).2 client
        (cache.step call.toOp).1 := by
  cases call with
  | get name qtype cap now =>
      simp only [filterWork, toOp, LruCache.step, LruCache.get]
      cases found : cache.lookup (cacheKey name.chars qtype) with
      | none =>
          refine ⟨cache, .done none, .execute ?_, .refl _, .nothing⟩
          simp only [onMap, LruCache.contents, found, Option.map_none]
      | some entry =>
          by_cases expired : entry.expires ≤ now
          · simp only [expired, if_true]
            exact ⟨cache, _, .stay, .refl _, .expiry cap found expired⟩
          · simp only [expired, if_false]
            have same := LruCache.key_of_lookup found
            have held := LruCache.contents_of_lookup found
            refine ⟨cache.place entry, .done (some (entry.serve cap now)), .execute ?_,
              LruCache.keys_place_of_lookup (same ▸ found), .nothing⟩
            rw [LruCache.contents_place (LruCache.room_of_lookup (same ▸ found)), same, ← held,
              Function.update_eq_self]
            simp only [onMap, held]
            exact if_neg expired
  | put name qtype ans rcode now allocates =>
      simp only [filterWork, toOp, LruCache.step, LruCache.put]
      cases found : cache.lookup (cacheKey name.chars qtype) with
      | some old =>
          have same := LruCache.key_of_lookup found
          have replaced : cache.lookup (LruCache.refresh old ans rcode now).key = some old := by
            rw [LruCache.refresh_key, same, found]
          refine ⟨_, .done none, .execute ?_, LruCache.keys_place_of_lookup replaced, .nothing⟩
          rw [LruCache.contents_place (LruCache.room_of_lookup replaced), LruCache.refresh_key,
            same]
          simp only [onMap, LruCache.contents_of_lookup found, Option.isSome_some, Bool.or_true,
            if_true]
          rfl
      | none =>
          cases allocates with
          | true =>
              have absent : (cache.makeRoom now).lookup (cacheKey name.chars qtype) = none :=
                Recency.lookup_eq_none_iff.mpr fun member =>
                  Recency.lookup_eq_none_iff.mp found
                    (((LruCache.makeRoom_sublist now cache).map _).subset member)
              exact ⟨cache, _, .stay, .refl _,
                .evicting (.insertion fits absent (LruCache.makeRoom_room now cache))⟩
          | false =>
              refine ⟨cache, .done none, .execute ?_, .refl _, .evicting .nothing⟩
              simp only [onMap, LruCache.contents, found, Option.map_none, Option.isSome_none,
                Bool.or_self]
              rfl

/-! ## The simulation -/

/-- Where a thread that does not own the mutex is, as a client of the map. -/
inductive Placed : CacheThread → Client CacheCall (Option CacheHit) → Prop where
  | idle : Placed .idle .idle
  | testing {name : CString} {qtype : UInt16} {cap : Nat} {now : Int} {slot : Fin bloomSlotCount}
      {left : List (Fin bloomSlotCount)}
      (uses : slot :: left ⊆ keySlots (cacheKey name.chars qtype)) :
      Placed (.testing (.get name qtype cap now) slot left) (.pending (.get name qtype cap now))
  | rejected : Placed .rejected (.done none)
  | waiting {call : CacheCall} (fits : call.toOp.Fits) : Placed (.waiting call) (.pending call)
  | returning {result : Option CacheHit} : Placed (.returning result) (.done result)

/-- A lookup goes on testing, or to the mutex. -/
theorem Placed.resume {name : CString} {qtype : UInt16} (cap : Nat) (now : Int)
    {left : List (Fin bloomSlotCount)}
    (uses : left ⊆ keySlots (cacheKey name.chars qtype)) :
    Placed (.resume (.get name qtype cap now) left) (.pending (.get name qtype cap now)) := by
  cases left with
  | nil => exact .waiting trivial
  | cons slot left => exact .testing uses

/-- A call starts. -/
theorem Placed.enter {call : CacheCall} (fits : call.toOp.Fits) :
    Placed (.resume call call.slots) (.pending call) := by
  cases call with
  | get name qtype cap now =>
      refine .resume cap now fun slot member => ?_
      rw [keySlots_cacheKey]
      exact member
  | put name qtype ans rcode now allocates => exact .waiting fits

variable {ι : Type} [DecidableEq ι]

/-- The cache in memory stands for `cache`; the filter and the threads without the mutex can see
`shown`, which differs from it by what the owner of the mutex owes. -/
structure Tracks (s : SharedCache ι) (shared : Shared CacheMap ι CacheCall (Option CacheHit))
    (shown cache : LruCache) (settled : List CacheKey) : Prop where
  refines : Refines recordingLaw s.cache cache
  filter : Consistent keySlots s.filter settled
  settled : settled.Perm shown.keys
  contents : shared.object = shown.contents
  unowned : s.owner = none → s.filter.calls = [] ∧ s.filter.current = none ∧ shown = cache
  owned : ∀ thread, s.owner = some thread → ∃ result, s.threads thread = .inside result ∧
    Owes s.filter.owed shown cache (shared.clients thread) result
  placed : ∀ thread, s.owner ≠ some thread → Placed (s.threads thread) (shared.clients thread)

namespace Tracks

variable {s : SharedCache ι} {shared : Shared CacheMap ι CacheCall (Option CacheHit)}
  {shown cache : LruCache} {settled : List CacheKey} {thread : ι} {result : Option CacheHit}

omit [DecidableEq ι] in
/-- Before any call. -/
theorem start : Tracks (SharedCache.start : SharedCache ι) (.start fun _ => none) LruCache.empty
    LruCache.empty [] where
  refines := ⟨⟨[], Layout.nil (fun _ => rfl) rfl rfl, rfl, rfl⟩, ⟨[], rfl, .refl _⟩⟩
  filter := start_consistent rfl
  settled := .refl _
  contents := rfl
  unowned := fun _ => ⟨rfl, rfl, rfl⟩
  owned := fun _ owner => by cases owner
  placed := fun _ _ => .idle

omit [DecidableEq ι] in
/-- While a thread owns the mutex, what it owes is what matters. -/
theorem of_owner (refines : Refines recordingLaw s.cache cache)
    (filter : Consistent keySlots s.filter settled) (keys : settled.Perm shown.keys)
    (contents : shared.object = shown.contents) (owner : s.owner = some thread)
    (inside : s.threads thread = .inside result)
    (owes : Owes s.filter.owed shown cache (shared.clients thread) result)
    (others : ∀ other, other ≠ thread → Placed (s.threads other) (shared.clients other)) :
    Tracks s shared shown cache settled where
  refines := refines
  filter := filter
  settled := keys
  contents := contents
  unowned := fun free => by
    rw [owner] at free
    cases free
  owned := fun other owns => by
    obtain rfl : thread = other := Option.some.inj (owner.symm.trans owns)
    exact ⟨result, inside, owes⟩
  placed := fun other unowned => others other fun same => unowned (same ▸ owner)

omit [DecidableEq ι] in
/-- Where a thread is that is not between lock and unlock. -/
theorem outside (tracks : Tracks s shared shown cache settled) {place : CacheThread}
    (here : s.threads thread = place) (outside : ∀ result, place ≠ .inside result) :
    s.owner ≠ some thread ∧ ∃ client, shared.clients thread = client ∧ Placed place client := by
  have free : s.owner ≠ some thread := by
    intro owner
    obtain ⟨result, inside, _⟩ := tracks.owned thread owner
    exact outside result (here.symm.trans inside)
  exact ⟨free, _, rfl, here ▸ tracks.placed thread free⟩

/-- A thread without the mutex moves together with its client. -/
theorem move (tracks : Tracks s shared shown cache settled) (free : s.owner ≠ some thread)
    {place : CacheThread} {client : Client CacheCall (Option CacheHit)}
    (placed : Placed place client) :
    Tracks (s.moveTo thread place) (shared.move thread client) shown cache settled where
  refines := tracks.refines
  filter := tracks.filter
  settled := tracks.settled
  contents := tracks.contents
  unowned := tracks.unowned
  owned := fun other owner => by
    have differ : other ≠ thread := by
      rintro rfl
      exact free owner
    obtain ⟨result, inside, owes⟩ := tracks.owned other owner
    rw [SharedCache.moveTo_of_ne differ, Shared.move_of_ne differ]
    exact ⟨result, inside, owes⟩
  placed := fun other unowned => by
    by_cases same : other = thread
    · subst same
      rw [SharedCache.moveTo_self, Shared.move_self]
      exact placed
    · rw [SharedCache.moveTo_of_ne same, Shared.move_of_ne same]
      exact tracks.placed other unowned

omit [DecidableEq ι] in
/-- Counters are not tracked. -/
theorem of_stats (tracks : Tracks s shared shown cache settled) (stats : CacheStats) :
    Tracks { s with cache := { s.cache with stats := stats } } shared shown cache settled :=
  { tracks with refines := tracks.refines.of_stats stats }

omit [DecidableEq ι] in
/-- A lookup that sees a zero is for a key that the map does not have. -/
theorem absent_of_zero (tracks : Tracks s shared shown cache settled) {key : CacheKey}
    {slot : Fin bloomSlotCount} (uses : slot ∈ keySlots key) (zero : s.filter.slots slot = 0) :
    shared.object key = none := by
  rw [tracks.contents, LruCache.contents_eq_none]
  exact fun member => tracks.filter.ne_zero (tracks.settled.mem_iff.mpr member) uses zero

/-- A thread takes the mutex and does its part under it. -/
theorem lock (tracks : Tracks s shared shown cache settled) {call : CacheCall}
    (fits : call.toOp.Fits) (free : s.owner = none) (client : shared.clients thread = .pending call)
    {after : CacheState (List (Call CacheKey))}
    (done : call.locked recordingBloom s.cache = some (result, after)) :
    ∃ moved final, boundedMap.Run shared [] moved ∧
      Tracks ({ s with
        cache := after
        filter := { s.filter with calls := after.bloom.drop s.cache.bloom.length }
        owner := some thread }.moveTo thread (.inside result)) moved final
        (cache.step call.toOp).2 settled := by
  obtain ⟨_, idle, rfl⟩ := tracks.unowned free
  obtain ⟨next, locked, refines, log⟩ := CacheCall.locked_refines fits tracks.refines
  obtain ⟨rfl, rfl⟩ := Prod.mk.inj (Option.some.inj (done.symm.trans locked))
  obtain ⟨final, moved, advance, keys, owes⟩ := CacheCall.owes_of_locked fits shown
  have settledKeys := tracks.settled.trans keys.symm
  rw [log, List.drop_left]
  refine ⟨_, final, advance.run tracks.contents client, of_owner refines
    (tracks.filter.assign idle (owes.replays settledKeys)) settledKeys rfl rfl
    SharedCache.moveTo_self ?_ ?_⟩
  · rw [Shared.move_self, SharedCache.moveTo_filter, Race.owed, idle]
    exact owes
  · intro other differ
    rw [SharedCache.moveTo_of_ne differ, Shared.move_of_ne differ]
    exact tracks.placed other (by rw [free]; simp)

/-- The owner of the mutex makes one access to the filter. -/
theorem write (tracks : Tracks s shared shown cache settled) (owner : s.owner = some thread)
    {filter : Race Empty CacheKey (Fin bloomSlotCount)} {mark : Option (Mark CacheKey)}
    (wrote : writeStep keySlots s.filter = some (filter, mark)) :
    ∃ moved final left, boundedMap.Run shared [] moved ∧
      Tracks { s with filter := filter } moved final cache left := by
  obtain ⟨result, inside, owes⟩ := tracks.owned thread owner
  have consistent := (writeStep_consistent tracks.filter wrote).1
  rw [writeStep_owed wrote] at owes
  -- whatever the mark, a view of the cache with the settled keys becomes visible
  obtain ⟨final, client, advance, keys, rest⟩ : ∃ final client,
      Advance (shown, shared.clients thread) (final, client) ∧
        (settle settled (.write mark : Event Empty CacheKey)).Perm final.keys ∧
        Owes filter.owed final cache client result := by
    match mark with
    | none => exact ⟨shown, _, .stay, tracks.settled, owes⟩
    | some (.inserted key) =>
        obtain ⟨final, client, advance, keys, rest⟩ := owes.inserted
        exact ⟨final, client, advance, keys ▸ tracks.settled.cons key, rest⟩
    | some (.removing key) =>
        obtain ⟨final, client, advance, keys, rest⟩ := owes.removing
        exact ⟨final, client, advance,
          (replay_del [] (tracks.settled.trans keys)).2, rest⟩
  refine ⟨_, final, _, advance.run tracks.contents rfl, of_owner tracks.refines consistent keys
    rfl owner inside ?_ ?_⟩
  · rw [Shared.move_self]
    exact rest
  · intro other differ
    rw [Shared.move_of_ne differ]
    refine tracks.placed other fun owns => differ ?_
    exact Option.some.inj (owns.symm.trans owner)

/-- The owner of the mutex, owing nothing, gives it back. -/
theorem unlock (tracks : Tracks s shared shown cache settled) (owner : s.owner = some thread)
    (here : s.threads thread = .inside result) (noCalls : s.filter.calls = [])
    (idle : s.filter.current = none) :
    Tracks ({ s with owner := none }.moveTo thread (.returning result)) shared shown cache
      settled := by
  obtain ⟨_, inside, owes⟩ := tracks.owned thread owner
  obtain rfl := CacheThread.inside.inj (here.symm.trans inside)
  rw [Race.owed, idle, noCalls] at owes
  obtain ⟨same, client⟩ := owes.finished
  exact
    { refines := tracks.refines
      filter := tracks.filter
      settled := tracks.settled
      contents := tracks.contents
      unowned := fun _ => ⟨noCalls, idle, same⟩
      owned := fun other owns => by cases owns
      placed := fun other _ => by
        by_cases equal : other = thread
        · subst equal
          rw [SharedCache.moveTo_self, client]
          exact .returning
        · rw [SharedCache.moveTo_of_ne equal]
          refine tracks.placed other fun owns => equal ?_
          exact Option.some.inj (owns.symm.trans owner) }

end Tracks

/-- Every event of the shared cache can be followed by the map. -/
theorem Tracks.step {event : CacheEvent ι} {s next : SharedCache ι}
    {shared : Shared CacheMap ι CacheCall (Option CacheHit)} {shown cache : LruCache}
    {settled : List CacheKey} (fits : event.Fits) (tracks : Tracks s shared shown cache settled)
    (stepped : s.step event = some next) :
    ∃ after, boundedMap.Run shared event.visible.toList after ∧
      ∃ shown cache settled, Tracks next after shown cache settled := by
  cases SharedCache.moves_of_step stepped with
  | @call _ thread call here =>
      obtain ⟨free, client, same, placed⟩ := tracks.outside here (by simp)
      cases placed
      exact ⟨_, (Object.Step.call call same).run, _, _, _, tracks.move free (.enter fits)⟩
  | reject here zero =>
      obtain ⟨free, client, same, placed⟩ := tracks.outside here (by simp)
      cases placed with
      | @testing name qtype cap now _ _ uses =>
          have absent := tracks.absent_of_zero (uses List.mem_cons_self) zero
          -- the map has nothing for the key, so the lookup can miss here
          have missed : boundedMap.apply (.get name qtype cap now) shared.object none
              shared.object := by
            refine ⟨by simp only [CacheCall.onMap, absent], ?_⟩
            rw [tracks.contents]
            exact shown.size_contents_le
          exact ⟨_, (Object.Step.execute same missed).run, _, _, _, tracks.move free .rejected⟩
  | pass here raised =>
      obtain ⟨free, client, same, placed⟩ := tracks.outside here (by simp)
      cases placed with
      | @testing name qtype cap now _ _ uses =>
          have stays := tracks.move free (Placed.resume cap now
            fun other member => uses (List.mem_cons_of_mem _ member))
          rw [Shared.move_same same] at stays
          exact ⟨shared, .refl _, _, _, _, stays⟩
  | @miss _ thread here =>
      obtain ⟨free, client, same, placed⟩ := tracks.outside here (by simp)
      cases placed
      have counted : Tracks ({ s with cache := s.cache.miss }.moveTo thread (.returning none))
          (shared.move thread (.done none)) shown cache settled :=
        (tracks.of_stats s.cache.miss.stats).move free .returning
      rw [Shared.move_same same] at counted
      exact ⟨shared, .refl _, _, _, _, counted⟩
  | lock here free locked =>
      obtain ⟨_, client, same, placed⟩ := tracks.outside here (by simp)
      cases placed with
      | waiting fits =>
          obtain ⟨moved, final, run, tracked⟩ := tracks.lock fits free same locked
          exact ⟨moved, run, _, _, _, tracked⟩
  | write owner wrote =>
      obtain ⟨moved, final, left, run, tracked⟩ := tracks.write owner wrote
      exact ⟨moved, run, _, _, _, tracked⟩
  | unlock here noCalls idle owner =>
      exact ⟨shared, .refl _, _, _, _, tracks.unlock owner here noCalls idle⟩
  | ret here =>
      obtain ⟨free, client, same, placed⟩ := tracks.outside here (by simp)
      cases placed
      exact ⟨_, (Object.Step.ret same).run, _, _, _, tracks.move free .idle⟩

/-- The map simulates the shared cache. -/
def cacheSimulation : Simulation boundedMap (SharedCache.step (ι := ι)) CacheEvent.Fits
    CacheEvent.visible where
  related := fun s shared => ∃ shown cache settled, Tracks s shared shown cache settled
  follows := fun fits related stepped => by
    obtain ⟨shown, cache, settled, tracks⟩ := related
    exact tracks.step fits stepped

/-- Whatever threads do with the cache at the same time, the calls and returns are those of a
bounded map on which every call takes effect in one step between its start and its end. -/
theorem sharedCache_linearizable {events : List (CacheEvent ι)} {final : SharedCache ι}
    (fits : ∀ event ∈ events, event.Fits)
    (done : Schedule.run SharedCache.step events .start = some final) :
    boundedMap.Explains (fun _ => none) (events.filterMap CacheEvent.visible) :=
  cacheSimulation.explains fits ⟨_, _, _, .start⟩ done

/-- One thread looks a name up while another puts it, and again after that. The first lookup tests
the filter before the put has raised its counters. -/
def overlappingCalls : List (CacheEvent (Fin 2)) :=
  [.call 0 (.put ⟨[97], by decide⟩ dnsTypeA [] dnsRcodeNxdomain 100 true),
    .call 1 (.get ⟨[65], by decide⟩ dnsTypeA 8 101), .lock 0, .load 1, .write 0, .write 0, .write 0,
    .write 0, .write 0, .write 0, .write 0, .write 0, .unlock 0, .miss 1, .ret 1 none,
    .call 1 (.get ⟨[65], by decide⟩ dnsTypeA 8 101), .load 1, .load 1, .load 1, .load 1, .lock 1,
    .ret 0 none, .unlock 1, .ret 1 (some ⟨[], dnsRcodeNxdomain⟩)]

/-- The overlapping calls happen, and the map explains them. -/
theorem sharedCache_linearizable_example :
    ∃ final, Schedule.run SharedCache.step overlappingCalls .start = some final ∧
      boundedMap.Explains (fun _ => none) (overlappingCalls.filterMap CacheEvent.visible) := by
  have ran : (Schedule.run SharedCache.step overlappingCalls .start).isSome := by decide +kernel
  have done := (Option.some_get ran).symm
  exact ⟨_, done, sharedCache_linearizable (by decide) done⟩

end FizzDns
