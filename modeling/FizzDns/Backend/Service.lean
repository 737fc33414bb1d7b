import FizzDns.Backend.Agreement
import FizzDns.Cache.Freshness
import FizzDns.Resolver.Provenance

/-!
# The backend under many threads

The workers of a transport call `dns_resolve_query` at the same time, over one cache. In `Service`
every access of such a call to the cache is an event, as in `SharedCache`; what lies between two of
them (parsing, the exchange with other servers, building the response) concerns one thread only.
The state of the servers out there is part of the event that asks them, so they may say anything.

A resolution that is made is written down, and so is what a call returns; both lists are for
reasoning only. `service_replies_provided` says of every reply, in every interleaving, where its
records come from and that none of them has outlived its TTL.
-/

namespace FizzDns

open Linearizability

/-- The lookup of `dns_resolve`. -/
def ResolveCall.lookup (call : ResolveCall) : CacheCall :=
  .get call.name.toCString call.qtype call.cap call.readAt

/-- What `dns_resolve` puts into the cache for a resolution. -/
def ResolveCall.store (call : ResolveCall) (resolution : Resolution) : Option CacheCall :=
  if resolution.rcode = dnsRcodeNoerror ∧ resolution.ans.length > 0 then
    some (.put call.name.toCString call.qtype resolution.ans resolution.rcode call.storedAt
      call.allocates)
  else if resolution.rcode = dnsRcodeNxdomain then
    some (.put call.name.toCString call.qtype [] resolution.rcode call.storedAt call.allocates)
  else none

/-- A call alone stores the same. -/
theorem storeResolution_eq {β : Type} (bloom : BloomOps β) (call : ResolveCall)
    (resolution : Resolution) (cache : CacheState β) :
    storeResolution bloom call resolution cache =
      match call.store resolution with
      | none => some cache
      | some put => (put.locked bloom cache).map Prod.snd := by
  simp only [storeResolution, ResolveCall.store, CacheCall.locked]
  split_ifs <;> simp [Option.map_bind]

/-- When what is stored of a resolution expires. -/
def ResolveCall.expiry (call : ResolveCall) (resolution : Resolution) : Int :=
  call.storedAt + (entryTtl (resolution.ans.take dnsMaxAnswers)).toNat

/-! ## The model -/

/-- Where a thread is in `dns_resolve_query`: outside, in `dns_cache_get`, in `resolve_from`, in
`dns_cache_put`, or before `dns_build_response`. -/
inductive ServiceThread where
  | idle
  | looking (call : QueryCall) (q : DnsQueryInfo)
  | resolving (call : QueryCall) (q : DnsQueryInfo)
  | storing (call : QueryCall) (q : DnsQueryInfo) (resolution : Resolution)
  | building (call : QueryCall) (q : DnsQueryInfo) (resolved : Resolved)

/-- The cache, the threads, the resolutions that were made and what calls have returned. -/
structure Service (ι : Type) where
  cache : SharedCache ι
  threads : ι → ServiceThread
  made : List (ResolveCall × Resolution)
  returned : List (QueryCall × Option BuiltResponse)

/-- What a thread does next. Inside `dns_cache_get` and `dns_cache_put` it accesses the cache;
`found` and `stored` are the returns from there. -/
inductive ServiceEvent (ι σ : Type) where
  | query (thread : ι) (call : QueryCall)
  | access (event : CacheEvent ι)
  | found (thread : ι) (result : Option CacheHit)
  | resolve (thread : ι) (up : σ)
  | stored (thread : ι)
  | build (thread : ι)

/-- Calls come with a response buffer that has room for a message. -/
def ServiceEvent.Roomy {ι σ : Type} : ServiceEvent ι σ → Prop
  | .query _ call => 512 ≤ call.respCap ∧ call.respCap < 2 ^ 64
  | _ => True

instance {ι σ : Type} (event : ServiceEvent ι σ) : Decidable event.Roomy := by
  cases event <;> unfold ServiceEvent.Roomy <;> infer_instance

namespace Service

variable {ι σ : Type} [DecidableEq ι]

/-- An initialised cache, before any call. -/
def start : Service ι where
  cache := .start
  threads := fun _ => .idle
  made := []
  returned := []

/-- A thread moves. -/
def moveTo (thread : ι) (place : ServiceThread) (s : Service ι) : Service ι :=
  { s with threads := Function.update s.threads thread place }

section Move

variable {s : Service ι} {thread other : ι} {place : ServiceThread}

@[simp] theorem moveTo_cache : (s.moveTo thread place).cache = s.cache := rfl

@[simp] theorem moveTo_made : (s.moveTo thread place).made = s.made := rfl

@[simp] theorem moveTo_returned : (s.moveTo thread place).returned = s.returned := rfl

@[simp] theorem moveTo_self : (s.moveTo thread place).threads thread = place :=
  Function.update_self ..

theorem moveTo_of_ne (differ : other ≠ thread) :
    (s.moveTo thread place).threads other = s.threads other :=
  Function.update_of_ne differ _ _

end Move

variable (ask : Ask σ) (roots : List Bytes)

/-- One event. -/
def step (event : ServiceEvent ι σ) (s : Service ι) : Option (Service ι) :=
  match event with
  | .query thread call =>
      match s.threads thread with
      | .idle =>
          match dnsParseQuery call.query call.query.length with
          | none => some { s with returned := s.returned ++ [(call, none)] }
          | some q =>
              if q.q.qclass ≠ dnsClassIn ∨ (q.q.qtype ≠ dnsTypeA ∧ q.q.qtype ≠ dnsTypeAaaa) then
                some (s.moveTo thread (.building call q ⟨true, [], dnsRcodeNotimp, none⟩))
              else do
                let cache ← s.cache.step (.call thread (call.resolveCall q).lookup)
                some ({ s with cache := cache }.moveTo thread (.looking call q))
      | _ => none
  | .access event =>
      match event.visible with
      | none => do
          let cache ← s.cache.step event
          some { s with cache := cache }
      | some _ => none
  | .found thread result =>
      match s.threads thread with
      | .looking call q => do
          let cache ← s.cache.step (.ret thread result)
          match result with
          | some hit =>
              some ({ s with cache := cache }.moveTo thread
                (.building call q ⟨true, hit.ans, hit.rcode, none⟩))
          | none => some ({ s with cache := cache }.moveTo thread (.resolving call q))
      | _ => none
  | .resolve thread up =>
      match s.threads thread with
      | .resolving call q =>
          match (resolveFrom ask roots q.q.name q.q.qtype roots dnsMaxAnswers 0 0 up).1 with
          | none =>
              some (s.moveTo thread (.building call q ⟨false, [], dnsRcodeServfail, none⟩))
          | some resolution =>
              let made := s.made ++ [(call.resolveCall q, resolution)]
              match (call.resolveCall q).store resolution with
              | some put => do
                  let cache ← s.cache.step (.call thread put)
                  some ({ s with cache := cache, made := made }.moveTo thread
                    (.storing call q resolution))
              | none =>
                  some ({ s with made := made }.moveTo thread
                    (.building call q
                      ⟨true, resolution.ans, resolution.rcode, some resolution⟩))
      | _ => none
  | .stored thread =>
      match s.threads thread with
      | .storing call q resolution => do
          let cache ← s.cache.step (.ret thread none)
          some ({ s with cache := cache }.moveTo thread
            (.building call q ⟨true, resolution.ans, resolution.rcode, some resolution⟩))
      | _ => none
  | .build thread =>
      match s.threads thread with
      | .building call q resolved =>
          let built := dnsBuildResponse call.query call.query.length q resolved.ans resolved.rcode
            call.isUdp call.respCap
          some ({ s with returned := s.returned ++ [(call, built)] }.moveTo thread .idle)
      | _ => none

end Service

/-! ## What is served -/

section Served

variable {σ : Type} {ask : Ask σ} {made more : List (ResolveCall × Resolution)}
  {call : ResolveCall} {resolution : Resolution} {resolved : Resolved}

/-- What is stored for a resolution: under the key of the call, its answers, or none of them if it
is a denial. -/
theorem ResolveCall.store_stores {put : CacheCall} {key : CacheKey} {stored : Stored}
    (puts : call.store resolution = some put) (stores : put.Stores key stored) :
    call.key = key ∧
      (resolution.rcode = dnsRcodeNoerror ∧
          stored = .of resolution.ans resolution.rcode call.storedAt ∨
        resolution.rcode = dnsRcodeNxdomain ∧ stored = .of [] resolution.rcode call.storedAt) := by
  unfold store at puts
  split at puts
  · next positive =>
      cases puts
      exact ⟨stores.1, .inl ⟨positive.1, stores.2.symm⟩⟩
  · split at puts
    · next denied =>
        cases puts
        exact ⟨stores.1, .inr ⟨denied, stores.2.symm⟩⟩
    · cases puts

/-- The name of a call fits into a node. -/
theorem ResolveCall.store_fits {put : CacheCall} (puts : call.store resolution = some put) :
    put.toOp.Fits := by
  unfold store at puts
  split at puts
  · cases puts
    exact call.name.fits
  · split at puts
    · cases puts
      exact call.name.fits
    · cases puts

/-- What is stored for a key was stored for one of the resolutions. -/
def StoredFor (made : List (ResolveCall × Resolution)) (key : CacheKey) (stored : Stored) : Prop :=
  ∃ source ∈ made, ∃ put, source.1.store source.2 = some put ∧ put.Stores key stored

/-- Where a call has from what it builds a response of. -/
inductive Obtained (made : List (ResolveCall × Resolution)) (call : ResolveCall) :
    Resolved → Prop where
  | refused (ok : Bool) {rcode : Nat} (why : rcode = dnsRcodeNotimp ∨ rcode = dnsRcodeServfail) :
      Obtained made call ⟨ok, [], rcode, none⟩
  | upstream {resolution : Resolution} (member : (call, resolution) ∈ made) :
      Obtained made call ⟨true, resolution.ans, resolution.rcode, some resolution⟩
  | cached {stored : Stored} (source : StoredFor made call.key stored)
      (live : call.readAt < stored.expires) :
      Obtained made call
        ⟨true, (stored.serve call.cap call.readAt).ans, stored.rcode, none⟩

/-- More resolutions store no less. -/
theorem StoredFor.mono {key : CacheKey} {stored : Stored} (source : StoredFor made key stored)
    (subset : made ⊆ more) : StoredFor more key stored := by
  obtain ⟨source, member, rest⟩ := source
  exact ⟨source, subset member, rest⟩

theorem Obtained.mono (obtained : Obtained made call resolved) (subset : made ⊆ more) :
    Obtained more call resolved := by
  cases obtained with
  | refused ok why => exact .refused ok why
  | upstream member => exact .upstream (subset member)
  | cached source live => exact .cached (source.mono subset) live

/-- A record that a call may hand out: from a resolution of its own, or from one that was made for
the same key and has not expired, with the time that is left as its TTL. It was justified when the
resolution was made. -/
inductive Provided (ask : Ask σ) (made : List (ResolveCall × Resolution)) (call : ResolveCall)
    (record : DnsAnswer) : Prop where
  | own {resolution : Resolution} (member : (call, resolution) ∈ made)
      (inside : record ∈ resolution.ans)
      (justified : Justified ask call.qtype call.name resolution.trail record)
  | cached {source : ResolveCall} {resolution : Resolution} {original : DnsAnswer}
      (member : (source, resolution) ∈ made) (key : source.key = call.key)
      (inside : original ∈ resolution.ans)
      (justified : Justified ask source.qtype source.name resolution.trail original)
      (live : call.readAt < source.expiry resolution)
      (aged : record =
        { original with ttl := UInt32.ofInt (source.expiry resolution - call.readAt) })

/-- A denial for a key: the call's own, or one that has not expired. -/
def Denied (made : List (ResolveCall × Resolution)) (call : ResolveCall) : Prop :=
  ∃ source ∈ made, source.1.key = call.key ∧ source.2.rcode = dnsRcodeNxdomain ∧
    (source.1 = call ∨ call.readAt < source.1.storedAt + cacheNegTtl.toNat)

/-- All resolutions were made by the loop of `resolve_from`. -/
def AllFollow (ask : Ask σ) (made : List (ResolveCall × Resolution)) : Prop :=
  ∀ source ∈ made, Follows ask source.1.qtype maxCnameHops source.1.cap source.1.name source.2

namespace Obtained

/-- Every record of an answer was provided by a resolution. -/
theorem provided (obtained : Obtained made call resolved) (follow : AllFollow ask made) :
    ∀ record ∈ resolved.ans, Provided ask made call record := by
  intro record member
  cases obtained with
  | refused ok why => cases member
  | @upstream resolution made => exact .own made member ((follow _ made).justified record member)
  | @cached stored source live =>
      obtain ⟨⟨source, resolution⟩, made, put, puts, stores⟩ := source
      obtain ⟨key, ⟨_, rfl⟩ | ⟨_, rfl⟩⟩ := ResolveCall.store_stores puts stores
      · obtain ⟨original, listed, rfl⟩ := List.mem_map.mp member
        have inside : original ∈ resolution.ans :=
          List.mem_of_mem_take (List.mem_of_mem_take listed)
        exact .cached made key inside ((follow _ made).justified original inside) live rfl
      · simp [Stored.serve, Stored.of] at member

/-- An answer NXDOMAIN was a denial. -/
theorem denied (obtained : Obtained made call resolved)
    (negative : resolved.rcode = dnsRcodeNxdomain) : Denied made call := by
  cases obtained with
  | refused ok why =>
      obtain rfl | rfl := why
      · cases negative
      · cases negative
  | upstream member => exact ⟨_, member, rfl, negative, .inl rfl⟩
  | @cached stored source live =>
      obtain ⟨⟨source, resolution⟩, member, put, puts, stores⟩ := source
      obtain ⟨key, ⟨positive, rfl⟩ | ⟨denied, rfl⟩⟩ := ResolveCall.store_stores puts stores
      · cases positive.symm.trans negative
      · exact ⟨_, member, key, denied, .inr live⟩

/-- The answers fit the array of the caller. -/
theorem length_le (obtained : Obtained made call resolved) (follow : AllFollow ask made) :
    resolved.ans.length ≤ call.cap := by
  cases obtained with
  | refused ok why => exact Nat.zero_le _
  | upstream member => exact (follow _ member).length_le
  | cached source live =>
      rw [Stored.serve, List.length_map, List.length_take]
      exact Nat.min_le_left _ _

end Obtained

end Served

/-! ## Every interleaving -/

section Sound

variable {ι σ : Type} {ask : Ask σ} {roots : List Bytes}
  {made more : List (ResolveCall × Resolution)}

/-- The query of a call is accepted, and there is room for a response. -/
def QueryCall.Accepted (call : QueryCall) (q : DnsQueryInfo) : Prop :=
  dnsParseQuery call.query call.query.length = some q ∧ 512 ≤ call.respCap ∧ call.respCap < 2 ^ 64

/-- What is known of a thread from where it is. -/
def ServiceThread.Sound (made : List (ResolveCall × Resolution)) : ServiceThread → Prop
  | .idle => True
  | .looking call q => call.Accepted q
  | .resolving call q => call.Accepted q
  | .storing call q resolution => call.Accepted q ∧ (call.resolveCall q, resolution) ∈ made
  | .building call q resolved => call.Accepted q ∧ Obtained made (call.resolveCall q) resolved

/-- What a call may return: nothing for a query that is not accepted; for any other a reply to it,
with records that it may hand out, and a denial only if there is one. -/
def RightAnswer (ask : Ask σ) (made : List (ResolveCall × Resolution)) (call : QueryCall) :
    Option BuiltResponse → Prop
  | none => dnsParseQuery call.query call.query.length = none
  | some built => ∃ q header records, dnsParseQuery call.query call.query.length = some q ∧
      ReplyTo call q built.bytes header records ∧
      (∀ record ∈ records, Provided ask made (call.resolveCall q) record) ∧
      ((header.flags &&& dnsRcodeMask).toNat = dnsRcodeNxdomain →
        Denied made (call.resolveCall q))

/-- What the history of the cache has to do with the threads and the resolutions: every put was made
for a resolution, and a thread in `dns_cache_get` is in the lookup that it called last. -/
structure Logged (history : List (Action ι CacheCall (Option CacheHit))) (s : Service ι) :
    Prop where
  puts : ∀ thread put, .call thread put ∈ history → ∀ key stored, put.Stores key stored →
    StoredFor s.made key stored
  looking : ∀ thread call q, s.threads thread = .looking call q →
    ∃ position, history[position]? = some (.call thread (call.resolveCall q).lookup) ∧
      Quiet history thread position

/-- Events of threads that lead to a state of the cache. -/
structure CacheTrace [DecidableEq ι] (events : List (CacheEvent ι)) (cache : SharedCache ι) :
    Prop where
  fits : ∀ event ∈ events, event.Fits
  run : Schedule.run SharedCache.step events .start = some cache

/-- The invariant. -/
structure Service.Sound [DecidableEq ι] (ask : Ask σ) (s : Service ι) : Prop where
  trace : ∃ events, CacheTrace events s.cache ∧ Logged (events.filterMap CacheEvent.visible) s
  follow : AllFollow ask s.made
  threads : ∀ thread, (s.threads thread).Sound s.made
  returned : ∀ result ∈ s.returned, RightAnswer ask s.made result.1 result.2

/-- One more event of the cache. -/
theorem CacheTrace.snoc [DecidableEq ι] {events : List (CacheEvent ι)} {event : CacheEvent ι}
    {cache next : SharedCache ι} (trace : CacheTrace events cache) (fits : event.Fits)
    (stepped : cache.step event = some next) : CacheTrace (events ++ [event]) next where
  fits := fun other member => by
    rcases List.mem_append.mp member with before | last
    · exact trace.fits other before
    · obtain rfl := List.mem_singleton.mp last
      exact fits
  run := Schedule.run_append_eq_some.mpr
    ⟨cache, trace.run, Schedule.run_cons_eq_some.mpr ⟨next, stepped, rfl⟩⟩

theorem ServiceThread.Sound.mono {place : ServiceThread} (sound : place.Sound made)
    (subset : made ⊆ more) : place.Sound more := by
  cases place with
  | idle => trivial
  | looking call q => exact sound
  | resolving call q => exact sound
  | storing call q resolution => exact ⟨sound.1, subset sound.2⟩
  | building call q resolved => exact ⟨sound.1, sound.2.mono subset⟩

theorem Provided.mono {call : ResolveCall} {record : DnsAnswer}
    (provided : Provided ask made call record) (subset : made ⊆ more) :
    Provided ask more call record := by
  cases provided with
  | own member inside justified => exact .own (subset member) inside justified
  | cached member key inside justified live aged =>
      exact .cached (subset member) key inside justified live aged

theorem RightAnswer.mono {call : QueryCall} {reply : Option BuiltResponse}
    (right : RightAnswer ask made call reply) (subset : made ⊆ more) :
    RightAnswer ask more call reply := by
  cases reply with
  | none => exact right
  | some built =>
      obtain ⟨q, header, records, parsed, replies, provided, denies⟩ := right
      refine ⟨q, header, records, parsed, replies,
        fun record member => (provided record member).mono subset, fun negative => ?_⟩
      obtain ⟨source, member, rest⟩ := denies negative
      exact ⟨source, subset member, rest⟩

/-- A resolution ends without error or with a denial. -/
theorem Obtained.rcode_lt {call : ResolveCall} {resolved : Resolved}
    (obtained : Obtained made call resolved) (follow : AllFollow ask made) :
    resolved.rcode < 16 := by
  have small : ∀ {rcode : Nat}, rcode = dnsRcodeNoerror ∨ rcode = dnsRcodeNxdomain →
      rcode < 16 := by
    rintro _ (rfl | rfl)
    · decide
    · decide
  cases obtained with
  | refused ok why =>
      obtain rfl | rfl := why
      · exact (by decide : dnsRcodeNotimp < 16)
      · exact (by decide : dnsRcodeServfail < 16)
  | upstream member => exact small (follow _ member).rcode_eq
  | cached source live =>
      obtain ⟨source, member, put, puts, stores⟩ := source
      obtain ⟨_, ⟨positive, rfl⟩ | ⟨denied, rfl⟩⟩ := ResolveCall.store_stores puts stores
      · exact small (.inl positive)
      · exact small (.inr denied)

/-- What is built from what a call has obtained is a right answer. -/
theorem RightAnswer.of_obtained {call : QueryCall} {q : DnsQueryInfo} {resolved : Resolved}
    (accepted : call.Accepted q) (obtained : Obtained made (call.resolveCall q) resolved)
    (follow : AllFollow ask made) :
    RightAnswer ask made call (dnsBuildResponse call.query call.query.length q resolved.ans
      resolved.rcode call.isUdp call.respCap) := by
  obtain ⟨parsed, room, size⟩ := accepted
  obtain ⟨built, builds, replies⟩ :=
    dnsBuildResponse_replyTo parsed (obtained.length_le follow) resolved.rcode room size
  rw [builds]
  refine ⟨q, _, _, parsed, replies, fun record member => ?_, fun negative => ?_⟩
  · exact obtained.provided follow record ((replyAnswers_sublist ..).subset member)
  · obtain ⟨_, _, _, _, _, rcode⟩ := responseFlags_bits q.recursionDesired
      (replyAnswers q resolved.ans resolved.rcode call.isUdp call.respCap).2 resolved.rcode
    rw [replyHeader, rcode, Nat.mod_eq_of_lt (obtained.rcode_lt follow)] at negative
    exact obtained.denied negative

namespace Service

variable [DecidableEq ι] {s next : Service ι} {thread : ι} {place : ServiceThread}

/-- Before any call. -/
theorem Sound.start : Sound ask (Service.start : Service ι) where
  trace := ⟨[], ⟨by simp, rfl⟩, ⟨by simp, fun _ _ _ looking => by cases looking⟩⟩
  follow := by simp [AllFollow, Service.start]
  threads := fun _ => trivial
  returned := by simp [Service.start]

/-- A thread moves by itself, away from `dns_cache_get` and not into it; it may have made a
resolution. -/
theorem Sound.move (sound : s.Sound ask) (subset : s.made ⊆ more) (follow : AllFollow ask more)
    (here : place.Sound more) (away : ∀ call q, place ≠ .looking call q) :
    ({ s with made := more }.moveTo thread place).Sound ask where
  trace := by
    obtain ⟨events, trace, logged⟩ := sound.trace
    refine ⟨events, trace, ?_, ?_⟩
    · intro writer put called key stored stores
      exact (logged.puts writer put called key stored stores).mono subset
    · intro other call q looking
      by_cases same : other = thread
      · subst same
        rw [moveTo_self] at looking
        exact absurd looking (away call q)
      · rw [moveTo_of_ne same] at looking
        exact logged.looking other call q looking
  follow := follow
  threads := fun other => by
    by_cases same : other = thread
    · subst same
      rw [moveTo_self]
      exact here
    · rw [moveTo_of_ne same]
      exact (sound.threads other).mono subset
  returned := fun result member => (sound.returned result member).mono subset

/-- A thread calls the cache, or returns from there. -/
theorem Sound.act (sound : s.Sound ask) {event : CacheEvent ι} {cache : SharedCache ι}
    {action : Action ι CacheCall (Option CacheHit)} (stepped : s.cache.step event = some cache)
    (fits : event.Fits) (shown : event.visible = some action) (mine : action.client = thread)
    (subset : s.made ⊆ more) (follow : AllFollow ask more) (here : place.Sound more)
    (puts : ∀ put, action = .call thread put → ∀ key stored, put.Stores key stored →
      StoredFor more key stored)
    (looks : ∀ call q, place = .looking call q →
      action = .call thread (call.resolveCall q).lookup) :
    ({ s with cache := cache, made := more }.moveTo thread place).Sound ask where
  trace := by
    obtain ⟨events, trace, logged⟩ := sound.trace
    have longer : (events ++ [event]).filterMap CacheEvent.visible =
        events.filterMap CacheEvent.visible ++ [action] := by
      rw [List.filterMap_append, List.filterMap_cons_some shown, List.filterMap_nil]
    refine ⟨events ++ [event], trace.snoc fits stepped, ?_⟩
    rw [longer]
    constructor
    · intro writer put called key stored stores
      rcases List.mem_append.mp called with before | last
      · exact (logged.puts writer put before key stored stores).mono subset
      · obtain rfl := List.mem_singleton.mp last
        obtain rfl : writer = thread := mine
        exact puts put rfl key stored stores
    · intro other call q looking
      by_cases same : other = thread
      · subst same
        rw [moveTo_self] at looking
        rw [looks call q looking]
        exact ⟨_, List.getElem?_concat_length, quiet_concat_length⟩
      · rw [moveTo_of_ne same] at looking
        obtain ⟨position, found, quiet⟩ := logged.looking other call q looking
        exact ⟨position, getElem?_concat_of found,
          quiet.concat fun other => same (other.symm.trans mine)⟩
  follow := follow
  threads := fun other => by
    by_cases same : other = thread
    · subst same
      rw [moveTo_self]
      exact here
    · rw [moveTo_of_ne same]
      exact (sound.threads other).mono subset
  returned := fun result member => (sound.returned result member).mono subset

/-- A thread accesses the cache within a call. -/
theorem Sound.access (sound : s.Sound ask) {event : CacheEvent ι} {cache : SharedCache ι}
    (hidden : event.visible = none) (stepped : s.cache.step event = some cache) :
    ({ s with cache := cache } : Service ι).Sound ask where
  trace := by
    obtain ⟨events, trace, logged⟩ := sound.trace
    have fits : event.Fits := by
      cases event with
      | call thread call => cases hidden
      | _ => trivial
    refine ⟨events ++ [event], trace.snoc fits stepped, ?_⟩
    rw [List.filterMap_append, List.filterMap_cons_none hidden, List.filterMap_nil,
      List.append_nil]
    exact ⟨logged.puts, logged.looking⟩
  follow := sound.follow
  threads := sound.threads
  returned := sound.returned

/-- A hit is from a resolution for the key of the lookup, and has not expired. -/
theorem Sound.hit (sound : s.Sound ask) {call : QueryCall} {q : DnsQueryInfo} {hit : CacheHit}
    {cache : SharedCache ι} (looking : s.threads thread = .looking call q)
    (stepped : s.cache.step (.ret thread (some hit)) = some cache) :
    Obtained s.made (call.resolveCall q) ⟨true, hit.ans, hit.rcode, none⟩ := by
  obtain ⟨events, trace, logged⟩ := sound.trace
  have longer : CacheTrace (events ++ [.ret thread (some hit)]) cache :=
    trace.snoc trivial stepped
  have split : (events ++ [CacheEvent.ret thread (some hit)]).filterMap CacheEvent.visible =
      events.filterMap CacheEvent.visible ++ .ret thread (some hit) :: [] := by
    rw [List.filterMap_append]
    rfl
  obtain ⟨shared, after, explained, returns⟩ := explained_of_split longer.fits longer.run split
  cases returns with
  | ret executed =>
      obtain ⟨position, name, qtype, cap, now, asked, quiet, source, writer, put, stored, called,
        stores, live, rfl, _⟩ := explained.hit executed
      obtain ⟨last, found, also⟩ := logged.looking thread call q looking
      obtain rfl := quiet.unique also rfl asked rfl found
      cases asked.symm.trans found
      exact .cached (logged.puts writer put (List.mem_of_getElem? called) _ _ stores) live

/-- A call has returned. -/
theorem Sound.record (sound : s.Sound ask) {call : QueryCall} {reply : Option BuiltResponse}
    (right : RightAnswer ask s.made call reply) :
    ({ s with returned := s.returned ++ [(call, reply)] } : Service ι).Sound ask where
  trace := by
    obtain ⟨events, trace, logged⟩ := sound.trace
    exact ⟨events, trace, logged.puts, logged.looking⟩
  follow := sound.follow
  threads := sound.threads
  returned := fun result member => by
    rcases List.mem_append.mp member with before | last
    · exact sound.returned result before
    · obtain rfl := List.mem_singleton.mp last
      exact right

/-- A resolution is made. -/
theorem Sound.resolved (sound : s.Sound ask) {call : QueryCall} {q : DnsQueryInfo} {up : σ}
    {resolution : Resolution}
    (made : (resolveFrom ask roots q.q.name q.q.qtype roots dnsMaxAnswers 0 0 up).1 =
      some resolution) :
    AllFollow ask (s.made ++ [(call.resolveCall q, resolution)]) := by
  intro source member
  rcases List.mem_append.mp member with before | last
  · exact sound.follow source before
  · obtain rfl := List.mem_singleton.mp last
    exact resolveFrom_follows (Prod.ext made rfl)

/-- Every event keeps the invariant. -/
theorem Sound.step (sound : s.Sound ask) {event : ServiceEvent ι σ} (roomy : event.Roomy)
    (stepped : s.step ask roots event = some next) : next.Sound ask := by
  cases event with
  | query thread call =>
      simp only [Service.step] at stepped
      split at stepped
      · split at stepped
        · next rejected =>
            cases stepped
            exact sound.record rejected
        · next q parsed =>
            have accepted : call.Accepted q := ⟨parsed, roomy⟩
            split at stepped
            · cases stepped
              exact sound.move (List.Subset.refl _) sound.follow
                ⟨accepted, .refused true (.inl rfl)⟩ (by simp)
            · obtain ⟨cache, called, same⟩ := Option.bind_eq_some_iff.mp stepped
              cases same
              refine sound.act called trivial rfl rfl (List.Subset.refl _) sound.follow
                accepted ?_ ?_
              · intro put same key stored stores
                cases same
                exact stores.elim
              · intro other info same
                cases same
                rfl
      · cases stepped
  | access event =>
      simp only [Service.step] at stepped
      split at stepped
      · next hidden =>
          obtain ⟨cache, moved, same⟩ := Option.bind_eq_some_iff.mp stepped
          cases same
          exact sound.access hidden moved
      · cases stepped
  | found thread result =>
      simp only [Service.step] at stepped
      split at stepped
      · next call q looking =>
          obtain ⟨cache, returned, same⟩ := Option.bind_eq_some_iff.mp stepped
          have here := sound.threads thread
          rw [looking] at here
          cases result with
          | some hit =>
              cases same
              exact sound.act returned trivial rfl rfl (List.Subset.refl _) sound.follow
                ⟨here, sound.hit looking returned⟩ (by simp) (by simp)
          | none =>
              cases same
              exact sound.act returned trivial rfl rfl (List.Subset.refl _) sound.follow
                here (by simp) (by simp)
      · cases stepped
  | resolve thread up =>
      simp only [Service.step] at stepped
      split at stepped
      · next call q resolving =>
          have here := sound.threads thread
          rw [resolving] at here
          split at stepped
          · cases stepped
            exact sound.move (List.Subset.refl _) sound.follow
              ⟨here, .refused false (.inr rfl)⟩ (by simp)
          · next resolution made =>
              have follow : AllFollow ask (s.made ++ [(call.resolveCall q, resolution)]) :=
                sound.resolved made
              have listed : (call.resolveCall q, resolution) ∈
                  s.made ++ [(call.resolveCall q, resolution)] :=
                List.mem_append_right _ List.mem_cons_self
              split at stepped
              · next put puts =>
                  obtain ⟨cache, called, same⟩ := Option.bind_eq_some_iff.mp stepped
                  cases same
                  refine sound.act called (ResolveCall.store_fits puts) rfl rfl
                    (List.subset_append_left _ _) follow ⟨here, listed⟩ ?_ (by simp)
                  · intro other same key stored stores
                    cases same
                    exact ⟨_, listed, put, puts, stores⟩
              · cases stepped
                exact sound.move (List.subset_append_left _ _) follow
                  ⟨here, .upstream listed⟩ (by simp)
      · cases stepped
  | stored thread =>
      simp only [Service.step] at stepped
      split at stepped
      · next call q resolution storing =>
          obtain ⟨cache, returned, same⟩ := Option.bind_eq_some_iff.mp stepped
          cases same
          have here := sound.threads thread
          rw [storing] at here
          exact sound.act returned trivial rfl rfl (List.Subset.refl _) sound.follow
            ⟨here.1, .upstream here.2⟩ (by simp) (by simp)
      · cases stepped
  | build thread =>
      simp only [Service.step] at stepped
      split at stepped
      · next call q resolved building =>
          cases stepped
          have here := sound.threads thread
          rw [building] at here
          exact (sound.record (.of_obtained here.1 here.2 sound.follow)).move
            (List.Subset.refl _) sound.follow trivial (by simp)
      · cases stepped

end Service

/-- **Every reply, in every interleaving.** However many threads call `dns_resolve_query` at the
same time, and whatever the servers out there reply: a call returns a reply just when its query is
accepted; every record in it was accepted from a reply of a server, within the zone that was asked
for it, by the call itself or by another one for the same key whose TTL has not run out, and carries
the time that is left; and a name is denied only if a server has denied it, within the negative
TTL. -/
theorem service_replies_provided {ι σ : Type} [DecidableEq ι] (ask : Ask σ) (roots : List Bytes)
    {events : List (ServiceEvent ι σ)} {s : Service ι} (roomy : ∀ event ∈ events, event.Roomy)
    (done : Schedule.run (Service.step ask roots) events .start = some s) :
    ∀ call reply, (call, reply) ∈ s.returned → RightAnswer ask s.made call reply := by
  have keeps : ∀ event (s next : Service ι), event.Roomy → s.Sound ask →
      s.step ask roots event = some next → next.Sound ask :=
    fun _ _ _ room sound stepped => sound.step room stepped
  have sound := Schedule.run_keeps_within keeps roomy .start done
  exact fun call reply member => sound.returned (call, reply) member

/-- The address of "b" as it is served after a second; the octets are those of the reply. -/
def addressHit : CacheHit where
  ans := [⟨DnsName.ofText [98], 299, .a fun index => byteAt
    [0, 7, 0x80, 0, 0, 1, 0, 1, 0, 0, 0, 0, 1, 98, 0, 0, 1, 0, 1,
      0xC0, 0x0C, 0, 1, 0, 1, 0, 0, 1, 44, 0, 4, 192, 0, 2, 1] (31 + index)⟩]
  rcode := dnsRcodeNoerror

/-- Two threads are asked for "b"; the second one looks when the first one has stored its resolution
and has not built its response yet. -/
def sharedResolution (i j : Fin 2) : List (ServiceEvent (Fin 2) Unit) :=
  [.query i udpCallForB, .access (.load i), .access (.miss i), .found i none, .resolve i (),
    .access (.lock i)] ++ List.replicate 8 (.access (.write i)) ++
  [.access (.unlock i), .query j { udpCallForB with readAt := 1 }, .stored i] ++
  List.replicate 4 (.access (.load j)) ++
  [.access (.lock j), .access (.unlock j), .found j (some addressHit), .build i, .build j]

/-- Both are answered, from one resolution. -/
theorem service_replies_provided_example :
    ∃ s, Schedule.run (Service.step addressAsk [inetNtop fun _ => 1]) (sharedResolution 0 1)
        .start = some s ∧ s.made.length = 1 ∧
      s.returned.map (fun result => (result.1.readAt, result.2.isSome)) = [(0, true), (1, true)] ∧
      ∀ call reply, (call, reply) ∈ s.returned → RightAnswer addressAsk s.made call reply := by
  have ran : (Schedule.run (Service.step addressAsk [inetNtop fun _ => 1]) (sharedResolution 0 1)
      .start).map (fun s => (s.made.length,
        s.returned.map fun result => (result.1.readAt, result.2.isSome))) =
      some (1, [(0, true), (1, true)]) := by
    decide +kernel
  obtain ⟨s, done, seen⟩ := Option.map_eq_some_iff.mp ran
  obtain ⟨made, returned⟩ := Prod.mk.inj seen
  exact ⟨s, done, made, returned,
    service_replies_provided addressAsk [inetNtop fun _ => 1] (by decide) done⟩

end Sound

end FizzDns
