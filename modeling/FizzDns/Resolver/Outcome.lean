import FizzDns.Cache.Refinement
import FizzDns.Resolver.Trail

/-!
# What one call of `dns_resolve` can do

`Outcome` lists the ways a call can go over the abstract cache: the type is not served, the
key has a live entry, the resolution fails, or it is made and stored. `dnsResolve_outcome`
shows that the call on the cache in memory goes one of them, so that facts about calls and
runs of calls are facts about these four cases.
-/

namespace FizzDns

/-- The key of a call. -/
def ResolveCall.key (call : ResolveCall) : CacheKey :=
  cacheKey call.name.chars call.qtype

/-- A type that `dns_resolve` serves. -/
def ServedType (qtype : UInt16) : Prop :=
  qtype = dnsTypeA ∨ qtype = dnsTypeAaaa

namespace LruCache

/-- What `dns_resolve` stores of a resolution. -/
def store (call : ResolveCall) (resolution : Resolution) (cache : LruCache) : LruCache :=
  if resolution.rcode = dnsRcodeNoerror ∧ resolution.ans.length > 0 then
    cache.put call.name.toCString call.qtype resolution.ans resolution.rcode call.storedAt
      call.allocates
  else if resolution.rcode = dnsRcodeNxdomain then
    cache.put call.name.toCString call.qtype [] resolution.rcode call.storedAt call.allocates
  else cache

/-- The answers that are stored of a resolution, and the rcode that goes with them. -/
def Stores (resolution : Resolution) (ans : List DnsAnswer) : Prop :=
  resolution.rcode = dnsRcodeNoerror ∧ 0 < resolution.ans.length ∧
      ans = resolution.ans.take dnsMaxAnswers ∨
    resolution.rcode = dnsRcodeNxdomain ∧ ans = []

variable {cache : LruCache} {call : ResolveCall} {entry : CacheEntry}

/-- What is stored is the beginning of the answers. -/
theorem Stores.start {resolution : Resolution} {ans : List DnsAnswer}
    (stores : Stores resolution ans) : ans <+: resolution.ans := by
  rcases stores with ⟨_, _, rfl⟩ | ⟨_, rfl⟩
  · exact List.take_prefix _ _
  · exact List.nil_prefix

/-- A stored resolution leaves nothing new in the cache but its answers, under the key. -/
theorem mem_store {resolution : Resolution}
    (member : entry ∈ (cache.store call resolution).entries) :
    entry ∈ cache.entries ∨
      entry.key = call.key ∧ Stores resolution entry.ans ∧ entry.rcode = resolution.rcode := by
  have fits : call.name.chars.length ≤ dnsMaxName := call.name.fits
  unfold store at member
  split at member
  · next positive =>
      refine (mem_put fits member).imp_right fun ⟨key, ans, rcode⟩ => ⟨key, ?_, rcode⟩
      exact Or.inl ⟨positive.1, positive.2, ans⟩
  split at member
  · next denied =>
      refine (mem_put fits member).imp_right fun ⟨key, ans, rcode⟩ => ⟨key, ?_, rcode⟩
      exact Or.inr ⟨denied, ans⟩
  · exact Or.inl member

end LruCache

/-- How a call of `dns_resolve` can go, over the abstract cache: what it hands back and what
the cache is afterwards. -/
inductive Outcome {σ : Type} (ask : Ask σ) (call : ResolveCall) (cache : LruCache) :
    Resolved → LruCache → Prop
  | unsupported (foreign : ¬ ServedType call.qtype) :
      Outcome ask call cache ⟨true, [], dnsRcodeNotimp, none⟩ cache
  | hit {entry : CacheEntry} (served : ServedType call.qtype)
      (found : cache.lookup call.key = some entry) (live : call.readAt < entry.expires) :
      Outcome ask call cache
        ⟨true, (entry.serve call.cap call.readAt).ans, entry.rcode, none⟩ (cache.place entry)
  | failed (served : ServedType call.qtype)
      (stale : ∀ entry, cache.lookup call.key = some entry → entry.expires ≤ call.readAt) :
      Outcome ask call cache ⟨false, [], dnsRcodeServfail, none⟩ (cache.remove call.key)
  | resolved {resolution : Resolution} (served : ServedType call.qtype)
      (stale : ∀ entry, cache.lookup call.key = some entry → entry.expires ≤ call.readAt)
      (follows : Follows ask call.qtype maxCnameHops call.cap call.name resolution) :
      Outcome ask call cache ⟨true, resolution.ans, resolution.rcode, some resolution⟩
        ((cache.remove call.key).store call resolution)

/-- No more answers are handed back than there is room for. -/
theorem Outcome.length_le {σ : Type} {ask : Ask σ} {call : ResolveCall} {cache after : LruCache}
    {resolved : Resolved} (outcome : Outcome ask call cache resolved after) {room : Nat}
    (cap : call.cap ≤ room) : resolved.ans.length ≤ room := by
  cases outcome with
  | unsupported _ => exact Nat.zero_le _
  | hit _ _ _ =>
      simp only [CacheEntry.serve, List.length_map, List.length_take]
      omega
  | failed _ _ => exact Nat.zero_le _
  | resolved _ _ follows => exact follows.length_le.trans cap

section

variable {β σ : Type} {bloom : BloomOps β} {law : FilterLaw bloom} {s : CacheState β}
  {cache : LruCache}

/-- Storing a resolution succeeds, and is the put of the abstract cache. -/
theorem storeResolution_refines (refines : Refines law s cache) (call : ResolveCall)
    (resolution : Resolution) :
    ∃ next, storeResolution bloom call resolution s = some next ∧
      Refines law next (cache.store call resolution) := by
  have fits : call.name.chars.length ≤ dnsMaxName := call.name.fits
  unfold storeResolution LruCache.store
  split
  · exact dnsCachePut_refines refines fits call.qtype resolution.ans resolution.rcode call.storedAt
      call.allocates
  split
  · exact dnsCachePut_refines refines fits call.qtype [] resolution.rcode call.storedAt
      call.allocates
  · exact ⟨s, rfl, refines⟩

/-- Every call returns, and goes one of the ways of `Outcome`. -/
theorem dnsResolve_outcome (ask : Ask σ) (roots : List Bytes) (call : ResolveCall) (up : σ)
    (refines : Refines law s cache) :
    ∃ resolved next up' after, dnsResolve bloom ask roots call s up = some (resolved, next, up') ∧
      Refines law next after ∧ Outcome ask call cache resolved after := by
  unfold dnsResolve
  split
  · next foreign =>
      refine ⟨_, s, up, cache, rfl, refines, .unsupported ?_⟩
      rintro (a | aaaa)
      · exact foreign.1 a
      · exact foreign.2 aaaa
  next known =>
  have served : ServedType call.qtype := by
    by_contra foreign
    exact known (not_or.mp foreign)
  obtain ⟨read, looked, readRefines⟩ :=
    dnsCacheGet_refines refines call.name.toCString call.qtype call.cap call.readAt
  rw [looked, Option.bind_eq_bind, Option.bind_some]
  rcases LruCache.get_cases call.name.toCString call.qtype call.cap call.readAt cache with
    ⟨entry, found, live, same⟩ | ⟨stale, same⟩
  · rw [same] at readRefines ⊢
    exact ⟨_, read, up, _, rfl, readRefines, .hit served found live⟩
  · rw [same] at readRefines ⊢
    simp only
    split
    · exact ⟨_, read, _, _, rfl, readRefines, .failed served stale⟩
    · next resolution up' resolved =>
        obtain ⟨next, stored, result⟩ := storeResolution_refines readRefines call resolution
        exact ⟨_, next, up', _, by rw [stored]; rfl, result,
          .resolved served stale (resolveFrom_follows resolved)⟩

end

end FizzDns
