import FizzDns.Resolver.Outcome

/-!
# Only facts are cached

A call of `dns_resolve` stores what servers said about the zone and nothing about its own
failures: an entry is an authoritative denial or holds some answers (`CacheEntry.IsFact`). A
call that fails stores nothing, and no call stores anything under another key than its own,
however many names it had to resolve on the way.

What is known of every entry as it is stored is known of every entry in every reachable
cache (`resolveRun_entries`).
-/

namespace FizzDns

/-- An entry that says something about the zone: the name does not exist, or it has records. -/
def CacheEntry.IsFact (entry : CacheEntry) : Prop :=
  entry.rcode = dnsRcodeNxdomain ∧ entry.ans = [] ∨
    entry.rcode = dnsRcodeNoerror ∧ 1 ≤ entry.ans.length ∧ entry.ans.length ≤ dnsMaxAnswers

section

variable {β σ : Type} {bloom : BloomOps β} {law : FilterLaw bloom} {ask : Ask σ}
  {roots : List Bytes}

/-- An entry as a call that resolved upstream stores it. -/
structure StoredBy (ask : Ask σ) (call : ResolveCall) (resolution : Resolution)
    (entry : CacheEntry) : Prop where
  served : ServedType call.qtype
  follows : Follows ask call.qtype maxCnameHops call.cap call.name resolution
  key : entry.key = call.key
  ans : LruCache.Stores resolution entry.ans
  rcode : entry.rcode = resolution.rcode

/-- A call changes the cache only by an entry that it stores, under its own key. -/
theorem Outcome.mem {call : ResolveCall} {cache after : LruCache} {resolved : Resolved}
    (outcome : Outcome ask call cache resolved after) {entry : CacheEntry}
    (member : entry ∈ after.entries) :
    entry ∈ cache.entries ∨
      ∃ resolution, resolved.resolution = some resolution ∧ StoredBy ask call resolution entry := by
  cases outcome with
  | unsupported _ => exact Or.inl member
  | hit _ found _ =>
      rcases LruCache.mem_place member with rfl | before
      · exact Or.inl (LruCache.mem_of_lookup found)
      · exact Or.inl before
  | failed _ _ => exact Or.inl (LruCache.mem_of_mem_remove member)
  | @resolved resolution served _ follows =>
      rcases LruCache.mem_store member with before | ⟨key, ans, rcode⟩
      · exact Or.inl (LruCache.mem_of_mem_remove before)
      · exact Or.inr ⟨resolution, rfl, served, follows, key, ans, rcode⟩

/-- A property of every entry that is ever stored is kept by runs. -/
theorem resolveRun_entries {holds : CacheEntry → Prop}
    (stored : ∀ call resolution entry, StoredBy ask call resolution entry → holds entry)
    (calls : List ResolveCall) (up : σ) {s : CacheState β} {cache : LruCache}
    (refines : Refines law s cache) (initially : ∀ entry ∈ cache.entries, holds entry) :
    ∃ history next up' after, resolveRun bloom ask roots calls s up = some (history, next, up') ∧
      Refines law next after ∧ ∀ entry ∈ after.entries, holds entry := by
  induction calls generalizing s cache up with
  | nil => exact ⟨[], s, up, cache, rfl, refines, initially⟩
  | cons call calls ih =>
      obtain ⟨resolved, middle, upMiddle, between, called, middleRefines, outcome⟩ :=
        dnsResolve_outcome ask roots call up refines
      have kept : ∀ entry ∈ between.entries, holds entry := by
        intro entry member
        rcases outcome.mem member with before | ⟨resolution, _, entered⟩
        · exact initially entry before
        · exact stored call resolution entry entered
      obtain ⟨history, next, up', after, ran, result, held⟩ := ih upMiddle middleRefines kept
      refine ⟨(call, resolved) :: history, next, up', after, ?_, result, held⟩
      simp only [resolveRun, called, ran, Option.bind_eq_bind, Option.bind_some]

/-- What a resolution stores is a denial or a list of answers. -/
theorem StoredBy.isFact {call : ResolveCall} {resolution : Resolution} {entry : CacheEntry}
    (entered : StoredBy ask call resolution entry) : entry.IsFact := by
  unfold CacheEntry.IsFact
  rw [entered.rcode]
  rcases entered.ans with ⟨noerror, some, ans⟩ | ⟨denied, ans⟩
  · refine Or.inr ⟨noerror, ?_, ?_⟩ <;> rw [ans, List.length_take] <;> rw [dnsMaxAnswers] <;> omega
  · exact Or.inl ⟨denied, ans⟩

/-- **Only facts are cached.** Whatever the servers reply and the clock says, in every run of
`dns_resolve` from an initialised cache every entry is a denial without answers or has between
one and `DNS_MAX_ANSWERS` answers and rcode NOERROR. From any cache, a call that fails hands
back no answers and SERVFAIL and drops at most an expired entry of its key, and whatever a call
adds is under its own key. -/
theorem resolveRun_only_facts {β σ : Type} {bloom : BloomOps β} (law : FilterLaw bloom)
    (ask : Ask σ) (roots : List Bytes) :
    (∀ calls filter up, ∃ history s up' cache,
      resolveRun bloom ask roots calls (dnsCacheInit bloom (CacheState.start filter)) up =
        some (history, s, up') ∧
      Refines law s cache ∧ ∀ entry ∈ cache.entries, entry.IsFact) ∧
    ∀ call s cache up, Refines law s cache →
      ∃ resolved next up' after,
        dnsResolve bloom ask roots call s up = some (resolved, next, up') ∧
        Refines law next after ∧
        (resolved.ok = false →
          resolved.ans = [] ∧ resolved.rcode = dnsRcodeServfail ∧
          (after = cache ∨ ∃ old, cache.lookup call.key = some old ∧ old.expires ≤ call.readAt ∧
            after = cache.remove call.key)) ∧
        ∀ entry ∈ after.entries, entry ∈ cache.entries ∨ entry.key = call.key := by
  constructor
  · intro calls filter up
    exact resolveRun_entries (fun _ _ _ => StoredBy.isFact) calls up
      (dnsCacheInit_refines law (CacheState.start filter)) (by simp [LruCache.empty])
  · intro call s cache up refines
    obtain ⟨resolved, next, up', after, called, result, outcome⟩ :=
      dnsResolve_outcome ask roots call up refines
    refine ⟨resolved, next, up', after, called, result, fun failing => ?_, fun entry member => ?_⟩
    · cases outcome with
      | unsupported _ => cases failing
      | hit _ _ _ => cases failing
      | resolved _ _ _ => cases failing
      | failed _ stale =>
          refine ⟨rfl, rfl, ?_⟩
          cases found : cache.lookup call.key with
          | none => exact Or.inl (LruCache.remove_of_lookup_none found)
          | some old => exact Or.inr ⟨old, rfl, stale old found, rfl⟩
    · rcases outcome.mem member with old | ⟨_, _, entered⟩
      · exact Or.inl old
      · exact Or.inr entered.key

end

end FizzDns
