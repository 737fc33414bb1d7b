import FizzDns.Resolver.Outcome

/-!
# Where records come from

Every record that `dns_resolve` hands out or stores goes back to a reply that was dissected
for it. Within one resolution this is `Follows.justified`: the record was accepted from a
reply on the trail, its owner lies in the zone that was current then, and CNAMEs accepted on
the same trail lead from the name to its owner.

Over a run of calls, an entry of the cache holds the start of what an earlier call for the
same key resolved (`Backed`), and a hit serves the start of an entry. So the same is known
of everything that is ever served or stored (`resolveRun_justified`).
-/

namespace FizzDns

section

variable {σ : Type} {ask : Ask σ} {roots : List Bytes} {qtype : UInt16} {name : DnsName}
  {hops ansCap : Nat} {resolution : Resolution}

/-- A record is justified by a trail: it was accepted from a reply on it, from a server of a
zone that covers its owner, and accepted CNAMEs lead to its owner. -/
structure Justified (ask : Ask σ) (qtype : UInt16) (name : DnsName) (trail : List Visit)
    (record : DnsAnswer) : Prop where
  accepted : ∃ visit ∈ trail, visit.Asked ask qtype ∧ record ∈ visit.accepted ∧
    dnsNameInBailiwick record.owner.chars visit.zone.chars = true
  reached : Reaches (trail.flatMap Visit.accepted) name.chars record.owner.chars

/-- A record that is taken from a reply is justified by it. -/
theorem Visit.Read.justified {visit : Visit} {d : Dissection}
    (read : visit.Read ask qtype ansCap d) (rest : List Visit) {record : DnsAnswer}
    (member : record ∈ d.answers) : Justified ask qtype visit.name (visit :: rest) record := by
  have inside : record ∈ visit.accepted := by
    rw [read.answers] at member
    exact List.mem_of_mem_take member
  obtain ⟨covered, reached⟩ := read.believed inside
  refine ⟨⟨visit, List.mem_cons_self, read.asked, inside, covered⟩, reached.mono ?_⟩
  rw [List.flatMap_cons]
  exact List.subset_append_left _ _

/-- What a resolution returns is justified by its trail. -/
theorem Follows.justified (follows : Follows ask qtype hops ansCap name resolution) :
    ∀ record ∈ resolution.ans, Justified ask qtype name resolution.trail record := by
  induction follows using Follows.unwind with
  | last read _ => exact fun _ member => read.justified [] member
  | @chased _ _ visit d tail read cname _ _ ih =>
      intro record member
      rcases List.mem_append.mp member with own | later
      · exact read.justified tail.trail own
      · obtain ⟨⟨source, onTrail, asked, accepted, covered⟩, reached⟩ :=
          ih record (List.mem_of_mem_take later)
        refine ⟨⟨source, List.mem_cons_of_mem _ onTrail, asked, accepted, covered⟩, ?_⟩
        -- the CNAME that was followed leads from the name to where the tail starts
        rw [List.flatMap_cons]
        have own : Reaches (visit.accepted ++ tail.trail.flatMap Visit.accepted) visit.name.chars
            d.cname.chars :=
          Reaches.mono (Relation.ReflTransGen.single (read.link cname))
            (List.subset_append_left _ _)
        exact own.trans (reached.mono (List.subset_append_right _ _))

end

/-! ## Runs -/

section

variable {β σ : Type} {bloom : BloomOps β} {law : FilterLaw bloom} {ask : Ask σ}
  {roots : List Bytes}

/-- An entry holds the start of what an earlier call for its key resolved. -/
def Backed (history : List (ResolveCall × Resolved)) (entry : CacheEntry) : Prop :=
  ∃ source ∈ history, source.1.key = entry.key ∧ ∃ resolution,
    source.2.resolution = some resolution ∧ entry.ans <+: resolution.ans ∧
      entry.rcode = resolution.rcode

/-- More calls back no less. -/
theorem Backed.mono {fewer more : List (ResolveCall × Resolved)} {entry : CacheEntry}
    (backed : Backed fewer entry) (subset : fewer ⊆ more) : Backed more entry := by
  obtain ⟨source, member, rest⟩ := backed
  exact ⟨source, subset member, rest⟩

/-- What a call hands back, after some history: nothing, what it resolved itself, or what an
earlier call for the key resolved, cut short and with other TTLs. -/
inductive Served (ask : Ask σ) (history : List (ResolveCall × Resolved)) (call : ResolveCall) :
    Resolved → Prop
  | empty (ok : Bool) {rcode : Nat} (negative : rcode ≠ dnsRcodeNoerror) :
      Served ask history call ⟨ok, [], rcode, none⟩
  | upstream {resolution : Resolution}
      (follows : Follows ask call.qtype maxCnameHops call.cap call.name resolution) :
      Served ask history call ⟨true, resolution.ans, resolution.rcode, some resolution⟩
  | hit {source : ResolveCall × Resolved} {resolution : Resolution} {ans : List DnsAnswer}
      (member : source ∈ history) (key : source.1.key = call.key)
      (resolved : source.2.resolution = some resolution)
      (start : ans.map DnsAnswer.untimed <+: resolution.ans.map DnsAnswer.untimed) :
      Served ask history call ⟨true, ans, resolution.rcode, none⟩

/-- One call: it serves what it may, and the cache stays backed by the history. -/
theorem dnsResolve_backed (call : ResolveCall) (up : σ) {history : List (ResolveCall × Resolved)}
    {s : CacheState β} {cache : LruCache} (refines : Refines law s cache)
    (backed : ∀ entry ∈ cache.entries, Backed history entry) :
    ∃ resolved next up' after, dnsResolve bloom ask roots call s up = some (resolved, next, up') ∧
      Refines law next after ∧
      (∀ entry ∈ after.entries, Backed (history ++ [(call, resolved)]) entry) ∧
      Served ask history call resolved := by
  obtain ⟨resolved, next, up', after, called, result, outcome⟩ :=
    dnsResolve_outcome ask roots call up refines
  have older : ∀ {entry : CacheEntry}, entry ∈ cache.entries →
      Backed (history ++ [(call, resolved)]) entry :=
    fun member => (backed _ member).mono (List.subset_append_left _ _)
  refine ⟨resolved, next, up', after, called, result, ?_⟩
  cases outcome with
  | unsupported _ => exact ⟨fun _ member => older member, .empty _ (by decide)⟩
  | @hit entry _ found _ =>
      obtain ⟨source, inHistory, sameKey, resolution, made, start, rcode⟩ :=
        backed entry (LruCache.mem_of_lookup found)
      constructor
      · intro other member
        rcases LruCache.mem_place member with rfl | before
        · exact older (LruCache.mem_of_lookup found)
        · exact older before
      · rw [rcode]
        refine .hit inHistory (sameKey.trans (LruCache.key_of_lookup found)) made ?_
        rw [CacheEntry.untimed_serve]
        exact ((List.take_prefix _ _).trans start).map _
  | failed _ _ =>
      exact ⟨fun _ member => older (LruCache.mem_of_mem_remove member), .empty _ (by decide)⟩
  | @resolved resolution _ _ follows =>
      refine ⟨fun entry member => ?_, .upstream follows⟩
      rcases LruCache.mem_store member with before | ⟨key, stores, rcode⟩
      · exact older (LruCache.mem_of_mem_remove before)
      · exact ⟨_, List.mem_append_right _ List.mem_cons_self, key.symm, resolution, rfl,
          stores.start, rcode⟩

/-- A run of calls from a cache that is backed by what happened before. -/
theorem resolveRun_backed (calls : List ResolveCall) (up : σ)
    {earlier : List (ResolveCall × Resolved)} {s : CacheState β} {cache : LruCache}
    (refines : Refines law s cache) (backed : ∀ entry ∈ cache.entries, Backed earlier entry) :
    ∃ history next up' after, resolveRun bloom ask roots calls s up = some (history, next, up') ∧
      Refines law next after ∧
      (∀ entry ∈ after.entries, Backed (earlier ++ history) entry) ∧
      ∀ before call resolved rest, history = before ++ (call, resolved) :: rest →
        Served ask (earlier ++ before) call resolved := by
  induction calls generalizing earlier s cache up with
  | nil =>
      refine ⟨[], s, up, cache, rfl, refines, by simpa using backed, ?_⟩
      intro before call resolved rest split
      cases before <;> cases split
  | cons call calls ih =>
      obtain ⟨resolved, middle, upMiddle, between, called, middleRefines, middleBacked, served⟩ :=
        @dnsResolve_backed _ _ bloom law ask roots call up earlier s cache refines backed
      obtain ⟨history, next, up', after, ran, result, held, others⟩ :=
        ih upMiddle middleRefines middleBacked
      refine ⟨(call, resolved) :: history, next, up', after, ?_, result, ?_, ?_⟩
      · simp only [resolveRun, called, ran, Option.bind_eq_bind, Option.bind_some]
      · simpa using held
      · intro before later handed rest split
        cases before with
        | nil =>
            cases split
            simpa using served
        | cons first before =>
            cases split
            simpa using others before later handed rest rfl

/-- A resolution that a call hands back is one that was made for it. -/
theorem Served.follows {history : List (ResolveCall × Resolved)} {call : ResolveCall}
    {resolved : Resolved} {resolution : Resolution} (served : Served ask history call resolved)
    (made : resolved.resolution = some resolution) :
    Follows ask call.qtype maxCnameHops call.cap call.name resolution := by
  cases served with
  | empty _ _ => cases made
  | upstream follows =>
      cases made
      exact follows
  | hit _ _ _ _ => cases made

/-- It is handed back whole. -/
theorem Served.ans_eq {history : List (ResolveCall × Resolved)} {call : ResolveCall}
    {resolved : Resolved} {resolution : Resolution} (served : Served ask history call resolved)
    (made : resolved.resolution = some resolution) : resolved.ans = resolution.ans := by
  cases served with
  | empty _ _ => cases made
  | upstream _ =>
      cases made
      rfl
  | hit _ _ _ _ => cases made

/-- Runs from an initialised cache: all entries are backed, all calls are served, and all
resolutions were made by the loop. -/
theorem resolveRun_served (calls : List ResolveCall) (filter : β) (up : σ) :
    ∃ history s up' cache,
      resolveRun bloom ask roots calls (dnsCacheInit bloom (CacheState.start filter)) up =
        some (history, s, up') ∧
      Refines law s cache ∧
      (∀ entry ∈ cache.entries, Backed history entry) ∧
      (∀ before call resolved rest, history = before ++ (call, resolved) :: rest →
        Served ask before call resolved) ∧
      ∀ source ∈ history, ∀ resolution, source.2.resolution = some resolution →
        Follows ask source.1.qtype maxCnameHops source.1.cap source.1.name resolution := by
  obtain ⟨history, s, up', cache, ran, refines, backed, served⟩ :=
    @resolveRun_backed _ _ bloom law ask roots calls up [] _ _
      (dnsCacheInit_refines law (CacheState.start filter)) (by simp [LruCache.empty])
  simp only [List.nil_append] at backed served
  refine ⟨history, s, up', cache, ran, refines, backed, served, ?_⟩
  intro source member resolution made
  obtain ⟨before, rest, split⟩ := List.append_of_mem member
  exact (served before source.1 source.2 rest split).follows made

/-- The resolution that a call of the history made for a record, which its trail justifies. -/
def MadeFor (ask : Ask σ) (source : ResolveCall × Resolved) (record : DnsAnswer) : Prop :=
  ∃ resolution, source.2.resolution = some resolution ∧ record ∈ resolution.ans ∧
    Justified ask source.1.qtype source.1.name resolution.trail record

/-- **No record without a reply for it.** Whatever the servers reply, in every run of
`dns_resolve` from an initialised cache each record that is returned was made by the call
itself or, up to its TTL, by an earlier one for the same key; each record in the cache was made
by a call for the key it is stored under; and each call of `resolve_from`, at any nesting of
CNAMEs and server addresses, returns only records that its trail justifies. -/
theorem resolveRun_justified {β σ : Type} {bloom : BloomOps β} (law : FilterLaw bloom)
    (ask : Ask σ) (roots : List Bytes) (calls : List ResolveCall) (filter : β) (up : σ) :
    (∃ history s up' cache,
      resolveRun bloom ask roots calls (dnsCacheInit bloom (CacheState.start filter)) up =
        some (history, s, up') ∧
      Refines law s cache ∧
      (∀ before call resolved rest, history = before ++ (call, resolved) :: rest →
        ∀ record ∈ resolved.ans,
          MadeFor ask (call, resolved) record ∨
          ∃ source ∈ before, source.1.key = call.key ∧ ∃ original,
            original.untimed = record.untimed ∧ MadeFor ask source original) ∧
      ∀ entry ∈ cache.entries, ∀ record ∈ entry.ans,
        ∃ source ∈ history, source.1.key = entry.key ∧ MadeFor ask source record) ∧
    ∀ name qtype servers ansCap nsDepth cnameHops before resolution after,
      resolveFrom ask roots name qtype servers ansCap nsDepth cnameHops before =
        (some resolution, after) →
      ∀ record ∈ resolution.ans, Justified ask qtype name resolution.trail record := by
  refine ⟨?_, fun _ _ _ _ _ _ _ _ _ resolved => (resolveFrom_follows resolved).justified⟩
  obtain ⟨history, s, up', cache, ran, refines, backed, served, follows⟩ :=
    @resolveRun_served _ _ bloom law ask roots calls filter up
  -- what a call of the history resolved is justified, as every call was served
  have made : ∀ source ∈ history, ∀ resolution, source.2.resolution = some resolution →
      ∀ record ∈ resolution.ans, MadeFor ask source record :=
    fun source member resolution resolved record inside =>
      ⟨resolution, resolved, inside,
        (follows source member resolution resolved).justified record inside⟩
  refine ⟨history, s, up', cache, ran, refines, ?_, ?_⟩
  · intro before call resolved rest split record member
    have within : ∀ source ∈ before, source ∈ history := fun source inside =>
      split ▸ List.mem_append_left _ inside
    cases served before call resolved rest split with
    | empty _ _ => cases member
    | @upstream resolution follows =>
        exact Or.inl ⟨resolution, rfl, member, follows.justified record member⟩
    | @hit source resolution ans inside key made' start =>
        have listed := start.subset (List.mem_map_of_mem member)
        obtain ⟨original, present, same⟩ := List.mem_map.mp listed
        exact Or.inr ⟨source, inside, key, original, same,
          made source (within source inside) resolution made' original present⟩
  · intro entry inside record member
    obtain ⟨source, present, key, resolution, resolved, start, _⟩ := backed entry inside
    exact ⟨source, present, key,
      made source present resolution resolved record (start.subset member)⟩

end

end FizzDns
