import FizzDns.Backend.ResolveQuery
import FizzDns.Resolver.Facts

/-!
# Cached and fresh replies

A query that is answered out of the cache gets the reply that the resolution got which left
the entry there, but for the TTLs. The two calls give the builder different lists: the cache
rewrites TTLs, and of a denied name it keeps no records while the resolution may still hold
the CNAMEs that led there. What the builder writes does not depend on these differences: the
TTL has no part in the choice of the records (`sentAnswers_untimed`), and a denial is sent
without records.
-/

namespace FizzDns

/-! ## Records with other TTLs -/

/-- A position in the TTL field of one of the records that stand one after the other from
`start` on. -/
def InTtlField (qname : DnsName) : List DnsAnswer → (start index : Nat) → Prop
  | [], _, _ => False
  | answer :: rest, start, index =>
      let ttl := start + (ownerBytes qname answer.owner).length + 4
      ttl ≤ index ∧ index < ttl + 4 ∨
        InTtlField qname rest (start + (recordBytes qname answer).length) index

section

variable {qname : DnsName} {answer other : DnsAnswer} {left right : List DnsAnswer}

theorem recordBytes_untimed (same : answer.untimed = other.untimed) :
    SameOutside {index | (ownerBytes qname answer.owner).length + 4 ≤ index ∧
        index < (ownerBytes qname answer.owner).length + 8}
      (recordBytes qname answer) (recordBytes qname other) := by
  obtain ⟨owner, rdata⟩ := Prod.mk.inj same
  have fields : ∀ answer : DnsAnswer, recordBytes qname answer =
      (ownerBytes qname answer.owner ++ (wr16 answer.rdata.type ++ wr16 dnsClassIn)) ++
        (wr32 answer.ttl ++ (wr16 (UInt16.ofNat (rdataBytes answer.rdata).length) ++
          rdataBytes answer.rdata)) := by
    intro answer
    simp only [recordBytes, DnsAnswer.type, List.append_assoc]
  rw [fields answer, fields other, ← owner, ← rdata]
  apply (SameOutside.refl _ _).append
  refine SameOutside.append (SameOutside.of_cover rfl fun index inside => ?_) (.refl _ _)
  rw [length_wr32] at inside
  simp only [List.length_append, length_wr16, Set.mem_ofPred_eq]
  omega

/-- Records that differ in their TTLs are encoded to the same bytes outside the TTL fields. -/
theorem recordsBytes_untimed (same : left.map DnsAnswer.untimed = right.map DnsAnswer.untimed)
    (start : Nat) :
    SameOutside {index | InTtlField qname left start (start + index)}
      (left.flatMap (recordBytes qname)) (right.flatMap (recordBytes qname)) := by
  induction left generalizing right start with
  | nil =>
      rw [List.map_nil, eq_comm, List.map_eq_nil_iff] at same
      rw [same]
      exact .refl _ _
  | cons answer rest ih =>
      obtain ⟨other, rest', rfl, head, tail⟩ := List.map_eq_cons_iff.mp same.symm
      rw [List.flatMap_cons, List.flatMap_cons]
      refine ((recordBytes_untimed head.symm).mono ?_).append ((ih tail.symm
        (start + (recordBytes qname answer).length)).mono ?_)
      · intro index inside
        simp only [Set.mem_ofPred_eq] at inside
        apply Or.inl
        omega
      · intro index inside
        apply Or.inr
        simpa only [Set.mem_ofPred_eq, Nat.add_assoc] using inside

/-- The TTL of an answer has no part in what the answer loop does with it. -/
theorem emitAnswer_untimed (same : answer.untimed = other.untimed) (ansCap o : Nat) :
    (∃ record record', emitAnswer qname answer ansCap o = .emitted record ∧
      emitAnswer qname other ansCap o = .emitted record' ∧ record.length = record'.length) ∨
    (∀ record, emitAnswer qname answer ansCap o ≠ .emitted record) ∧
      emitAnswer qname answer ansCap o = emitAnswer qname other ansCap o := by
  obtain ⟨owner, rdata⟩ := Prod.mk.inj same
  unfold emitAnswer DnsAnswer.type
  rw [← owner, ← rdata]
  cases emitOwner qname answer.owner ansCap o with
  | error wrote => exact Or.inr ⟨by simp, rfl⟩
  | ok owned =>
      simp only
      split
      · exact Or.inr ⟨by simp, rfl⟩
      split
      · exact Or.inr ⟨by simp, rfl⟩
      split
      · exact Or.inr ⟨by simp, rfl⟩
      · exact Or.inr ⟨by simp, rfl⟩
      · exact Or.inl ⟨_, _, rfl, rfl, by simp only [List.length_append, length_wr32]⟩

theorem sentAnswers_untimed (same : left.map DnsAnswer.untimed = right.map DnsAnswer.untimed)
    (ansCap o : Nat) :
    (sentAnswers qname ansCap left o).1.map DnsAnswer.untimed =
        (sentAnswers qname ansCap right o).1.map DnsAnswer.untimed ∧
      (sentAnswers qname ansCap left o).2 = (sentAnswers qname ansCap right o).2 := by
  induction left generalizing right o with
  | nil =>
      rw [List.map_nil, eq_comm, List.map_eq_nil_iff] at same
      rw [same]
      exact ⟨rfl, rfl⟩
  | cons answer rest ih =>
      obtain ⟨other, rest', rfl, head, tail⟩ := List.map_eq_cons_iff.mp same.symm
      rw [sentAnswers, sentAnswers]
      rcases @emitAnswer_untimed qname _ _ head.symm ansCap o with
        ⟨record, record', emitted, emitted', length⟩ | ⟨rejected, equal⟩
      · obtain ⟨records, truncated⟩ := ih tail.symm (o + record.length)
        simp only [emitted, emitted', length, List.map_cons, head] at records truncated ⊢
        rw [records]
        exact ⟨rfl, truncated⟩
      · rw [← equal]
        cases turn : emitAnswer qname answer ansCap o with
        | emitted record => exact absurd turn (rejected record)
        | skipped wrote => exact ih tail.symm o
        | full wrote => exact ⟨rfl, rfl⟩

end

/-! ## Replies with other TTLs -/

/-- What goes into a reply depends on the answers only for NOERROR, and not on their TTLs. -/
theorem replyAnswers_untimed {left right : List DnsAnswer} {rcode : Nat}
    (same : rcode = dnsRcodeNoerror →
      left.map DnsAnswer.untimed = right.map DnsAnswer.untimed)
    (q : DnsQueryInfo) (isUdp : Bool) (cap : Nat) :
    (replyAnswers q left rcode isUdp cap).1.map DnsAnswer.untimed =
        (replyAnswers q right rcode isUdp cap).1.map DnsAnswer.untimed ∧
      (replyAnswers q left rcode isUdp cap).2 = (replyAnswers q right rcode isUdp cap).2 := by
  unfold replyAnswers
  split
  · next noerror => exact sentAnswers_untimed (same noerror) _ _
  · exact ⟨rfl, rfl⟩

/-- Two replies to one query with the same header, whose records differ in their TTLs. -/
theorem ReplyTo.untimed {call again : QueryCall} {q : DnsQueryInfo} {bytes bytes' : Bytes}
    {header : DnsHeader} {records records' : List DnsAnswer}
    (reply : ReplyTo call q bytes header records)
    (reply' : ReplyTo again q bytes' header records') (query : again.query = call.query)
    (inside : dnsHdrLen + q.q.rawLen ≤ call.query.length)
    (same : records.map DnsAnswer.untimed = records'.map DnsAnswer.untimed) :
    SameOutside {index | InTtlField q.q.name records (dnsHdrLen + q.q.rawLen) index}
      bytes bytes' := by
  have start : (headerBytes header ++ slice call.query dnsHdrLen q.q.rawLen).length =
      dnsHdrLen + q.q.rawLen := by
    rw [List.length_append, length_headerBytes, length_slice inside]
  rw [reply.layout, reply'.layout, query, ← List.append_assoc (headerBytes header),
    ← List.append_assoc (headerBytes header)]
  apply (SameOutside.refl _ _).append
  rw [start]
  exact (recordsBytes_untimed same (dnsHdrLen + q.q.rawLen)).append (.refl _ _)

/-! ## The two calls -/

/-- A call with the same query over the same transport, at any time. -/
structure QueryCall.Repeats (again call : QueryCall) : Prop where
  query : again.query = call.query
  respCap : again.respCap = call.respCap
  isUdp : again.isUdp = call.isUdp

theorem LruCache.key_ne_of_mem_remove {cache : LruCache} {key : CacheKey} {entry : CacheEntry}
    (member : entry ∈ (cache.remove key).entries) : entry.key ≠ key := by
  intro same
  exact Recency.notMem_remove (List.mem_map.mpr ⟨entry, member, same⟩)

section

variable {σ : Type} {ask : Ask σ} {call : ResolveCall} {cache after : LruCache}
  {resolved : Resolved} {entry : CacheEntry}

/-- What a call that resolved leaves under its key is what it stored. -/
theorem Outcome.left (outcome : Outcome ask call cache resolved after)
    (fresh : resolved.resolution.isSome) (found : after.lookup call.key = some entry) :
    ServedType call.qtype ∧ entry.rcode = resolved.rcode ∧
      (resolved.rcode = dnsRcodeNoerror → entry.ans = resolved.ans.take dnsMaxAnswers) := by
  cases outcome with
  | unsupported _ | hit _ _ _ | failed _ _ => cases fresh
  | resolved served _ _ =>
      rcases LruCache.mem_store (LruCache.mem_of_lookup found) with before | ⟨_, ans, rcode⟩
      · exact absurd (LruCache.key_of_lookup found) (LruCache.key_ne_of_mem_remove before)
      · refine ⟨served, rcode, fun noerror => ?_⟩
        rcases ans with ⟨_, _, kept⟩ | ⟨denied, _⟩
        · exact kept
        · cases noerror.symm.trans denied

/-- A call with a live entry under its key hands it back. -/
theorem Outcome.of_live (outcome : Outcome ask call cache resolved after)
    (served : ServedType call.qtype) (found : cache.lookup call.key = some entry)
    (live : call.readAt < entry.expires) :
    resolved.ans = (entry.serve call.cap call.readAt).ans ∧ resolved.rcode = entry.rcode := by
  cases outcome with
  | unsupported foreign => exact absurd served foreign
  | hit _ found' _ =>
      rw [found] at found'
      cases found'
      exact ⟨rfl, rfl⟩
  | failed _ stale | resolved _ stale _ =>
      exact absurd (stale entry found) (Int.not_le.mpr live)

end

/-- **Cached and fresh replies agree.** Let an accepted query be resolved upstream and leave an
entry for its key. Every later call with the same query over the same transport that is served
from this entry replies with a message of the same length, which can differ from the first
reply only in the TTL fields of the answer records. -/
theorem cached_reply_agrees {β σ : Type} {bloom : BloomOps β} {law : FilterLaw bloom}
    (ask : Ask σ) (roots : List Bytes) {call : QueryCall} {q : DnsQueryInfo}
    (accepted : dnsParseQuery call.query call.query.length = some q)
    (room : 512 ≤ call.respCap) (size : call.respCap < 2 ^ 64) (up : σ) {s : CacheState β}
    {cache : LruCache} (refines : Refines law s cache) :
    ∃ resolved next up' after fresh header records,
      answerQuestion bloom ask roots call q s up = some (resolved, next, up') ∧
      dnsResolveQuery bloom ask roots call s up = some (some fresh, next, up') ∧
      Refines law next after ∧
      ReplyTo call q fresh.bytes header records ∧
      (resolved.resolution.isSome →
        ∀ entry, after.lookup (call.resolveCall q).key = some entry →
        ∀ (again : QueryCall) (s' : CacheState β) (cache' : LruCache) (later : σ),
          again.Repeats call → Refines law s' cache' →
          cache'.lookup (call.resolveCall q).key = some entry → again.readAt < entry.expires →
          ∃ cached next' later',
            dnsResolveQuery bloom ask roots again s' later = some (some cached, next', later') ∧
            SameOutside {index | InTtlField q.q.name records (dnsHdrLen + q.q.rawLen) index}
              fresh.bytes cached.bytes) := by
  obtain ⟨resolved, next, up', after, answered, result, few, went⟩ :=
    @answerQuestion_outcome _ _ bloom law ask roots call q up s cache refines
  obtain ⟨fresh, builds, reply⟩ := dnsBuildResponse_replyTo accepted few resolved.rcode room size
  refine ⟨resolved, next, up', after, fresh, _, _, answered, ?_, result, reply, ?_⟩
  · simp only [dnsResolveQuery, accepted, answered, builds, Option.bind_eq_bind, Option.bind_some]
  intro upstream entry found again s' cache' later repeats refines' found' live
  obtain ⟨known, outcome⟩ : q.q.qclass = dnsClassIn ∧
      Outcome ask (call.resolveCall q) cache resolved after := by
    rcases went with ⟨_, rfl, _⟩ | known
    · cases upstream
    · exact known
  obtain ⟨served, rcode, stored⟩ := outcome.left upstream found
  obtain ⟨resolved', next', later', after', answered', _, few', went'⟩ :=
    @answerQuestion_outcome _ _ bloom law ask roots again q later s' cache' refines'
  have outcome' := (went'.resolve_left fun foreign => foreign.1 known).2
  obtain ⟨ans', rcode'⟩ := outcome'.of_live served found' live
  rw [rcode] at rcode'
  have accepted' : dnsParseQuery again.query again.query.length = some q := by
    rw [repeats.query]
    exact accepted
  obtain ⟨cached, builds', reply'⟩ := dnsBuildResponse_replyTo accepted' few' resolved'.rcode
    (repeats.respCap ▸ room) (repeats.respCap ▸ size)
  refine ⟨cached, next', later', ?_, ?_⟩
  · simp only [dnsResolveQuery, accepted', answered', builds', Option.bind_eq_bind,
      Option.bind_some]
  have same : resolved.rcode = dnsRcodeNoerror →
      resolved.ans.map DnsAnswer.untimed = resolved'.ans.map DnsAnswer.untimed := by
    intro noerror
    have whole : entry.ans = resolved.ans := by
      rw [stored noerror, List.take_of_length_le few]
    rw [ans', CacheEntry.untimed_serve, whole]
    exact congrArg _ (List.take_of_length_le few).symm
  obtain ⟨records, truncated⟩ := replyAnswers_untimed same q call.isUdp call.respCap
  have count := congrArg List.length records
  rw [List.length_map, List.length_map] at count
  rw [rcode', repeats.isUdp, repeats.respCap, ← truncated, ← count] at reply'
  obtain ⟨rawOff, inside, _⟩ := dnsParseQuery_rawLen_le accepted
  exact reply.untimed reply' repeats.query (rawOff ▸ inside) records

/-- A query for "b" is resolved, and asked again a second later: the two replies are not the
same. -/
theorem cached_reply_agrees_example :
    ∃ fresh cached next next' records,
      dnsResolveQuery disabledBloom addressAsk [inetNtop fun _ => 1] udpCallForB
        (dnsCacheInit disabledBloom (CacheState.start ())) () = some (some fresh, next, ()) ∧
      dnsResolveQuery disabledBloom addressAsk [inetNtop fun _ => 1]
        { udpCallForB with readAt := 1 } next () = some (some cached, next', ()) ∧
      fresh.bytes ≠ cached.bytes ∧
      SameOutside {index | InTtlField infoForB.q.name records (dnsHdrLen + infoForB.q.rawLen) index}
        fresh.bytes cached.bytes := by
  obtain ⟨resolved, next, ⟨⟩, after, fresh, _, records, answered, replied, refines, _, agrees⟩ :=
    cached_reply_agrees addressAsk [inetNtop fun _ => 1]
      (by decide : dnsParseQuery udpCallForB.query udpCallForB.query.length = some infoForB)
      (by decide) (by decide) () (dnsCacheInit_refines disabledLaw (CacheState.start ()))
  have upstream : (answerQuestion disabledBloom addressAsk [inetNtop fun _ => 1] udpCallForB
      infoForB (dnsCacheInit disabledBloom (CacheState.start ())) ()).map
        (fun result => result.1.resolution.isSome) = some true := by
    decide +kernel
  have served : ((answerQuestion disabledBloom addressAsk [inetNtop fun _ => 1] udpCallForB
      infoForB (dnsCacheInit disabledBloom (CacheState.start ())) ()).bind fun first =>
        (answerQuestion disabledBloom addressAsk [inetNtop fun _ => 1]
          { udpCallForB with readAt := 1 } infoForB first.2.1 ()).map fun second =>
            (second.1.ok, second.1.rcode, second.1.resolution.isSome)) =
      some (true, dnsRcodeNoerror, false) := by
    decide +kernel
  have differ : ((dnsResolveQuery disabledBloom addressAsk [inetNtop fun _ => 1] udpCallForB
      (dnsCacheInit disabledBloom (CacheState.start ())) ()).bind fun first =>
        (dnsResolveQuery disabledBloom addressAsk [inetNtop fun _ => 1]
          { udpCallForB with readAt := 1 } first.2.1 ()).map fun second =>
            decide (first.1.map BuiltResponse.bytes = second.1.map BuiltResponse.bytes)) =
      some false := by
    decide +kernel
  rw [answered] at upstream served
  rw [replied] at differ
  obtain ⟨resolved', next', ⟨⟩, after', answered', _, _, went⟩ :=
    @answerQuestion_outcome _ _ _ disabledLaw addressAsk [inetNtop fun _ => 1]
      { udpCallForB with readAt := 1 } infoForB () next after refines
  simp only [Option.bind_some, answered', Option.map_some, Option.some.injEq, Prod.mk.injEq]
    at upstream served
  have outcome := (went.resolve_left fun foreign => foreign.1 rfl).2
  obtain ⟨entry, found, live⟩ : ∃ entry,
      after.lookup (udpCallForB.resolveCall infoForB).key = some entry ∧ 1 < entry.expires := by
    cases outcome with
    | unsupported _ => cases served.2.1
    | @hit entry _ found live => exact ⟨entry, found, live⟩
    | failed _ _ => cases served.1
    | resolved _ _ _ => cases served.2.2
  obtain ⟨cached, next'', ⟨⟩, replied', same⟩ := agrees upstream entry found
    { udpCallForB with readAt := 1 } next after () ⟨rfl, rfl, rfl⟩ refines found live
  refine ⟨fresh, cached, next, next'', records, replied, replied', ?_, same⟩
  simp only [Option.bind_some, replied', Option.map_some, Option.some.injEq,
    decide_eq_false_iff_not] at differ
  exact differ

end FizzDns
