import FizzDns.Backend.ResolveQuery
import FizzDns.Resolver.Facts

/-!
# Replies over TCP

A client that got a truncated reply asks again over TCP, where there is room for every answer
(`replyAnswers_tcp_iff`). What can still keep an answer out is a name that was decoded from
a reply and that `dns_name_encode` refuses: `dns_build_response` then sets TC as if the buffer
were full. `tcp_reply_complete_iff` says for every reachable cache and all replies that
nothing else does.
-/

namespace FizzDns

/-- `DNS_MAX_TCP_MSG_LEN`. -/
def dnsMaxTcpMsgLen : Nat := 65535

/-- A reply leaves nothing out: TC is not set and, with rcode NOERROR, the records are all the
answers. -/
def Complete (header : DnsHeader) (records ans : List DnsAnswer) : Prop :=
  header.flags &&& dnsFlagTc = 0 ∧ (header.flags &&& dnsRcodeMask = 0 → records = ans)

/-- Over TCP all answers are sent if all can be encoded. -/
theorem replyAnswers_tcp_iff {q : DnsQueryInfo} {ans : List DnsAnswer}
    (few : ans.length ≤ dnsMaxAnswers) (short : dnsHdrLen + q.q.rawLen ≤ 500) (rcode : Nat) :
    (replyAnswers q ans rcode false dnsMaxTcpMsgLen).2 = false ∧
        (rcode = dnsRcodeNoerror → (replyAnswers q ans rcode false dnsMaxTcpMsgLen).1 = ans) ↔
      (rcode = dnsRcodeNoerror → ∀ answer ∈ ans, Emittable q.q.name answer) := by
  have shared := answerLimit_add_responseOpt q false (show 512 ≤ dnsMaxTcpMsgLen by decide)
  have whole : effectiveCap q false dnsMaxTcpMsgLen = 65535 := rfl
  have opt : (responseOpt q).length ≤ 11 := by
    rw [length_responseOpt]
    split <;> decide
  unfold replyAnswers
  by_cases noerror : rcode = dnsRcodeNoerror
  · simp only [noerror, ↓reduceIte, forall_const]
    constructor
    · rintro ⟨_, all⟩ answer member
      refine (sentAnswers_emittable ?_ ?_).1 answer (all ▸ member) <;> omega
    · intro emittable
      have all := replyAnswers_all emittable short
        (show 511 + 522 * ans.length ≤ dnsMaxTcpMsgLen by
          rw [dnsMaxAnswers] at few
          rw [dnsMaxTcpMsgLen]
          omega) (by decide)
      rw [replyAnswers, if_pos rfl] at all
      rw [all]
      exact ⟨rfl, rfl⟩
  · simp [noerror]

/-- Everything that a call is supplied with can be sent: the answers of a live cache entry for
its question, and the records that the replies of a resolution contribute to a positive
answer. -/
structure SupplyEmittable (call : QueryCall) (q : DnsQueryInfo) (cache : LruCache)
    (resolution : Option Resolution) : Prop where
  cached : q.q.qclass = dnsClassIn → ∀ entry, cache.lookup (call.resolveCall q).key = some entry →
    call.readAt < entry.expires → ∀ answer ∈ entry.ans, Emittable q.q.name answer
  fresh : ∀ made, resolution = some made → made.rcode = dnsRcodeNoerror →
    ∀ source ∈ contributions dnsMaxAnswers made.trail, Emittable q.q.name source.2

section

variable {σ : Type} {ask : Ask σ} {call : QueryCall} {q : DnsQueryInfo} {cache after : LruCache}
  {resolved : Resolved}

/-- What is handed back for a question can be sent if what it was supplied with can be. -/
theorem Outcome.emittable_iff
    (facts : ∀ entry ∈ cache.entries, entry.IsFact ∧ ServedType entry.qtype)
    (known : q.q.qclass = dnsClassIn)
    (outcome : Outcome ask (call.resolveCall q) cache resolved after) :
    (resolved.rcode = dnsRcodeNoerror → ∀ answer ∈ resolved.ans, Emittable q.q.name answer) ↔
      SupplyEmittable call q cache resolved.resolution := by
  cases outcome with
  | unsupported foreign =>
      constructor
      · refine fun _ => ⟨fun _ entry found _ => ?_, by simp⟩
        have sameType : entry.qtype = (call.resolveCall q).qtype :=
          congrArg Prod.snd (LruCache.key_of_lookup found)
        have served := (facts entry (LruCache.mem_of_lookup found)).2
        rw [sameType] at served
        exact absurd served foreign
      · simp
  | @hit entry _ found live =>
      have short : entry.ans.length ≤ dnsMaxAnswers := by
        rcases (facts entry (LruCache.mem_of_lookup found)).1 with ⟨_, empty⟩ | ⟨_, _, few⟩
        · simp [empty]
        · exact few
      have untimed := entry.untimed_serve dnsMaxAnswers call.readAt
      rw [List.take_of_length_le short] at untimed
      constructor
      · intro sendable
        refine ⟨fun _ other sameKey _ answer member => ?_, by simp⟩
        rw [found] at sameKey
        cases sameKey
        rcases (facts entry (LruCache.mem_of_lookup found)).1 with ⟨_, empty⟩ | ⟨noerror, _⟩
        · rw [empty] at member
          cases member
        · have listed := List.mem_map_of_mem (f := DnsAnswer.untimed) member
          rw [← untimed] at listed
          obtain ⟨served, inside, same⟩ := List.mem_map.mp listed
          exact (sendable noerror served inside).of_untimed same.symm
      · intro supply _ answer member
        have listed := List.mem_map_of_mem (f := DnsAnswer.untimed) member
        change _ ∈ (entry.serve dnsMaxAnswers call.readAt).ans.map _ at listed
        rw [untimed] at listed
        obtain ⟨stored, inside, same⟩ := List.mem_map.mp listed
        exact (supply.cached known entry found live stored inside).of_untimed same.symm
  | failed _ stale =>
      constructor
      · refine fun _ => ⟨fun _ entry found live => ?_, by simp⟩
        exact absurd (stale entry found) (Int.not_le.mpr live)
      · simp
  | @resolved resolution _ stale follows =>
      have answers : resolution.ans = _ := follows.ans_eq
      constructor
      · intro sendable
        refine ⟨fun _ entry found live => ?_, ?_⟩
        · exact absurd (stale entry found) (Int.not_le.mpr live)
        · rintro made same noerror source member
          cases same
          refine sendable noerror source.2 ?_
          rw [answers]
          exact List.mem_map_of_mem member
      · intro supply noerror answer member
        simp only [answers] at member
        obtain ⟨source, inside, rfl⟩ := List.mem_map.mp member
        exact supply.fresh resolution rfl noerror source inside

theorem Outcome.rcode_lt (facts : ∀ entry ∈ cache.entries, entry.IsFact ∧ ServedType entry.qtype)
    (outcome : Outcome ask (call.resolveCall q) cache resolved after) : resolved.rcode < 16 := by
  have small : ∀ {rcode : Nat}, rcode = dnsRcodeNoerror ∨ rcode = dnsRcodeNxdomain →
      rcode < 16 := by
    rintro _ (rfl | rfl) <;> decide
  cases outcome with
  | unsupported _ => decide
  | hit _ found _ =>
      apply small
      rcases (facts _ (LruCache.mem_of_lookup found)).1 with ⟨denied, _⟩ | ⟨noerror, _⟩
      · exact Or.inr denied
      · exact Or.inl noerror
  | failed _ _ => decide
  | resolved _ _ follows => exact small follows.rcode_eq

end

theorem StoredBy.servedType {σ : Type} {ask : Ask σ} {call : ResolveCall} {resolution : Resolution}
    {entry : CacheEntry} (entered : StoredBy ask call resolution entry) :
    ServedType entry.qtype := by
  have sameType : entry.qtype = call.qtype := congrArg Prod.snd entered.key
  rw [sameType]
  exact entered.served

/-- **A reply over TCP is complete if its names can be encoded.** After any earlier calls and
whatever the servers reply, let an accepted query be answered over TCP with room for
`DNS_MAX_TCP_MSG_LEN` bytes. The reply has no TC and, with NOERROR, all the answers that
`dns_resolve` returned, if and only if the cache entry or the replies that supply them hold
only records with names that can be written behind the question. -/
theorem tcp_reply_complete_iff {β σ : Type} {bloom : BloomOps β} (law : FilterLaw bloom)
    (ask : Ask σ) (roots : List Bytes) (earlier : List ResolveCall) (filter : β) (up : σ)
    {call : QueryCall} {q : DnsQueryInfo}
    (accepted : dnsParseQuery call.query call.query.length = some q)
    (tcp : call.isUdp = false) (cap : call.respCap = dnsMaxTcpMsgLen) :
    ∃ history s up' cache,
      resolveRun bloom ask roots earlier (dnsCacheInit bloom (CacheState.start filter)) up =
        some (history, s, up') ∧
      Refines law s cache ∧
      ∃ resolved next up'' built header records,
        answerQuestion bloom ask roots call q s up' = some (resolved, next, up'') ∧
        dnsResolveQuery bloom ask roots call s up' = some (some built, next, up'') ∧
        ReplyTo call q built.bytes header records ∧
        (Complete header records resolved.ans ↔
          SupplyEmittable call q cache resolved.resolution) := by
  obtain ⟨history, s, up', cache, ran, refines, facts⟩ :=
    @resolveRun_entries _ _ bloom law ask roots
      (fun entry => entry.IsFact ∧ ServedType entry.qtype)
      (fun _ _ _ entered => ⟨entered.isFact, entered.servedType⟩) earlier up _ _
      (dnsCacheInit_refines law (CacheState.start filter)) (by simp [LruCache.empty])
  refine ⟨history, s, up', cache, ran, refines, ?_⟩
  obtain ⟨resolved, next, up'', after, answered, _, few, went⟩ :=
    @answerQuestion_outcome _ _ bloom law ask roots call q up' s cache refines
  have room : 512 ≤ call.respCap := by rw [cap]; decide
  have size : call.respCap < 2 ^ 64 := by rw [cap]; decide
  obtain ⟨built, builds, replies⟩ :=
    dnsBuildResponse_replyTo accepted few resolved.rcode room size
  refine ⟨resolved, next, up'', built, _, _, answered, ?_, replies, ?_⟩
  · simp only [dnsResolveQuery, accepted, answered, builds, Option.bind_eq_bind, Option.bind_some]
  obtain ⟨small, supplied⟩ : resolved.rcode < 16 ∧
      ((resolved.rcode = dnsRcodeNoerror → ∀ answer ∈ resolved.ans, Emittable q.q.name answer) ↔
        SupplyEmittable call q cache resolved.resolution) := by
    rcases went with ⟨foreign, rfl, _⟩ | ⟨known, outcome⟩
    · exact ⟨by decide, fun _ => ⟨fun known => absurd known foreign, by simp⟩, by simp⟩
    · exact ⟨outcome.rcode_lt facts, outcome.emittable_iff facts known⟩
  obtain ⟨_, _, short⟩ := dnsParseQuery_rawLen_le accepted
  rw [tcp, cap, ← supplied, ← replyAnswers_tcp_iff few (short.trans (by decide))]
  obtain ⟨_, _, _, _, tc, rcode⟩ := responseFlags_bits q.recursionDesired
    (replyAnswers q resolved.ans resolved.rcode false dnsMaxTcpMsgLen).2 resolved.rcode
  have flag : responseFlags q.recursionDesired
      (replyAnswers q resolved.ans resolved.rcode false dnsMaxTcpMsgLen).2 resolved.rcode &&&
        dnsFlagTc = 0 ↔
      (replyAnswers q resolved.ans resolved.rcode false dnsMaxTcpMsgLen).2 = false := by
    rw [← not_iff_not, Bool.not_eq_false]
    exact tc
  have code : responseFlags q.recursionDesired
      (replyAnswers q resolved.ans resolved.rcode false dnsMaxTcpMsgLen).2 resolved.rcode &&&
        dnsRcodeMask = 0 ↔ resolved.rcode = dnsRcodeNoerror := by
    rw [← UInt16.toNat_inj, rcode, Nat.mod_eq_of_lt small]
    rfl
  exact and_congr flag (imp_congr code Iff.rfl)

/-! ## A target that cannot be encoded -/

/-- A query over TCP for the addresses of "b". -/
def tcpCallForB : QueryCall :=
  ⟨queryForB, dnsMaxTcpMsgLen, false, 0, 0, true⟩

/-- The query for "b" is resolved, and the reply has its address and no TC. -/
theorem tcp_reply_complete_iff_example :
    ∃ history s cache,
      resolveRun disabledBloom addressAsk [inetNtop fun _ => 1] []
        (dnsCacheInit disabledBloom (CacheState.start ())) () = some (history, s, ()) ∧
      Refines disabledLaw s cache ∧
      ∃ resolved next built header records,
        answerQuestion disabledBloom addressAsk [inetNtop fun _ => 1] tcpCallForB infoForB s () =
          some (resolved, next, ()) ∧
        dnsResolveQuery disabledBloom addressAsk [inetNtop fun _ => 1] tcpCallForB s () =
          some (some built, next, ()) ∧
        ReplyTo tcpCallForB infoForB built.bytes header records ∧
        resolved.ans.length = 1 ∧ records.length = 1 ∧ header.flags &&& dnsFlagTc = 0 ∧
        (Complete header records resolved.ans ↔
          SupplyEmittable tcpCallForB infoForB cache resolved.resolution) := by
  obtain ⟨history, s, ⟨⟩, cache, ran, refines, resolved, next, ⟨⟩, built, header, records, answered,
    replied, replyTo, complete⟩ := tcp_reply_complete_iff disabledLaw addressAsk
      [inetNtop fun _ => 1] [] () () (by decide : dnsParseQuery tcpCallForB.query
        tcpCallForB.query.length = some infoForB) rfl rfl
  refine ⟨history, s, cache, ran, refines, resolved, next, built, header, records, answered,
    replied, replyTo, ?_⟩
  cases ran
  have answers : (answerQuestion disabledBloom addressAsk [inetNtop fun _ => 1] tcpCallForB
      infoForB (dnsCacheInit disabledBloom (CacheState.start ())) ()).map
        (fun result => result.1.ans.length) = some 1 := by
    decide +kernel
  have reply : (dnsResolveQuery disabledBloom addressAsk [inetNtop fun _ => 1] tcpCallForB
      (dnsCacheInit disabledBloom (CacheState.start ())) ()).map (fun result =>
        (result.1.bind fun built => dnsParseHeader built.bytes built.bytes.length).map fun header =>
          (header.flags &&& dnsFlagTc, header.ancount)) = some (some (0, 1)) := by
    decide +kernel
  simp only [answered, Option.map_some, Option.some.injEq] at answers
  simp only [replied, Option.map_some, Option.bind_some, replyTo.read, Option.some.injEq,
    Prod.mk.injEq] at reply
  refine ⟨answers, ?_, reply.1, complete⟩
  rw [← replyTo.ancount, reply.2]
  rfl

/-- A reply with an address of "b" and a CNAME of "b" whose target is the single label ".a". -/
def dottedTargetReply : Bytes :=
  [0, 7, 0x80, 0, 0, 1, 0, 2, 0, 0, 0, 0, 1, 98, 0, 0, 1, 0, 1] ++
    [0xC0, 0x0C, 0, 1, 0, 1, 0, 0, 1, 44, 0, 4, 192, 0, 2, 1] ++
    [0xC0, 0x0C, 0, 5, 0, 1, 0, 0, 1, 44, 0, 4, 2, 46, 97, 0]

/-- Every server gives this reply. -/
def dottedTargetAsk : Ask Unit :=
  askVia fun _ _ _ s => (⟨some 7, true, [.datagram dottedTargetReply]⟩, s)

/-- Two answers are returned, but the reply over TCP has one of them and TC. -/
theorem refused_target_truncates :
    dnsParseQuery tcpCallForB.query tcpCallForB.query.length = some infoForB ∧
    ∃ resolved built next next' header,
      answerQuestion disabledBloom dottedTargetAsk [inetNtop fun _ => 1] tcpCallForB infoForB
        (dnsCacheInit disabledBloom (CacheState.start ())) () = some (resolved, next, ()) ∧
      dnsResolveQuery disabledBloom dottedTargetAsk [inetNtop fun _ => 1] tcpCallForB
        (dnsCacheInit disabledBloom (CacheState.start ())) () = some (some built, next', ()) ∧
      dnsParseHeader built.bytes built.bytes.length = some header ∧
      resolved.rcode = dnsRcodeNoerror ∧ resolved.ans.length = 2 ∧
      header.flags &&& dnsFlagTc ≠ 0 ∧ header.ancount = 1 := by
  refine ⟨by decide, ?_⟩
  have answers : (answerQuestion disabledBloom dottedTargetAsk [inetNtop fun _ => 1] tcpCallForB
      infoForB (dnsCacheInit disabledBloom (CacheState.start ())) ()).map
        (fun result => (result.1.rcode, result.1.ans.length)) = some (dnsRcodeNoerror, 2) := by
    decide +kernel
  have reply : (dnsResolveQuery disabledBloom dottedTargetAsk [inetNtop fun _ => 1] tcpCallForB
      (dnsCacheInit disabledBloom (CacheState.start ())) ()).map (fun result =>
        (result.1.bind fun built => dnsParseHeader built.bytes built.bytes.length).map fun header =>
          (header.flags &&& dnsFlagTc, header.ancount)) = some (some (dnsFlagTc, 1)) := by
    decide +kernel
  obtain ⟨⟨resolved, next, ⟨⟩⟩, answered, facts⟩ := Option.map_eq_some_iff.mp answers
  obtain ⟨⟨built, next', ⟨⟩⟩, replied, shown⟩ := Option.map_eq_some_iff.mp reply
  obtain ⟨noerror, two⟩ := Prod.mk.inj facts
  obtain ⟨header, read, bits⟩ := Option.map_eq_some_iff.mp shown
  obtain ⟨built, rfl, parsed⟩ := Option.bind_eq_some_iff.mp read
  obtain ⟨tc, one⟩ := Prod.mk.inj bits
  exact ⟨resolved, built, next, next', header, answered, replied, parsed, noerror, two,
    by rw [tc]; decide, one⟩

end FizzDns
