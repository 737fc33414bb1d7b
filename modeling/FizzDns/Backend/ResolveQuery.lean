import FizzDns.Msg.Response
import FizzDns.Resolver.Outcome

/-!
# Answering a query

`dns_resolve_query`, the one entry of the backend: parse the query, resolve its question and
build a response. A query that does not parse gets no reply; every other one does
(`dnsResolveQuery_reply`), whatever is in the cache and whatever the servers say, because
the question of an accepted query is short (`dnsParseQuery_rawLen_le`).
-/

namespace FizzDns

/-- A call of `dns_resolve_query`: the query, the size of the response buffer, the transport,
and what the calls below it meet: two clock readings and whether `calloc` succeeds. -/
structure QueryCall where
  query : Bytes
  respCap : Nat
  isUdp : Bool
  readAt : Int
  storedAt : Int
  allocates : Bool

/-- The call of `dns_resolve` that is made for a question. -/
def QueryCall.resolveCall (call : QueryCall) (q : DnsQueryInfo) : ResolveCall :=
  ⟨q.q.name, q.q.qtype, dnsMaxAnswers, call.readAt, call.storedAt, call.allocates⟩

section

variable {β σ : Type} (bloom : BloomOps β) (ask : Ask σ) (roots : List Bytes)

/-- The answers and the rcode that `dns_resolve_query` finds for a question: only class IN is
resolved. -/
def answerQuestion (call : QueryCall) (q : DnsQueryInfo) (cache : CacheState β) (s : σ) :
    Option (Resolved × CacheState β × σ) :=
  if q.q.qclass ≠ dnsClassIn then some (⟨true, [], dnsRcodeNotimp, none⟩, cache, s)
  else dnsResolve bloom ask roots (call.resolveCall q) cache s

/-- `dns_resolve_query`: the response, or `none` for `DNS_DROP`. -/
def dnsResolveQuery (call : QueryCall) (cache : CacheState β) (s : σ) :
    Option (Option BuiltResponse × CacheState β × σ) :=
  match dnsParseQuery call.query call.query.length with
  | none => some (none, cache, s)
  | some q => do
      let (resolved, cache, s) ← answerQuestion bloom ask roots call q cache s
      some (dnsBuildResponse call.query call.query.length q resolved.ans resolved.rcode call.isUdp
        call.respCap, cache, s)

end

/-! ## The reply -/

/-- The size that a transport allows for the response to a query. -/
def udpLimit (q : DnsQueryInfo) : Nat :=
  if q.hasEdns then min 1232 (max 512 q.ednsUdpPayload.toNat) else 512

/-- What a reply to an accepted query is: a header that answers it, its question as it was
sent, some records, an OPT record if the query had one, and nothing more; and it fits the
buffer and the transport. -/
structure ReplyTo (call : QueryCall) (q : DnsQueryInfo) (bytes : Bytes) (header : DnsHeader)
    (records : List DnsAnswer) : Prop where
  read : dnsParseHeader bytes bytes.length = some header
  id : header.id = q.hdr.id
  response : header.flags &&& dnsFlagQr ≠ 0
  opcode : header.flags &&& dnsOpcodeMask = 0
  qdcount : header.qdcount = 1
  question : slice bytes dnsHdrLen q.q.rawLen = slice call.query dnsHdrLen q.q.rawLen
  layout : bytes = headerBytes header ++ (slice call.query dnsHdrLen q.q.rawLen ++
    (records.flatMap (recordBytes q.q.name) ++ responseOpt q))
  ancount : header.ancount.toNat = records.length
  arcount : header.arcount = if q.hasEdns then 1 else 0
  opt : q.hasEdns = true → ∃ rr,
    dnsParseRr bytes bytes.length (bytes.length - dnsOptRrLen) = some (rr, bytes.length) ∧
      rr.type = dnsTypeOpt ∧ rr.name = DnsName.root
  fits : bytes.length ≤ call.respCap
  udp : call.isUdp = true → bytes.length ≤ udpLimit q

theorem effectiveCap_le_udpLimit (q : DnsQueryInfo) (cap : Nat) :
    effectiveCap q true cap ≤ udpLimit q := by
  have min : dnsEdnsMinPayload.toNat = 512 := rfl
  have ours : dnsEdnsOurUdpPayload.toNat = 1232 := rfl
  unfold effectiveCap udpLimit dnsClassicUdpLimit
  simp only [UInt16.lt_iff_toNat_lt, apply_ite UInt16.toNat, min, ours]
  split_ifs <;> omega

/-- What the builder makes of an accepted query and any short list of answers is a reply. -/
theorem dnsBuildResponse_replyTo {call : QueryCall} {q : DnsQueryInfo}
    (accepted : dnsParseQuery call.query call.query.length = some q) {ans : List DnsAnswer}
    (few : ans.length ≤ dnsMaxAnswers) (rcode : Nat) (room : 512 ≤ call.respCap)
    (size : call.respCap < 2 ^ 64) :
    ∃ built, dnsBuildResponse call.query call.query.length q ans rcode call.isUdp call.respCap =
        some built ∧
      ReplyTo call q built.bytes
        (replyHeader q (replyAnswers q ans rcode call.isUdp call.respCap).2 rcode
          (replyAnswers q ans rcode call.isUdp call.respCap).1.length)
        (replyAnswers q ans rcode call.isUdp call.respCap).1 := by
  obtain ⟨rawOff, inside, short⟩ := dnsParseQuery_rawLen_le accepted
  obtain ⟨built, builds, bytes, within⟩ :=
    dnsBuildResponse_parts ans rcode call.isUdp inside (short.trans (by decide)) room size
  obtain ⟨least, most⟩ := effectiveCap_bounds q call.isUdp room
  obtain ⟨qr, _, opcode, _⟩ := responseFlags_bits q.recursionDesired
    (replyAnswers q ans rcode call.isUdp call.respCap).2 rcode
  have sent := (replyAnswers_sublist q ans rcode call.isUdp call.respCap).length_le
  obtain ⟨⟨records, truncated⟩, chosen⟩ :
    ∃ chosen, replyAnswers q ans rcode call.isUdp call.respCap = chosen := ⟨_, rfl⟩
  simp only [chosen] at bytes within qr opcode sent ⊢
  rw [rawOff] at bytes inside
  have question : (slice call.query dnsHdrLen q.q.rawLen).length = q.q.rawLen := length_slice inside
  have shared := answerLimit_add_responseOpt q call.isUdp room
  have total : built.bytes.length = dnsHdrLen + q.q.rawLen +
      (records.flatMap (recordBytes q.q.name)).length + (responseOpt q).length := by
    rw [bytes]
    simp only [List.length_append, length_headerBytes, question]
    omega
  have limited : built.bytes.length ≤ effectiveCap q call.isUdp call.respCap := by
    omega
  refine ⟨built, builds, ?_⟩
  constructor
  case read =>
      rw [bytes]
      exact dnsParseHeader_headerBytes _ _ (by rw [← bytes, total]; omega)
  case id | qdcount | arcount => rfl
  case response => exact qr
  case opcode => exact opcode
  case question =>
      rw [bytes]
      conv_rhs => rw [← slice_append_left (slice call.query dnsHdrLen q.q.rawLen)
        (records.flatMap (recordBytes q.q.name) ++ responseOpt q), question]
      exact slice_append_right (headerBytes _) _ 0 _
  case layout => exact bytes
  case ancount =>
      rw [dnsMaxAnswers] at few
      simp only [replyHeader, UInt16.toNat_ofNat']
      omega
  case opt =>
      intro edns
      obtain ⟨front, frontEq⟩ : ∃ front, front = headerBytes (replyHeader q truncated rcode
        records.length) ++ slice call.query dnsHdrLen q.q.rawLen ++
          records.flatMap (recordBytes q.q.name) := ⟨_, rfl⟩
      have whole : built.bytes = front ++ optRecord dnsEdnsOurUdpPayload
          (if q.ednsDo then 0x8000 else 0) := by
        rw [bytes, frontEq, responseOpt, if_pos edns]
        simp only [List.append_assoc]
      have ends : built.bytes.length = front.length + dnsOptRrLen := by
        rw [whole, List.length_append]
        rfl
      have parsed := dnsParseRr_optRecord front dnsEdnsOurUdpPayload
        (if q.ednsDo then 0x8000 else 0) (Nat.le_of_eq ends.symm)
      rw [← whole, ← ends] at parsed
      rw [show built.bytes.length - dnsOptRrLen = front.length by omega]
      exact ⟨_, parsed, rfl, rfl⟩
  case fits => exact limited.trans most
  case udp =>
      intro udp
      rw [udp] at limited
      exact limited.trans (effectiveCap_le_udpLimit q _)

/-- Answering a question does not fail, and finds at most as many answers as the buffer holds. -/
theorem answerQuestion_outcome {β σ : Type} {bloom : BloomOps β} {law : FilterLaw bloom}
    (ask : Ask σ) (roots : List Bytes) (call : QueryCall) (q : DnsQueryInfo) (up : σ)
    {s : CacheState β} {cache : LruCache} (refines : Refines law s cache) :
    ∃ resolved next up' after,
      answerQuestion bloom ask roots call q s up = some (resolved, next, up') ∧
      Refines law next after ∧ resolved.ans.length ≤ dnsMaxAnswers ∧
      (q.q.qclass ≠ dnsClassIn ∧ resolved = ⟨true, [], dnsRcodeNotimp, none⟩ ∧ after = cache ∨
        q.q.qclass = dnsClassIn ∧ Outcome ask (call.resolveCall q) cache resolved after) := by
  unfold answerQuestion
  split
  · next foreign => exact ⟨_, s, up, cache, rfl, refines, Nat.zero_le _, Or.inl ⟨foreign, rfl, rfl⟩⟩
  · next known =>
      obtain ⟨resolved, next, up', after, called, result, outcome⟩ :=
        dnsResolve_outcome ask roots (call.resolveCall q) up refines
      exact ⟨resolved, next, up', after, called, result, outcome.length_le (Nat.le_refl _),
        Or.inr ⟨not_not.mp known, outcome⟩⟩

/-- **Every accepted query gets a reply.** Whatever the query, the cache and the servers, with
a response buffer of at least 512 bytes `dns_resolve_query` replies just when `dns_parse_query`
accepts the query, and the reply answers it. -/
theorem dnsResolveQuery_reply {β σ : Type} {bloom : BloomOps β} {law : FilterLaw bloom}
    (ask : Ask σ) (roots : List Bytes) (call : QueryCall) (room : 512 ≤ call.respCap)
    (size : call.respCap < 2 ^ 64) (up : σ) {s : CacheState β} {cache : LruCache}
    (refines : Refines law s cache) :
    ∃ reply next up' after,
      dnsResolveQuery bloom ask roots call s up = some (reply, next, up') ∧
      Refines law next after ∧
      (reply.isSome ↔ (dnsParseQuery call.query call.query.length).isSome) ∧
      ∀ q built, dnsParseQuery call.query call.query.length = some q → reply = some built →
        ∃ header records, ReplyTo call q built.bytes header records := by
  unfold dnsResolveQuery
  cases parsed : dnsParseQuery call.query call.query.length with
  | none => exact ⟨none, s, up, cache, rfl, refines, by simp, by simp⟩
  | some q =>
      obtain ⟨resolved, next, up', after, answered, result, few, _⟩ :=
        @answerQuestion_outcome _ _ bloom law ask roots call q up s cache refines
      obtain ⟨built, builds, replies⟩ :=
        dnsBuildResponse_replyTo parsed few resolved.rcode room size
      simp only [answered, builds, Option.bind_eq_bind, Option.bind_some]
      refine ⟨_, next, up', after, rfl, result, by simp, ?_⟩
      intro q' built' sameQ sameBuilt
      cases sameQ
      cases sameBuilt
      exact ⟨_, _, replies⟩

/-- A query over UDP for the addresses of "b", with a buffer of 512 bytes. -/
def udpCallForB : QueryCall :=
  ⟨queryForB, 512, true, 0, 0, true⟩

/-- Every server gives this reply: the name has the address 192.0.2.1, for 300 seconds. -/
def addressAsk : Ask Unit :=
  askVia fun _ name _ s => (⟨some 7, true, [.datagram
    ([0, 7, 0x80, 0, 0, 1, 0, 1, 0, 0, 0, 0] ++ wireName name.chars ++ [0, 1, 0, 1,
      0xC0, 0x0C, 0, 1, 0, 1, 0, 0, 1, 44, 0, 4, 192, 0, 2, 1])]⟩, s)

/-- The query for "b" is resolved, and the reply has one record. -/
theorem dnsResolveQuery_reply_example :
    ∃ built next after header records,
      dnsResolveQuery disabledBloom addressAsk [inetNtop fun _ => 1] udpCallForB
        (dnsCacheInit disabledBloom (CacheState.start ())) () = some (some built, next, ()) ∧
      Refines disabledLaw next after ∧
      ReplyTo udpCallForB infoForB built.bytes header records ∧ records.length = 1 := by
  obtain ⟨reply, next, ⟨⟩, after, replied, refines, parses, answers⟩ :=
    dnsResolveQuery_reply addressAsk [inetNtop fun _ => 1] udpCallForB (by decide) (by decide) ()
      (dnsCacheInit_refines disabledLaw (CacheState.start ()))
  have accepted : dnsParseQuery udpCallForB.query udpCallForB.query.length = some infoForB := by
    decide
  obtain ⟨built, rfl⟩ := Option.isSome_iff_exists.mp (parses.mpr (by rw [accepted]; rfl))
  obtain ⟨header, records, replyTo⟩ := answers infoForB built accepted rfl
  have count : (dnsResolveQuery disabledBloom addressAsk [inetNtop fun _ => 1] udpCallForB
      (dnsCacheInit disabledBloom (CacheState.start ())) ()).map (fun result =>
        (result.1.bind fun built => dnsParseHeader built.bytes built.bytes.length).map
          DnsHeader.ancount) = some (some 1) := by
    decide +kernel
  simp only [replied, Option.map_some, Option.bind_some, replyTo.read, Option.some.injEq] at count
  refine ⟨built, next, after, header, records, replied, refines, replyTo, ?_⟩
  rw [← replyTo.ancount, count]
  rfl

end FizzDns
