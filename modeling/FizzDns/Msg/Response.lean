import FizzDns.Msg.NameGrammar
import FizzDns.Msg.RoundTrip

/-!
# Responses to accepted queries

`readResponse` puts the parsers of the source together to one reader of responses. Read
by it, what `dns_build_response` makes of an accepted query and a list of answers is the
query's question, a prefix of the answers and the server's own OPT record
(`dnsBuildResponse_reads`). The prefix is the longest one that the size limit leaves room
for.

The only loss is a trailing dot: `dns_name_encode` accepts "example.com." and writes what
it writes for "example.com" (`dotted_owner_changes`).
-/

namespace FizzDns

/-! ## The reader -/

/-- What a reader finds in a response. -/
structure ReadResponse where
  header : DnsHeader
  question : DnsQuestion
  answers : List DnsRr
  additional : List DnsRr
  ending : Nat
  deriving DecidableEq

/-- A reader of responses without authority records, made of the parsers of the source. -/
def readResponse (msg : Bytes) : Option ReadResponse := do
  let header ← dnsParseHeader msg msg.length
  let (name, after) ← decodeName msg msg.length dnsHdrLen
  let behind ← dnsSkipQuestion msg msg.length dnsHdrLen
  let (answers, next) ← parseRecords msg msg.length header.ancount.toNat behind
  let (additional, ending) ← parseRecords msg msg.length header.arcount.toNat next
  some
    { header := header
      question :=
        { name := name
          qtype := rd16 msg after
          qclass := rd16 msg (after + 2)
          rawOff := dnsHdrLen
          rawLen := behind - dnsHdrLen }
      answers := answers
      additional := additional
      ending := ending }

/-- A written header reads back. -/
theorem dnsParseHeader_headerBytes (header : DnsHeader) (body : Bytes) {len : Nat}
    (whole : dnsHdrLen ≤ len) : dnsParseHeader (headerBytes header ++ body) len = some header := by
  obtain ⟨id, flags, qdcount, ancount, nscount, arcount⟩ := header
  have field : ∀ (before : Bytes) (value : UInt16) (after : Bytes),
      rd16 (before ++ (wr16 value ++ after)) before.length = value :=
    fun before value after => (rd16_append_right before _ 0).trans (rd16_wr16 _ _)
  rw [dnsParseHeader, if_neg (Nat.not_lt.mpr whole)]
  simp only [headerBytes, List.append_assoc, Option.some.injEq, DnsHeader.mk.injEq]
  refine ⟨field [] _ _, field (wr16 id) _ _, field (wr16 id ++ wr16 flags) _ _,
    field (wr16 id ++ wr16 flags ++ wr16 qdcount) _ _,
    field (wr16 id ++ wr16 flags ++ wr16 qdcount ++ wr16 ancount) _ _,
    field (wr16 id ++ wr16 flags ++ wr16 qdcount ++ wr16 ancount ++ wr16 nscount) _ _⟩

/-- An OPT record reads back. -/
theorem dnsParseRr_optRecord (front : Bytes) (payload : UInt16) (ttl : UInt32) {len : Nat}
    (inside : front.length + dnsOptRrLen ≤ len) :
    dnsParseRr (front ++ optRecord payload ttl) len front.length =
      some (⟨DnsName.root, dnsTypeOpt, payload, ttl, 0, front.length + dnsOptRrLen⟩,
        front.length + dnsOptRrLen) := by
  rw [dnsOptRrLen] at inside
  have shape : front ++ optRecord payload ttl =
      (front ++ [0]) ++ (wr16 dnsTypeOpt ++ (wr16 payload ++ (wr32 ttl ++
        (wr16 (UInt16.ofNat ([] : Bytes).length) ++ ([] ++ []))))) := by
    simp only [optRecord, List.append_assoc]
    rfl
  have decoded : decodeName (front ++ optRecord payload ttl) len front.length =
      some (DnsName.root, (front ++ [0]).length) := by
    rw [List.length_append]
    exact @decodeName_labels front _ [] len (by simp) (by simp; omega) (Nat.zero_le _)
  rw [shape] at decoded ⊢
  rw [dnsParseRr_fields (by simp) (by simp; omega) decoded]
  simp [dnsOptRrLen]

/-! ## The question of an accepted query -/

/-- A text in lower case is stored in lower case. -/
theorem foldCase_ofText {text : Bytes} (lower : foldCase text = text) :
    foldCase (DnsName.ofText text).chars = (DnsName.ofText text).chars := by
  rw [foldCase_eq_self_iff] at lower ⊢
  intro byte member
  exact lower byte ((List.takeWhile_sublist _).subset ((List.take_sublist _ _).subset member))

/-- What `dns_parse_query` has checked of the question, and where it found it. -/
theorem dnsParseQuery_question {query : Bytes} {q : DnsQueryInfo}
    (accepted : dnsParseQuery query query.length = some q) :
    ∃ after, decodeName query query.length dnsHdrLen = some (q.q.name, after) ∧
      after + 4 ≤ query.length ∧ q.q.qtype = rd16 query after ∧
      q.q.qclass = rd16 query (after + 2) ∧
      q.q.rawOff = dnsHdrLen ∧ q.q.rawLen = after + 4 - dnsHdrLen ∧
      q.recursionDesired = decide (q.hdr.flags &&& dnsFlagRd ≠ 0) := by
  unfold dnsParseQuery at accepted
  split at accepted
  · cases accepted
  next hdr _ =>
  simp only [Option.ite_none_left_eq_some] at accepted
  obtain ⟨_, _, _, accepted⟩ := accepted
  split at accepted
  · cases accepted
  next name after decoded =>
  simp only [Option.ite_none_left_eq_some] at accepted
  obtain ⟨inside, accepted⟩ := accepted
  cases accepted
  exact ⟨after, decoded, Nat.not_lt.mp inside, rfl, rfl, rfl, rfl, rfl⟩

/-- The header of an accepted query, as far as the parser has read it. -/
theorem dnsParseQuery_header {query : Bytes} {q : DnsQueryInfo}
    (accepted : dnsParseQuery query query.length = some q) :
    q.hdr.id = rd16 query 0 ∧ q.hdr.flags = rd16 query 2 ∧ q.hdr.qdcount = rd16 query 4 ∧
      q.hdr.qdcount = 1 ∧ dnsHdrLen ≤ query.length := by
  unfold dnsParseQuery at accepted
  split at accepted
  · cases accepted
  next hdr parsed =>
  obtain ⟨long, read⟩ := Option.ite_none_left_eq_some.mp parsed
  cases read
  simp only [Option.ite_none_left_eq_some] at accepted
  obtain ⟨_, _, single, accepted⟩ := accepted
  split at accepted
  · cases accepted
  simp only [Option.ite_none_left_eq_some] at accepted
  obtain ⟨_, accepted⟩ := accepted
  cases accepted
  exact ⟨rfl, rfl, rfl, not_not.mp single, Nat.not_lt.mp long⟩

/-- The question of an accepted query: at most 256 bytes of labels, a pointer in place of the
zero byte, type and class. -/
theorem dnsParseQuery_rawLen_le {query : Bytes} {q : DnsQueryInfo}
    (accepted : dnsParseQuery query query.length = some q) :
    q.q.rawOff = dnsHdrLen ∧ q.q.rawOff + q.q.rawLen ≤ query.length ∧
      dnsHdrLen + q.q.rawLen ≤ 274 := by
  obtain ⟨after, decoded, inside, _, _, rawOff, rawLen, _⟩ := dnsParseQuery_question accepted
  obtain ⟨⟨text, next⟩, name, same⟩ := Option.map_eq_some_iff.mp decoded
  obtain ⟨-, rfl⟩ := Prod.mk.inj same
  obtain ⟨labels, pointers, expands, _, rfl, short⟩ := dnsNameDecode_nameAt (Nat.le_refl _) name
  have wire := length_wireLabels_le (expands.valid (Nat.le_refl _))
  have least := expands.lt_next
  have most := expands.next_le (Nat.le_refl _)
  rw [dnsMaxName] at short
  rw [dnsHdrLen] at *
  omega

/-- The bytes of a question without a pointer: labels, a zero byte, type and class. -/
theorem dnsParseQuery_labels {query : Bytes} {q : DnsQueryInfo}
    (accepted : dnsParseQuery query query.length = some q)
    (plain : namePointer query query.length query.length dnsHdrLen = false) :
    ∃ labels rest, (∀ label ∈ labels, LabelOk label) ∧
      (appendLabels [] labels).length ≤ dnsMaxName ∧
      DnsName.ofText (appendLabels [] labels) = q.q.name ∧
      slice query q.q.rawOff q.q.rawLen = wireLabels labels ++ 0 :: rest ∧ rest.length = 4 ∧
      rd16 rest 0 = q.q.qtype ∧ rd16 rest 2 = q.q.qclass ∧
      q.q.rawLen = (wireLabels labels).length + 5 ∧ q.q.rawOff + q.q.rawLen ≤ query.length := by
  obtain ⟨after, decoded, inside, qtype, qclass, rawOff, rawLen, _⟩ :=
    dnsParseQuery_question accepted
  rw [decodeName, dnsNameDecode, if_neg (by decide), Option.map_eq_some_iff] at decoded
  obtain ⟨⟨text, next⟩, loop, named⟩ := decoded
  obtain ⟨stored, rfl⟩ := Prod.mk.inj named
  obtain ⟨labels, valid, rfl, short, rfl, _, bytes⟩ :=
    nameDecodeLoop_plain (Nat.le_refl _) (by decide) loop plain (by simp [dnsHdrLen])
  have size : q.q.rawLen = (wireLabels labels).length + 1 + 4 := by omega
  refine ⟨labels, slice query (dnsHdrLen + (wireLabels labels).length + 1) 4, valid,
    Nat.le_of_lt_succ short, stored, ?_, length_slice inside, ?_, ?_, size, by omega⟩
  · rw [rawOff, size, slice_add, bytes, List.append_assoc, Nat.add_assoc]
    rfl
  · rw [rd16_slice (by omega), qtype, Nat.add_zero]
  · rw [rd16_slice (by omega), qclass]

/-! ## The answers of a response -/

/-- The header of a response with `count` of the answers. -/
def responseHeader (q : DnsQueryInfo) (ans : List DnsAnswer) (count : Nat) : DnsHeader where
  id := q.hdr.id
  flags := responseFlags q.recursionDesired (decide (count < ans.length)) dnsRcodeNoerror
  qdcount := 1
  ancount := UInt16.ofNat count
  nscount := 0
  arcount := if q.hasEdns then 1 else 0

/-- A question leaves room for a response: the response is the header, the question, a
prefix of the answers and the OPT record, and the prefix is as long as the limit allows. -/
theorem dnsBuildResponse_shape {query : Bytes} {q : DnsQueryInfo} {ans : List DnsAnswer}
    (isUdp : Bool) {cap : Nat} (sendable : ∀ answer ∈ ans, Sendable answer)
    (inside : q.q.rawOff + q.q.rawLen ≤ query.length) (short : dnsHdrLen + q.q.rawLen ≤ 500)
    (room : 512 ≤ cap) (size : cap < 2 ^ 64) :
    ∃ built count,
      dnsBuildResponse query query.length q ans dnsRcodeNoerror isUdp cap = some built ∧
      built.bytes = headerBytes (responseHeader q ans count) ++
        (slice query q.q.rawOff q.q.rawLen ++ (recordsBytes q.q.name ans count ++ responseOpt q)) ∧
      count ≤ ans.length ∧
      dnsHdrLen + q.q.rawLen + (recordsBytes q.q.name ans count).length ≤ answerLimit q isUdp cap ∧
      (count < ans.length → answerLimit q isUdp cap <
        dnsHdrLen + q.q.rawLen + (recordsBytes q.q.name ans (count + 1)).length) := by
  obtain ⟨least, most⟩ := effectiveCap_bounds q isUdp room
  have start : dnsHdrLen + q.q.rawLen ≤ answerLimit q isUdp cap := by
    unfold answerLimit dnsOptRrLen
    split <;> omega
  have limit : answerLimit q isUdp cap ≤ effectiveCap q isUdp cap := Nat.sub_le _ _
  obtain ⟨count, bound, sent, fits, longest⟩ :=
    sentAnswers_eq (fun answer member => (sendable answer member).emittable q.q.name) start
      (by omega)
  obtain ⟨built, builds, bytes, _⟩ :=
    dnsBuildResponse_parts ans dnsRcodeNoerror isUdp inside short room size
  have taken : (ans.take count).length = count := by
    rw [List.length_take]
    omega
  rw [replyAnswers, if_pos rfl, sent, taken] at bytes
  exact ⟨built, count, builds, bytes, bound, fits, longest⟩

/-! ## Reading a response back -/

/-- The OPT record of a response is the only additional record. -/
theorem parseRecords_responseOpt (front : Bytes) (q : DnsQueryInfo) :
    ∃ records, parseRecords (front ++ responseOpt q) (front ++ responseOpt q).length
        (if q.hasEdns then 1 else 0) front.length =
          some (records, (front ++ responseOpt q).length) ∧
      records.length = (if q.hasEdns then 1 else 0) ∧
      ∀ rr ∈ records, rr.type = dnsTypeOpt ∧ rr.name = DnsName.root := by
  unfold responseOpt
  split
  · have size : (front ++ optRecord dnsEdnsOurUdpPayload (if q.ednsDo then 0x8000 else 0)).length =
        front.length + dnsOptRrLen := List.length_append
    have parsed := dnsParseRr_optRecord front dnsEdnsOurUdpPayload
      (if q.ednsDo then 0x8000 else 0) (Nat.le_refl _)
    exact ⟨_, by rw [size, parseRecords, parsed]; rfl, rfl, by simp⟩
  · refine ⟨[], ?_, rfl, by simp⟩
    rw [List.append_nil]
    rfl

/-- What reading a response has to give: the header of a response to the query, the
query's question, the longest prefix of the answers within the limit, the OPT record of an
EDNS query, and nothing more. -/
structure Answers (q : DnsQueryInfo) (ans : List DnsAnswer) (limit : Nat) (msg : Bytes)
    (read : ReadResponse) : Prop where
  id : read.header.id = q.hdr.id
  response : read.header.flags &&& dnsFlagQr ≠ 0
  recursionAvailable : read.header.flags &&& dnsFlagRa ≠ 0
  recursionDesired : read.header.flags &&& dnsFlagRd ≠ 0 ↔ q.hdr.flags &&& dnsFlagRd ≠ 0
  truncated : read.header.flags &&& dnsFlagTc ≠ 0 ↔ read.header.ancount.toNat < ans.length
  qdcount : read.header.qdcount = 1
  nscount : read.header.nscount = 0
  question : read.question = q.q
  records : List.Forall₂ (ReadsBack msg msg.length q.q.name)
    (ans.take read.header.ancount.toNat) read.answers
  longest : ∀ count ≤ ans.length,
    dnsHdrLen + q.q.rawLen + (recordsBytes q.q.name ans count).length ≤ limit ↔
      count ≤ read.header.ancount.toNat
  arcount : read.header.arcount.toNat = if q.hasEdns then 1 else 0
  opt : read.additional.length = read.header.arcount.toNat ∧
    ∀ rr ∈ read.additional, rr.type = dnsTypeOpt ∧ rr.name = DnsName.root
  ending : read.ending = msg.length

/-- The parsers find the parts of a response where the builder put them. -/
theorem readResponse_parts {header : DnsHeader} {q : DnsQueryInfo} {labels : List Bytes}
    {rest msg : Bytes} {sent : List DnsAnswer} (valid : ∀ label ∈ labels, LabelOk label)
    (short : (appendLabels [] labels).length ≤ dnsMaxName)
    (named : DnsName.ofText (appendLabels [] labels) = q.q.name) (four : rest.length = 4)
    (qtype : rd16 rest 0 = q.q.qtype) (qclass : rd16 rest 2 = q.q.qclass)
    (rawOff : q.q.rawOff = dnsHdrLen) (rawLen : q.q.rawLen = (wireLabels labels).length + 5)
    (sendable : ∀ answer ∈ sent, Sendable answer) (ancount : header.ancount.toNat = sent.length)
    (arcount : header.arcount.toNat = if q.hasEdns then 1 else 0)
    (written : msg = headerBytes header ++ ((wireLabels labels ++ 0 :: rest) ++
      (sent.flatMap (recordBytes q.q.name) ++ responseOpt q))) :
    ∃ answers additional,
      readResponse msg = some ⟨header, q.q, answers, additional, msg.length⟩ ∧
      List.Forall₂ (ReadsBack msg msg.length q.q.name) sent answers ∧
      additional.length = (if q.hasEdns then 1 else 0) ∧
      ∀ rr ∈ additional, rr.type = dnsTypeOpt ∧ rr.name = DnsName.root := by
  have lower : foldCase q.q.name.chars = q.q.name.chars := by
    rw [← named]
    exact foldCase_ofText (by rw [appendLabels_intercalate valid, foldCase_foldCase])
  obtain ⟨front, frontEq⟩ :
      ∃ front, front = headerBytes header ++ (wireLabels labels ++ 0 :: rest) :=
    ⟨_, rfl⟩
  have frontSize : front.length = dnsHdrLen + (wireLabels labels).length + 5 := by
    simp only [frontEq, List.length_append, List.length_cons, length_headerBytes, four]
    omega
  have question : QuestionFront front q.q.name labels :=
    ⟨valid, short, named, headerBytes header, rest, rfl, frontEq⟩
  have answersAt : msg = front ++ (sent.flatMap (recordBytes q.q.name) ++ responseOpt q) := by
    simp only [written, frontEq, List.append_assoc]
  have optAt : msg = (front ++ sent.flatMap (recordBytes q.q.name)) ++ responseOpt q := by
    rw [answersAt, List.append_assoc]
  have size := congrArg List.length answersAt
  simp only [List.length_append] at size
  have head : dnsParseHeader msg msg.length = some header := by
    conv_lhs => rw [written]
    exact dnsParseHeader_headerBytes header _ (by rw [← written]; omega)
  have decoded : decodeName msg msg.length dnsHdrLen =
      some (q.q.name, dnsHdrLen + (wireLabels labels).length + 1) := by
    have shape : msg = headerBytes header ++ (wireLabels labels ++ 0 ::
        (rest ++ (sent.flatMap (recordBytes q.q.name) ++ responseOpt q))) := by simp [written]
    have inside : (headerBytes header).length + (wireLabels labels).length + 1 ≤ msg.length := by
      rw [length_headerBytes]
      omega
    rw [← named, ← length_headerBytes header]
    conv_lhs => rw [shape]
    exact decodeName_labels valid (shape ▸ inside) short
  have tailAt : slice msg (dnsHdrLen + (wireLabels labels).length + 1) 4 = rest := by
    have shape : msg = (headerBytes header ++ (wireLabels labels ++ [0])) ++
        (rest ++ (sent.flatMap (recordBytes q.q.name) ++ responseOpt q)) := by simp [written]
    have position : dnsHdrLen + (wireLabels labels).length + 1 =
        (headerBytes header ++ (wireLabels labels ++ [0])).length + 0 := by
      simp only [List.length_append, length_headerBytes, List.length_singleton]
      omega
    rw [shape, position, slice_append_right, ← four]
    exact slice_append_left _ _
  have typeField := @rd16_slice msg (dnsHdrLen + (wireLabels labels).length + 1) 4 0 (by omega)
  have classField := @rd16_slice msg (dnsHdrLen + (wireLabels labels).length + 1) 4 2 (by omega)
  rw [tailAt] at typeField classField
  have skipped : dnsSkipQuestion msg msg.length dnsHdrLen = some front.length := by
    rw [dnsSkipQuestion, decoded]
    simp only
    rw [if_neg (by omega), frontSize]
  obtain ⟨answers, parsed, matched⟩ := @parseRecords_records front (responseOpt q) q.q.name labels
    sent msg.length question lower sendable (by omega)
  rw [← answersAt] at parsed matched
  obtain ⟨additional, optParsed, one, opt⟩ :=
    parseRecords_responseOpt (front ++ sent.flatMap (recordBytes q.q.name)) q
  rw [← optAt, List.length_append] at optParsed
  refine ⟨answers, additional, ?_, matched, one, opt⟩
  simp only [readResponse, head, decoded, skipped, ancount, arcount, parsed, optParsed,
    Option.bind_eq_bind, Option.bind_some]
  have whole : front.length - dnsHdrLen = q.q.rawLen := by omega
  rw [whole, ← typeField, ← classField, qtype, qclass, ← rawOff]

/-- **A response reads back.** For an accepted query whose question has no pointer and up
to eight answers that can be sent, over either transport, the builder succeeds, and the
parsers find in its output the answers to the query. -/
theorem dnsBuildResponse_reads {query : Bytes} {q : DnsQueryInfo} {ans : List DnsAnswer}
    {cap : Nat} (isUdp : Bool) (accepted : dnsParseQuery query query.length = some q)
    (plain : namePointer query query.length query.length dnsHdrLen = false)
    (few : ans.length ≤ dnsMaxAnswers) (sendable : ∀ answer ∈ ans, Sendable answer)
    (room : 512 ≤ cap) (size : cap < 2 ^ 64) :
    ∃ built read,
      dnsBuildResponse query query.length q ans dnsRcodeNoerror isUdp cap = some built ∧
      readResponse built.bytes = some read ∧
      Answers q ans (answerLimit q isUdp cap) built.bytes read := by
  obtain ⟨_, _, _, _, _, rawOff, _, recursionDesired⟩ := dnsParseQuery_question accepted
  obtain ⟨labels, rest, valid, short, named, question, four, qtype, qclass, rawLen, inside⟩ :=
    dnsParseQuery_labels accepted plain
  have wire := length_wireLabels_le valid
  rw [dnsMaxName] at short
  obtain ⟨built, count, builds, bytes, bound, fits, longest⟩ :=
    @dnsBuildResponse_shape query q ans isUdp cap sendable inside
      (by rw [rawLen, dnsHdrLen]; omega) room size
  have ancount : (UInt16.ofNat count).toNat = count := by
    rw [UInt16.toNat_ofNat']
    rw [dnsMaxAnswers] at few
    omega
  have arcount : (responseHeader q ans count).arcount.toNat = if q.hasEdns then 1 else 0 := by
    unfold responseHeader
    cases q.hasEdns <;> rfl
  have taken : (ans.take count).length = count := by
    rw [List.length_take]
    omega
  rw [question] at bytes
  obtain ⟨answers, additional, reads, matched, one, opt⟩ :=
    readResponse_parts valid short named four
    qtype qclass rawOff rawLen (fun answer member => sendable answer (List.mem_of_mem_take member))
    (ancount.trans taken.symm) arcount bytes
  obtain ⟨qr, ra, _, rd, tc, _⟩ := responseFlags_bits q.recursionDesired
    (decide (count < ans.length)) dnsRcodeNoerror
  refine ⟨built, _, builds, reads, ?_⟩
  constructor
  case id | qdcount | nscount | question | ending => rfl
  case response => exact qr
  case recursionAvailable => exact ra
  case recursionDesired => exact rd.trans (by rw [recursionDesired, decide_eq_true_iff])
  case truncated => exact tc.trans (by simp only [responseHeader, ancount, decide_eq_true_iff])
  case records => simpa only [responseHeader, ancount] using matched
  case arcount => exact arcount
  case opt => exact ⟨one.trans arcount.symm, opt⟩
  case longest =>
      intro other within
      simp only [responseHeader, ancount]
      constructor
      · intro otherFits
        by_contra more
        have exceeds := longest (by omega)
        have mono := length_recordsBytes_mono q.q.name ans (show count + 1 ≤ other by omega)
        omega
      · intro fewer
        have mono := length_recordsBytes_mono q.q.name ans fewer
        omega

/-- A query for the addresses of "b". -/
def queryForB : Bytes :=
  [0x12, 0x34, 1, 0, 0, 1, 0, 0, 0, 0, 0, 0, 1, 98, 0, 0, 1, 0, 1]

/-- What `dns_parse_query` makes of `queryForB`. -/
def infoForB : DnsQueryInfo where
  hdr := ⟨0x1234, 0x0100, 1, 0, 0, 0⟩
  q := ⟨DnsName.ofText [98], dnsTypeA, dnsClassIn, 12, 7⟩
  recursionDesired := true
  hasEdns := false
  ednsUdpPayload := 0
  ednsVersion := 0
  ednsDo := false

/-- An address of "a", written with and without a trailing dot. -/
def addressOfA (dotted : Bool) : DnsAnswer where
  owner := DnsName.ofText (if dotted then [97, 46] else [97])
  ttl := 300
  rdata := .a fun _ => 1

/-- The address of "a" can be sent. -/
theorem addressOfA_sendable (dotted : Bool) : Sendable (addressOfA dotted) := by
  refine ⟨⟨⟨4, [1, 97, 0], ?_⟩, ?_⟩, trivial⟩ <;> cases dotted <;> rfl

/-- A response to the query for "b" with the address of "a". -/
theorem dnsBuildResponse_reads_example :
    ∃ built read,
      dnsBuildResponse queryForB queryForB.length infoForB [addressOfA false] dnsRcodeNoerror true
        512 = some built ∧
      readResponse built.bytes = some read ∧
      Answers infoForB [addressOfA false] (answerLimit infoForB true 512) built.bytes read :=
  dnsBuildResponse_reads true (by decide) (by decide) (by decide)
    (by simpa using addressOfA_sendable false) (by decide) (by decide)

/-- The owner "a." is encoded like "a", so it reads back as another text. -/
theorem dotted_owner_changes :
    dnsParseQuery queryForB queryForB.length = some infoForB ∧
    namePointer queryForB queryForB.length queryForB.length dnsHdrLen = false ∧
    Sendable (addressOfA true) ∧ (addressOfA true).owner.chars = [97, 46] ∧
    ∃ built read,
      dnsBuildResponse queryForB queryForB.length infoForB [addressOfA true] dnsRcodeNoerror true
        512 = some built ∧
      readResponse built.bytes = some read ∧ read.answers.map (·.name.chars) = [[97]] := by
  refine ⟨by decide, by decide, addressOfA_sendable true, by decide, ?_⟩
  exact ⟨_, _, rfl, rfl, by decide⟩

end FizzDns
