import FizzDns.Msg.NameReads
import FizzDns.Msg.Response

/-!
# The question of a response

`dns_build_response` copies the bytes of the question and writes a header of its own. The name
of a question need not be in the bytes of the question: a compression pointer can lead into the
header, and from there into whatever follows. Of these bytes a response repeats the id and the
question; its QDCOUNT, NSCOUNT and ARCOUNT are the same in every response to the query; flags,
ANCOUNT and the records are not.

The question reads the same in every response if and only if its name is read from bytes of the
first two kinds and leaves one pointer to spare for the owners that point to it
(`question_echoed_iff`). Otherwise one of a few responses shows the difference: one with many
records of a strange owner, one with another rcode, a truncated one, and one with a short owner
(`probed_noData`).
-/

namespace FizzDns

/-! ## What responses have in common -/

/-- The question of a query behind a header, with flags, ANCOUNT and records left open. -/
def echo (query : Bytes) (q : DnsQueryInfo) (flags ancount : UInt16) (tail : Bytes) : Bytes :=
  headerBytes
    { id := q.hdr.id
      flags := flags
      qdcount := 1
      ancount := ancount
      nscount := 0
      arcount := if q.hasEdns then 1 else 0 } ++
    (slice query q.q.rawOff q.q.rawLen ++ tail)

/-- The offsets up to the end of the question, without flags and ANCOUNT. -/
def Copied (q : DnsQueryInfo) (index : Nat) : Prop :=
  index < dnsHdrLen + q.q.rawLen ∧ index ≠ 2 ∧ index ≠ 3 ∧ index ≠ 6 ∧ index ≠ 7

instance (q : DnsQueryInfo) (index : Nat) : Decidable (Copied q index) :=
  inferInstanceAs (Decidable (_ ∧ _))

section Echo

variable {query : Bytes} {q : DnsQueryInfo}

theorem length_echo (inside : q.q.rawOff + q.q.rawLen ≤ query.length) (flags ancount : UInt16)
    (tail : Bytes) :
    (echo query q flags ancount tail).length = dnsHdrLen + q.q.rawLen + tail.length := by
  rw [echo, List.length_append, List.length_append, length_headerBytes, length_slice inside,
    Nat.add_assoc]

/-- The question of an echo is that of the query. -/
theorem byteAt_echo_question (inside : q.q.rawOff + q.q.rawLen ≤ query.length)
    (flags ancount : UInt16) (tail : Bytes) {index : Nat} (below : index < q.q.rawLen) :
    byteAt (echo query q flags ancount tail) (dnsHdrLen + index) =
      byteAt query (q.q.rawOff + index) := by
  calc
    byteAt (echo query q flags ancount tail) (dnsHdrLen + index) =
        byteAt (slice query q.q.rawOff q.q.rawLen ++ tail) index := byteAt_append_right _ _ index
    _ = byteAt (slice query q.q.rawOff q.q.rawLen) index :=
        byteAt_append_left (by rwa [length_slice inside]) tail
    _ = byteAt query (q.q.rawOff + index) := byteAt_slice below

/-- Behind the question of an echo is its tail. -/
theorem byteAt_echo_tail (inside : q.q.rawOff + q.q.rawLen ≤ query.length)
    (flags ancount : UInt16) (tail : Bytes) (index : Nat) :
    byteAt (echo query q flags ancount tail) (dnsHdrLen + q.q.rawLen + index) =
      byteAt tail index := by
  have question := byteAt_append_right (slice query q.q.rawOff q.q.rawLen) tail index
  rw [length_slice inside] at question
  rw [← question, Nat.add_assoc]
  exact byteAt_append_right _ _ _

theorem byteAt_echo_flags (flags ancount : UInt16) (tail : Bytes) :
    byteAt (echo query q flags ancount tail) 2 = UInt8.ofNat (flags.toNat / 256) ∧
      byteAt (echo query q flags ancount tail) 3 = UInt8.ofNat (flags.toNat % 256) :=
  ⟨rfl, rfl⟩

theorem byteAt_echo_ancount (flags ancount : UInt16) (tail : Bytes) :
    byteAt (echo query q flags ancount tail) 6 = UInt8.ofNat (ancount.toNat / 256) ∧
      byteAt (echo query q flags ancount tail) 7 = UInt8.ofNat (ancount.toNat % 256) :=
  ⟨rfl, rfl⟩

/-- Any two responses agree at the copied offsets. -/
theorem byteAt_echo_copied (inside : q.q.rawOff + q.q.rawLen ≤ query.length)
    (flags ancount flags' ancount' : UInt16) (tail tail' : Bytes) {index : Nat}
    (copied : Copied q index) :
    byteAt (echo query q flags ancount tail) index =
      byteAt (echo query q flags' ancount' tail') index := by
  obtain ⟨below, two, three, six, seven⟩ := copied
  by_cases header : index < dnsHdrLen
  · rw [dnsHdrLen] at header
    interval_cases index <;> first | rfl | contradiction
  · obtain ⟨offset, rfl⟩ := Nat.exists_eq_add_of_le (Nat.not_lt.mp header)
    rw [byteAt_echo_question inside _ _ _ (by omega), byteAt_echo_question inside _ _ _ (by omega)]

/-- The bytes of a response. -/
theorem dnsBuildResponse_echo (ans : List DnsAnswer) (rcode : Nat) (isUdp : Bool) {cap : Nat}
    (accepted : dnsParseQuery query query.length = some q) (room : 512 ≤ cap)
    (size : cap < 2 ^ 64) :
    ∃ built, dnsBuildResponse query query.length q ans rcode isUdp cap = some built ∧
      built.bytes = echo query q
        (responseFlags q.recursionDesired (replyAnswers q ans rcode isUdp cap).2 rcode)
        (UInt16.ofNat (replyAnswers q ans rcode isUdp cap).1.length)
        ((replyAnswers q ans rcode isUdp cap).1.flatMap (recordBytes q.q.name) ++
          responseOpt q) := by
  obtain ⟨_, inside, short⟩ := dnsParseQuery_rawLen_le accepted
  obtain ⟨built, builds, bytes, _⟩ :=
    dnsBuildResponse_parts ans rcode isUdp inside (short.trans (by decide)) room size
  exact ⟨built, builds, bytes⟩

end Echo

/-! ## The condition -/

/-- The response holds the question of the query: the same characters of the name, type and
class, and the characters of the name wherever a pointer to the question stands. -/
def RepeatsQuestion (query : Bytes) (q : DnsQueryInfo) (response : Bytes) : Prop :=
  ∃ text after,
    dnsNameDecode query query.length dnsHdrLen (dnsMaxName + 1) = some (text, after) ∧
    DnsName.ofText text = q.q.name ∧
    dnsNameDecode response response.length dnsHdrLen (dnsMaxName + 1) = some (text, after) ∧
    rd16 response after = q.q.qtype ∧ rd16 response (after + 2) = q.q.qclass ∧
    ∀ off, dnsHdrLen < off → off + 1 < response.length →
      byteAt response off = 0xC0 → byteAt response (off + 1) = 0x0C →
      dnsNameDecode response response.length off (dnsMaxName + 1) = some (text, off + 2)

/-- The name of the question, read with NSCOUNT and ARCOUNT as they are in responses and with
nothing behind the question, is the name of the query. It takes none of its bytes from the flags
or ANCOUNT, and one pointer more would not be too many. -/
def NameCopied (query : Bytes) (q : DnsQueryInfo) : Prop :=
  ∃ labels pointers after,
    dnsNameDecode query query.length dnsHdrLen (dnsMaxName + 1) =
      some (appendLabels [] labels, after) ∧
    NameOver (Copied q) (echo query q q.hdr.flags q.hdr.ancount []) (dnsHdrLen + q.q.rawLen)
      dnsHdrLen labels pointers after ∧
    pointers < maxPtrJumps

section

variable {query : Bytes} {q : DnsQueryInfo}

/-- The question of an accepted query in terms of its characters. -/
theorem dnsParseQuery_decoded (accepted : dnsParseQuery query query.length = some q)
    {text : Bytes} {after : Nat}
    (decoded : dnsNameDecode query query.length dnsHdrLen (dnsMaxName + 1) = some (text, after)) :
    DnsName.ofText text = q.q.name ∧ q.q.qtype = rd16 query after ∧
      q.q.qclass = rd16 query (after + 2) ∧ dnsHdrLen < after ∧
      dnsHdrLen + q.q.rawLen = after + 4 := by
  obtain ⟨stop, named, _, qtype, qclass, _, rawLen, _⟩ := dnsParseQuery_question accepted
  rw [decodeName, decoded] at named
  obtain ⟨name, rfl⟩ := Prod.mk.inj (Option.some.inj named)
  obtain ⟨_, _, found, _⟩ := dnsNameDecode_nameAt (Nat.le_refl _) decoded
  have advanced := found.lt_next
  exact ⟨name, qtype, qclass, advanced, by omega⟩

/-- Words of the question are copied. -/
theorem rd16_echo (accepted : dnsParseQuery query query.length = some q) (flags ancount : UInt16)
    (tail : Bytes) {offset : Nat} (behind : dnsHdrLen ≤ offset)
    (below : offset + 2 ≤ dnsHdrLen + q.q.rawLen) :
    rd16 (echo query q flags ancount tail) offset = rd16 query offset := by
  obtain ⟨rawOff, inside, _⟩ := dnsParseQuery_rawLen_le accepted
  obtain ⟨index, rfl⟩ := Nat.exists_eq_add_of_le behind
  rw [rd16, Nat.add_assoc, byteAt_echo_question inside _ _ _ (by omega),
    byteAt_echo_question inside _ _ _ (by omega), rawOff]
  rfl

/-- A pointer to the question expands to its name. -/
theorem NameAt.pointed {msg : Bytes} {len off pointers after : Nat} {labels : List Bytes}
    (question : NameAt msg len dnsHdrLen labels pointers after) (behind : dnsHdrLen < off)
    (below : off + 1 < len) (head : byteAt msg off = 0xC0) (low : byteAt msg (off + 1) = 0x0C) :
    NameAt msg len off labels (pointers + 1) (off + 2) := by
  have target : pointerTarget msg off = dnsHdrLen := by
    rw [pointerTarget, head, low]
    rfl
  apply NameAt.pointer below
  · rw [head]
    decide
  · rwa [target]
  · rw [target]
    exact question

/-- A copied name is in every response. -/
theorem NameCopied.repeats (accepted : dnsParseQuery query query.length = some q)
    (copied : NameCopied query q) (flags ancount : UInt16) (tail : Bytes) :
    RepeatsQuestion query q (echo query q flags ancount tail) := by
  obtain ⟨labels, pointers, after, decoded, read, few⟩ := copied
  obtain ⟨_, inside, _⟩ := dnsParseQuery_rawLen_le accepted
  obtain ⟨_, _, _, _, _, short⟩ := dnsNameDecode_nameAt (Nat.le_refl _) decoded
  obtain ⟨name, qtype, qclass, advanced, rawLen⟩ := dnsParseQuery_decoded accepted decoded
  have length := length_echo inside flags ancount tail
  have found : NameAt (echo query q flags ancount tail) (echo query q flags ancount tail).length
      dnsHdrLen labels pointers after := by
    have whole := length_echo inside q.hdr.flags q.hdr.ancount []
    refine (read.carry (by rw [whole]; exact Nat.le_add_right _ _) (Nat.le_refl _) ?_).nameAt
    intro index kept
    have below := kept.1
    exact ⟨by omega, byteAt_echo_copied inside _ _ _ _ _ _ kept⟩
  refine ⟨_, _, decoded, name, found.dnsNameDecode_eq (Nat.le_refl _) few.le short, ?_, ?_, ?_⟩
  · rw [qtype]
    exact rd16_echo accepted _ _ _ (by omega) (by omega)
  · rw [qclass]
    exact rd16_echo accepted _ _ _ (by omega) (by omega)
  · intro off behind below head low
    exact (found.pointed behind below head low).dnsNameDecode_eq (Nat.le_refl _) few short

end

/-! ## Responses that tell bytes apart -/

/-- What `dns_build_response` makes of a query in a buffer of at least 512 bytes. -/
def responses (query : Bytes) (q : DnsQueryInfo) : Set Bytes :=
  {response | ∃ ans rcode isUdp cap built, 512 ≤ cap ∧ cap < 2 ^ 64 ∧
    dnsBuildResponse query query.length q ans rcode isUdp cap = some built ∧
    built.bytes = response}

/-- The response without records and errors. -/
def noData (query : Bytes) (q : DnsQueryInfo) : Bytes :=
  echo query q (responseFlags q.recursionDesired false dnsRcodeNoerror) 0 (responseOpt q)

/-- An address record without an address. -/
def zeroAddress (owner : DnsName) : DnsAnswer where
  owner := owner
  ttl := 0
  rdata := .a fun _ => 0

/-- One label of `size` equal bytes. -/
def strangeName (byte : UInt8) (size : Nat) : DnsName :=
  DnsName.ofText (List.replicate size byte)

/-- The strange names can be encoded. -/
theorem strangeName_encoded : ∀ byte ∈ [0x81, 0x82], ∀ size ∈ [2, 63],
    dnsNameEncode (strangeName byte size).chars (dnsMaxName + 1) =
      .ok (UInt8.ofNat size :: (List.replicate size byte ++ [0])) := by
  decide +kernel

/-- Some strange name of a given size is not the name of the question. -/
theorem exists_strangeName (qname : DnsName) {size : Nat} (known : size ∈ [2, 63]) :
    ∃ byte ∈ [0x81, 0x82], dnsNameEqual (strangeName byte size).chars qname.chars ≠ true := by
  have differ : ∀ size ∈ [2, 63],
      foldCase (strangeName 0x81 size).chars ≠ foldCase (strangeName 0x82 size).chars := by
    decide +kernel
  by_cases first : dnsNameEqual (strangeName 0x81 size).chars qname.chars = true
  · refine ⟨0x82, by simp, ?_⟩
    intro second
    rw [dnsNameEqual_iff] at first second
    exact differ size known (first.trans second.symm)
  · exact ⟨0x81, by simp, first⟩

section

variable {query : Bytes} {q : DnsQueryInfo}

/-- What can be sent for some answers is a response. -/
theorem mem_responses (accepted : dnsParseQuery query query.length = some q)
    {ans records : List DnsAnswer} {rcode cap : Nat} {isUdp truncated : Bool} (room : 512 ≤ cap)
    (size : cap < 2 ^ 64) (sent : replyAnswers q ans rcode isUdp cap = (records, truncated)) :
    echo query q (responseFlags q.recursionDesired truncated rcode)
        (UInt16.ofNat records.length)
        (records.flatMap (recordBytes q.q.name) ++ responseOpt q) ∈ responses query q := by
  obtain ⟨built, builds, bytes⟩ := dnsBuildResponse_echo ans rcode isUdp accepted room size
  rw [sent] at bytes
  exact ⟨ans, rcode, isUdp, cap, built, room, size, builds, bytes⟩

/-- A response without records. -/
theorem noData_mem_responses (accepted : dnsParseQuery query query.length = some q) :
    noData query q ∈ responses query q :=
  @mem_responses query q accepted [] [] dnsRcodeNoerror 512 false false (by decide) (by decide) rfl

/-- One with an error. -/
theorem refused_mem_responses (accepted : dnsParseQuery query query.length = some q) :
    echo query q (responseFlags q.recursionDesired false 1) 0 (responseOpt q) ∈
      responses query q :=
  @mem_responses query q accepted [] [] 1 512 false false (by decide) (by decide) rfl

/-- The address 0.0.0.0 can be sent for every name. -/
theorem zeroAddress_emittable (qname : DnsName) : Emittable qname (zeroAddress qname) :=
  ⟨.inl ((dnsNameEqual_iff _ _).mpr rfl), trivial⟩

/-- Records whose owner is a pointer to the question take 16 bytes. -/
theorem recordBytes_zeroAddress (qname : DnsName) :
    ∃ rest, recordBytes qname (zeroAddress qname) = 0xC0 :: 0x0C :: rest ∧ rest.length = 14 := by
  have same : dnsNameEqual (zeroAddress qname).owner.chars qname.chars = true :=
    (dnsNameEqual_iff _ _).mpr rfl
  rw [recordBytes, ownerBytes, if_pos same]
  exact ⟨_, rfl, rfl⟩

/-- A response whose first record has a pointer to the question as its owner. -/
theorem pointed_mem_responses (accepted : dnsParseQuery query query.length = some q) :
    ∃ flags ancount tail,
      echo query q flags ancount (0xC0 :: 0x0C :: tail) ∈ responses query q := by
  obtain ⟨_, _, short⟩ := dnsParseQuery_rawLen_le accepted
  have sent := @replyAnswers_all q [zeroAddress q.q.name] (2 ^ 32)
    (by simpa using zeroAddress_emittable q.q.name) (short.trans (by decide)) (by simp) (by decide)
  have member := mem_responses accepted (by decide) (by decide) sent
  obtain ⟨rest, shape, _⟩ := recordBytes_zeroAddress q.q.name
  rw [List.flatMap_singleton, shape] at member
  exact ⟨_, _, _, member⟩

/-- 64 records do not fit into 512 bytes. -/
theorem truncated_mem_responses (accepted : dnsParseQuery query query.length = some q) :
    ∃ ancount tail, echo query q (responseFlags q.recursionDesired true dnsRcodeNoerror) ancount
      tail ∈ responses query q := by
  obtain ⟨_, _, short⟩ := dnsParseQuery_rawLen_le accepted
  have emittable : ∀ answer ∈ List.replicate 64 (zeroAddress q.q.name),
      Emittable q.q.name answer := by
    intro answer member
    rw [List.eq_of_mem_replicate member]
    exact zeroAddress_emittable q.q.name
  have most : answerLimit q false 512 ≤ 512 := Nat.sub_le _ _
  have least : 501 ≤ answerLimit q false 512 := by
    have whole : effectiveCap q false 512 = 512 := rfl
    rw [answerLimit, whole, dnsOptRrLen]
    split <;> decide
  obtain ⟨count, bound, sent, fits, _⟩ := @sentAnswers_eq q.q.name (answerLimit q false 512) _
    (dnsHdrLen + q.q.rawLen) emittable (by omega) (by omega)
  have fewer : count < (List.replicate 64 (zeroAddress q.q.name)).length := by
    apply Nat.lt_of_le_of_ne bound
    intro all
    obtain ⟨rest, shape, length⟩ := recordBytes_zeroAddress q.q.name
    rw [all, recordsBytes, List.take_length, List.length_flatMap, List.map_replicate,
      List.sum_replicate, shape, List.length_cons, List.length_cons, length] at fits
    simp only [smul_eq_mul] at fits
    omega
  rw [decide_eq_true fewer] at sent
  exact ⟨_, _, @mem_responses query q accepted (List.replicate 64 (zeroAddress q.q.name)) _
    dnsRcodeNoerror 512 false true (by decide) (by decide) sent⟩

/-- Records with a strange owner. -/
theorem strange_mem_responses (accepted : dnsParseQuery query query.length = some q) {size : Nat}
    (known : size ∈ [2, 63]) {count : Nat} (few : count < 65536) :
    ∃ byte ∈ [0x81, 0x82], ∃ tail,
      echo query q (responseFlags q.recursionDesired false dnsRcodeNoerror)
        (UInt16.ofNat (count + 1)) ((UInt8.ofNat size :: List.replicate size byte) ++ tail) ∈
      responses query q := by
  obtain ⟨_, _, short⟩ := dnsParseQuery_rawLen_le accepted
  obtain ⟨byte, listed, foreign⟩ := exists_strangeName q.q.name known
  have encoded := strangeName_encoded byte listed size known
  have emittable : ∀ answer ∈ List.replicate (count + 1) (zeroAddress (strangeName byte size)),
      Emittable q.q.name answer := by
    intro answer member
    rw [List.eq_of_mem_replicate member]
    exact ⟨.inr ⟨_, _, encoded⟩, trivial⟩
  have sent := @replyAnswers_all q _ (2 ^ 32) emittable (short.trans (by decide))
    (by rw [List.length_replicate]; omega) (by decide)
  have member := mem_responses accepted (by decide) (by decide) sent
  have owner : ownerBytes q.q.name (zeroAddress (strangeName byte size)).owner =
      (UInt8.ofNat size :: List.replicate size byte) ++ [0] := by
    change ownerBytes q.q.name (strangeName byte size) = _
    rw [ownerBytes, if_neg foreign, wireName, encoded]
    rfl
  rw [List.length_replicate, List.replicate_succ, List.flatMap_cons, recordBytes, owner] at member
  simp only [List.append_assoc] at member
  exact ⟨byte, listed, _, member⟩

/-- The offsets of a response that are not copied. -/
theorem not_copied (inside : q.q.rawOff + q.q.rawLen ≤ query.length) {flags ancount : UInt16}
    {tail : Bytes} {index : Nat} (below : index < (echo query q flags ancount tail).length)
    (other : ¬ Copied q index) :
    index = 2 ∨ index = 3 ∨ index = 6 ∨ index = 7 ∨
      ∃ past, past < tail.length ∧ index = dnsHdrLen + q.q.rawLen + past := by
  rw [length_echo inside] at below
  unfold Copied at other
  by_cases question : index < dnsHdrLen + q.q.rawLen
  · omega
  · obtain ⟨past, rfl⟩ := Nat.exists_eq_add_of_le (Nat.not_lt.mp question)
    exact .inr (.inr (.inr (.inr ⟨past, by omega, rfl⟩)))

/-- A strange owner differs from the OPT record in every byte, and no name continues with its
bytes as it continues with those of the OPT record. -/
theorem strange_optRecord : ∀ byte ∈ [0x81, 0x82], ∀ ednsDo : Bool, ∀ past < dnsOptRrLen,
    let strange := byteAt (UInt8.ofNat 63 :: List.replicate 63 byte) past
    let opt := byteAt (optRecord dnsEdnsOurUdpPayload (if ednsDo then 0x8000 else 0)) past
    (Reserved strange ∨ opt = 0 ∧ strange ≠ 0 ∧ strange &&& 0xC0 ≠ 0xC0) ∧
      tolower strange ≠ tolower opt := by
  decide +kernel

/-- The same for the OPT record of a response. -/
theorem strange_responseOpt (q : DnsQueryInfo) {byte : UInt8} (listed : byte ∈ [0x81, 0x82])
    (tail : Bytes) {past : Nat} (below : past < (responseOpt q).length) :
    let strange := byteAt ((UInt8.ofNat 63 :: List.replicate 63 byte) ++ tail) past
    let opt := byteAt (responseOpt q) past
    (Reserved strange ∨ opt = 0 ∧ strange ≠ 0 ∧ strange &&& 0xC0 ≠ 0xC0) ∧
      tolower strange ≠ tolower opt := by
  have edns : q.hasEdns = true := by
    by_contra none
    rw [length_responseOpt, if_neg none] at below
    exact absurd below (Nat.not_lt_zero past)
  rw [length_responseOpt, if_pos edns] at below
  rw [responseOpt, if_pos edns, byteAt_append_left (below.trans (by simp [dnsOptRrLen]))]
  exact strange_optRecord byte listed q.ednsDo past below

/-- No name continues at a byte that is not copied. -/
theorem noData_head (accepted : dnsParseQuery query query.length = some q) {index : Nat}
    (below : index < (noData query q).length) (other : ¬ Copied q index) :
    Reserved (byteAt (noData query q) index) ∨
      ∃ probe ∈ responses query q, Reserved (byteAt probe index) ∨
        byteAt (noData query q) index = 0 ∧ byteAt probe index ≠ 0 ∧
          byteAt probe index &&& 0xC0 ≠ 0xC0 := by
  obtain ⟨_, inside, _⟩ := dnsParseQuery_rawLen_le accepted
  obtain ⟨byte, listed, tail, many⟩ :=
    @strange_mem_responses query q accepted 63 (by decide) 0x807F (by decide)
  rw [noData] at below ⊢
  rcases not_copied inside below other with rfl | rfl | rfl | rfl | ⟨past, within, rfl⟩
  · rw [(byteAt_echo_flags _ _ _).1]
    left
    cases q.recursionDesired <;> decide
  · rw [(byteAt_echo_flags _ _ _).2]
    left
    cases q.recursionDesired <;> decide
  · refine .inr ⟨_, many, .inl ?_⟩
    rw [(byteAt_echo_ancount _ _ _).1]
    decide
  · refine .inr ⟨_, many, .inl ?_⟩
    rw [(byteAt_echo_ancount _ _ _).2]
    decide
  · refine .inr ⟨_, many, ?_⟩
    rw [byteAt_echo_tail inside, byteAt_echo_tail inside]
    exact (strange_responseOpt q listed tail within).1

/-- No character is the same in all responses at an offset that is not copied. -/
theorem noData_content (accepted : dnsParseQuery query query.length = some q) {index : Nat}
    (below : index < (noData query q).length) (other : ¬ Copied q index) :
    ∃ probe ∈ responses query q,
      tolower (byteAt probe index) ≠ tolower (byteAt (noData query q) index) := by
  obtain ⟨_, inside, _⟩ := dnsParseQuery_rawLen_le accepted
  obtain ⟨byte, listed, tail, many⟩ :=
    @strange_mem_responses query q accepted 63 (by decide) 0x807F (by decide)
  rw [noData] at below ⊢
  rcases not_copied inside below other with rfl | rfl | rfl | rfl | ⟨past, within, rfl⟩
  · obtain ⟨_, _, truncated⟩ := truncated_mem_responses accepted
    refine ⟨_, truncated, ?_⟩
    rw [(byteAt_echo_flags _ _ _).1, (byteAt_echo_flags _ _ _).1]
    cases q.recursionDesired <;> decide
  · refine ⟨_, refused_mem_responses accepted, ?_⟩
    rw [(byteAt_echo_flags _ _ _).2, (byteAt_echo_flags _ _ _).2]
    cases q.recursionDesired <;> decide
  · refine ⟨_, many, ?_⟩
    rw [(byteAt_echo_ancount _ _ _).1, (byteAt_echo_ancount _ _ _).1]
    decide
  · refine ⟨_, many, ?_⟩
    rw [(byteAt_echo_ancount _ _ _).2, (byteAt_echo_ancount _ _ _).2]
    decide
  · refine ⟨_, many, ?_⟩
    rw [byteAt_echo_tail inside, byteAt_echo_tail inside]
    exact (strange_responseOpt q listed tail within).2

/-- No pointer has its second byte behind the copied ones. -/
theorem noData_low (accepted : dnsParseQuery query query.length = some q) {index : Nat}
    (below : index + 1 < (noData query q).length) (copied : Copied q index)
    (other : ¬ Copied q (index + 1)) (marked : byteAt (noData query q) index &&& 0xC0 = 0xC0)
    (backwards : pointerTarget (noData query q) index < index) :
    ∃ probe ∈ responses query q, pointerTarget probe index < index →
      Reserved (byteAt probe (pointerTarget probe index)) := by
  obtain ⟨_, inside, short⟩ := dnsParseQuery_rawLen_le accepted
  have agree : ∀ flags ancount tail, byteAt (echo query q flags ancount tail) index =
      byteAt (noData query q) index :=
    fun _ _ _ => byteAt_echo_copied inside _ _ _ _ _ _ copied
  rcases not_copied inside below other with second | third | sixth | seventh | ⟨past, within, place⟩
  · -- the second byte would be the first of the flags, at least 128
    exfalso
    obtain rfl : index = 1 := by omega
    have large : 128 ≤ (byteAt (noData query q) (1 + 1)).toNat := by
      rw [noData, (byteAt_echo_flags _ _ _).1]
      cases q.recursionDesired <;> decide
    rw [pointerTarget] at backwards
    omega
  · exact absurd third (by have := copied.2.1; omega)
  · -- the first byte would be the second of QDCOUNT, which is 1
    obtain rfl : index = 5 := by omega
    exact absurd marked (by decide : (1 : UInt8) &&& 0xC0 ≠ 0xC0)
  · exact absurd seventh (by have := copied.2.2.2.1; omega)
  · obtain rfl : past = 0 := by have := copied.1; omega
    by_cases header : (byteAt (noData query q) index &&& 0x3F).toNat = 0
    · obtain ⟨byte, _, tail, short⟩ :=
        @strange_mem_responses query q accepted 2 (by decide) 0 (by decide)
      refine ⟨_, short, fun _ => ?_⟩
      have target : pointerTarget (echo query q
          (responseFlags q.recursionDesired false dnsRcodeNoerror) (UInt16.ofNat (0 + 1))
          ((UInt8.ofNat 2 :: List.replicate 2 byte) ++ tail)) index = 2 := by
        rw [pointerTarget, agree, header, place, byteAt_echo_tail inside]
        rfl
      rw [target, (byteAt_echo_flags _ _ _).1]
      cases q.recursionDesired <;> decide
    · obtain ⟨byte, _, tail, many⟩ :=
        @strange_mem_responses query q accepted 63 (by decide) 0 (by decide)
      refine ⟨_, many, fun back => ?_⟩
      exfalso
      rw [pointerTarget, agree, place, byteAt_echo_tail inside] at back
      have far : (byteAt ((UInt8.ofNat 63 :: List.replicate 63 byte) ++ tail) 0).toNat = 63 := rfl
      have last := copied.1
      omega

/-- Every offset that is not copied is told apart by a response. -/
theorem probed_noData (accepted : dnsParseQuery query query.length = some q) :
    Probed (Copied q) (noData query q) (noData query q).length (responses query q) where
  agree := by
    rintro probe ⟨ans, rcode, isUdp, cap, built, room, size, builds, rfl⟩ index copied
    obtain ⟨_, inside, _⟩ := dnsParseQuery_rawLen_le accepted
    obtain ⟨_, again, bytes⟩ := dnsBuildResponse_echo ans rcode isUdp accepted room size
    obtain rfl := Option.some.inj (again.symm.trans builds)
    rw [bytes]
    exact byteAt_echo_copied inside _ _ _ _ _ _ copied
  head := fun _ below other => noData_head accepted below other
  content := fun _ below other => noData_content accepted below other
  low := fun _ below copied other => noData_low accepted below copied other

/-- A question that reads the same in every response has a copied name. -/
theorem nameCopied_of_repeats (accepted : dnsParseQuery query query.length = some q)
    (holds : ∀ response ∈ responses query q, RepeatsQuestion query q response) :
    NameCopied query q := by
  obtain ⟨_, inside, _⟩ := dnsParseQuery_rawLen_le accepted
  obtain ⟨_, after, decoded, _, read, _⟩ := holds _ (noData_mem_responses accepted)
  obtain ⟨_, _, _, advanced, rawLen⟩ := dnsParseQuery_decoded accepted decoded
  obtain ⟨labels, pointers, name, _, rfl, _⟩ := dnsNameDecode_nameAt (Nat.le_refl _) read
  have same : ∀ {text : Bytes} {next : Nat},
      dnsNameDecode query query.length dnsHdrLen (dnsMaxName + 1) = some (text, next) →
      text = appendLabels [] labels := by
    intro text next found
    exact (Prod.mk.inj (Option.some.inj (found.symm.trans decoded))).1
  have copied := name.nameOver (Nat.le_refl _) (probed_noData accepted) [] (by
    intro probe member
    obtain ⟨text, next, found, _, reads, _⟩ := holds probe member
    obtain ⟨labels', pointers', name', _, shape, _⟩ := dnsNameDecode_nameAt (Nat.le_refl _) reads
    exact ⟨labels', pointers', next, name', shape.symm.trans (same found)⟩)
  have carried : ∀ {flags ancount : UInt16} {tail : Bytes} {size : Nat},
      size ≤ (echo query q flags ancount tail).length → dnsHdrLen + q.q.rawLen ≤ size →
      NameOver (Copied q) (echo query q flags ancount tail) size dnsHdrLen labels pointers
        after := by
    intro flags ancount tail size fits least
    refine copied.carry (Nat.le_refl _) fits ?_
    intro index kept
    exact ⟨kept.1.trans_le least, byteAt_echo_copied inside _ _ _ _ _ _ kept⟩
  refine ⟨labels, pointers, after, decoded, carried ?_ (Nat.le_refl _), ?_⟩
  · rw [length_echo inside]
    exact Nat.le_add_right _ _
  · -- an owner that points to the question takes one pointer more
    obtain ⟨flags, ancount, tail, member⟩ := pointed_mem_responses accepted
    obtain ⟨text, next, found, _, _, _, _, owners⟩ := holds _ member
    have length := length_echo inside flags ancount (0xC0 :: 0x0C :: tail)
    have head := byteAt_echo_tail inside flags ancount (0xC0 :: 0x0C :: tail) 0
    have low := byteAt_echo_tail inside flags ancount (0xC0 :: 0x0C :: tail) 1
    simp only [byteAt_cons_zero, byteAt_cons_succ, Nat.add_zero,
      List.length_cons] at head low length
    have owner := owners (dnsHdrLen + q.q.rawLen) (by omega) (by omega) head low
    obtain ⟨labels', pointers', name', few, _⟩ := dnsNameDecode_nameAt (Nat.le_refl _) owner
    have question := (@carried flags ancount (0xC0 :: 0x0C :: tail) _ (Nat.le_refl _)
      (by omega)).nameAt
    have pointed := question.pointed (by omega) (by omega) head low
    obtain ⟨_, rfl, _⟩ := pointed.unique name'
    exact few

end

/-- The question reads the same in every response to a query if and only if its name is
copied. -/
theorem question_echoed_iff {query : Bytes} {q : DnsQueryInfo}
    (accepted : dnsParseQuery query query.length = some q) :
    (∀ ans rcode isUdp cap, 512 ≤ cap → cap < 2 ^ 64 →
      ∃ built, dnsBuildResponse query query.length q ans rcode isUdp cap = some built ∧
        RepeatsQuestion query q built.bytes) ↔
    NameCopied query q := by
  constructor
  · intro holds
    apply nameCopied_of_repeats accepted
    rintro response ⟨ans, rcode, isUdp, cap, built, room, size, builds, rfl⟩
    obtain ⟨_, again, repeats⟩ := holds ans rcode isUdp cap room size
    obtain rfl := Option.some.inj (again.symm.trans builds)
    exact repeats
  · intro copied ans rcode isUdp cap room size
    obtain ⟨built, builds, bytes⟩ := dnsBuildResponse_echo ans rcode isUdp accepted room size
    refine ⟨built, builds, ?_⟩
    rw [bytes]
    exact copied.repeats accepted _ _ _

/-- The name "b" is in the question itself. -/
theorem nameCopied_queryForB : NameCopied queryForB infoForB := by
  refine ⟨[[98]], 0, 15, rfl, ?_, by decide⟩
  apply @NameOver.label _ _ _ 12 0 15 [] (by decide) (by decide) (by decide)
  · intro index low high
    have below : index < 14 := high
    refine ⟨?_, ?_, ?_, ?_, ?_⟩
    · exact below.trans (by decide)
    all_goals omega
  · exact .root (by decide) rfl (by decide : Copied infoForB 14)

/-- The question of a plain query is repeated. -/
theorem question_echoed_queryForB :
    NameCopied queryForB infoForB ∧
    ∀ ans rcode isUdp cap, 512 ≤ cap → cap < 2 ^ 64 →
      ∃ built, dnsBuildResponse queryForB queryForB.length infoForB ans rcode isUdp cap =
          some built ∧
        RepeatsQuestion queryForB infoForB built.bytes :=
  ⟨nameCopied_queryForB, (question_echoed_iff (by decide)).mpr nameCopied_queryForB⟩

/-- A query for the root whose name is a pointer to the second byte of the flags, a zero. -/
def queryIntoFlags : Bytes :=
  [0x12, 0x34, 1, 0, 0, 1, 0, 0, 0, 0, 0, 0, 0xC0, 3, 0, 1, 0, 1]

/-- The second byte of the flags is 128 in a response, and the question is not a name any
more. -/
theorem pointer_into_flags_lost :
    ∃ q built, dnsParseQuery queryIntoFlags queryIntoFlags.length = some q ∧
      q.q.name = DnsName.root ∧
      dnsBuildResponse queryIntoFlags queryIntoFlags.length q [] dnsRcodeNoerror true 512 =
        some built ∧
      dnsNameDecode built.bytes built.bytes.length dnsHdrLen (dnsMaxName + 1) = none :=
  ⟨_, _, rfl, by decide, rfl, by decide⟩

end FizzDns
