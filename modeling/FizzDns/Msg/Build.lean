import FizzDns.Msg.Parse
import Mathlib.Data.Fintype.Pi

/-!
# Writing messages

`dns_build_response` and `dns_build_query`. The builder writes the question and the
records behind a header that it fills in last; `body` is what stands at offset
`DNS_HDR_LEN` and beyond, so the source's `o` is `dnsHdrLen + body.length`. A record
that does not fit is rolled back, but the bytes it wrote stay written: `touched`
keeps the end of the highest byte ever stored.

The remaining room `ans_cap - o` is a `size_t` difference and wraps (`sizeSub`).
-/

namespace FizzDns

/-- `DNS_EDNS_MIN_PAYLOAD`. -/
def dnsEdnsMinPayload : UInt16 := 512

/-- `DNS_EDNS_OUR_UDP_PAYLOAD`. -/
def dnsEdnsOurUdpPayload : UInt16 := 1232

/-- `DNS_CLASSIC_UDP_LIMIT`. -/
def dnsClassicUdpLimit : Nat := 512

/-- `DNS_OPT_RR_LEN`. -/
def dnsOptRrLen : Nat := 11

/-- `DNS_MAX_ANSWERS`. -/
def dnsMaxAnswers : Nat := 8

/-- `DNS_RCODE_NOERROR`. -/
def dnsRcodeNoerror : Nat := 0

/-- `DNS_RCODE_SERVFAIL`. -/
def dnsRcodeServfail : Nat := 2

/-- `DNS_RCODE_NXDOMAIN`. -/
def dnsRcodeNxdomain : Nat := 3

/-- `DNS_RCODE_NOTIMP`. -/
def dnsRcodeNotimp : Nat := 4

/-- The tagged union of `struct dns_answer`: the record type selects the member that
is read. A type other than A, AAAA and CNAME has no member. -/
inductive AnswerData where
  | a (octets : Fin 4 → UInt8)
  | aaaa (octets : Fin 16 → UInt8)
  | cname (target : DnsName)
  | other (type : UInt16)
      (foreign : type ≠ dnsTypeA ∧ type ≠ dnsTypeAaaa ∧ type ≠ dnsTypeCname)
  deriving DecidableEq

/-- `struct dns_answer`. -/
structure DnsAnswer where
  owner : DnsName
  ttl : UInt32
  rdata : AnswerData
  deriving DecidableEq

/-- The `type` field. -/
def AnswerData.type : AnswerData → UInt16
  | .a _ => dnsTypeA
  | .aaaa _ => dnsTypeAaaa
  | .cname _ => dnsTypeCname
  | .other type _ => type

/-- The `type` field. -/
def DnsAnswer.type (answer : DnsAnswer) : UInt16 :=
  answer.rdata.type

/-- What makes a record without its TTL, which the cache rewrites. -/
def DnsAnswer.untimed (answer : DnsAnswer) : DnsName × AnswerData :=
  (answer.owner, answer.rdata)

/-- An answer of type CNAME has a target. -/
theorem DnsAnswer.cname_of_type {answer : DnsAnswer} (kind : answer.type = dnsTypeCname) :
    ∃ target, answer.rdata = .cname target := by
  unfold DnsAnswer.type AnswerData.type at kind
  split at kind
  · cases kind
  · cases kind
  · next target same => exact ⟨target, same⟩
  · next type foreign _ => exact absurd kind foreign.2.2

/-- How one turn of the answer loop ends: the record's bytes, a jump to `full`, or
a record of a type that is not emitted. The last two report how many bytes behind
the start of the record had been stored. -/
inductive Emission where
  | emitted (record : Bytes)
  | full (wrote : Nat)
  | skipped (wrote : Nat)

/-- The owner of a record at offset `o`: a pointer to the question for the question's
own name, the encoded name otherwise. -/
def emitOwner (qname owner : DnsName) (ansCap o : Nat) : Except Nat Bytes :=
  if dnsNameEqual owner.chars qname.chars then
    if o + 2 > ansCap then .error 0 else .ok [0xC0, 0x0C]
  else
    match dnsNameEncode owner.chars (sizeSub ansCap o) with
    | .error wrote => .error wrote.length
    | .ok encoded => .ok encoded

/-- The record data at offset `o`, or the number of bytes stored before it ran out of
room. -/
def emitRdata (rdata : AnswerData) (ansCap o : Nat) : Except Nat Bytes :=
  match rdata with
  | .a octets => if o + 4 > ansCap then .error 0 else .ok (List.ofFn octets)
  | .aaaa octets => if o + 16 > ansCap then .error 0 else .ok (List.ofFn octets)
  | .cname target =>
      match dnsNameEncode target.chars (sizeSub ansCap o) with
      | .error wrote => .error wrote.length
      | .ok encoded => .ok encoded
  | .other _ _ => .error 0

/-- One turn of the answer loop of `dns_build_response`, for the record that starts at
offset `o`. -/
def emitAnswer (qname : DnsName) (answer : DnsAnswer) (ansCap o : Nat) : Emission :=
  match emitOwner qname answer.owner ansCap o with
  | .error wrote => .full wrote
  | .ok owner =>
      if o + owner.length + 10 > ansCap then .full owner.length
      else
        -- type, class and TTL; the length that follows is patched in last
        let fixed := wr16 answer.type ++ wr16 dnsClassIn ++ wr32 answer.ttl
        match answer.rdata with
        | .other _ _ => .skipped (owner.length + 8)
        | rdata =>
            match emitRdata rdata ansCap (o + owner.length + 10) with
            | .error 0 => .full (owner.length + 8)
            | .error (wrote + 1) => .full (owner.length + 10 + (wrote + 1))
            | .ok data =>
                .emitted (owner ++ fixed ++ wr16 (UInt16.ofNat data.length) ++ data)

/-- The state of the answer loop. -/
structure AnswerLoop where
  body : Bytes
  emitted : Nat
  truncated : Bool
  touched : Nat
  deriving DecidableEq

/-- The answer loop of `dns_build_response`. -/
def emitAnswers (qname : DnsName) (ansCap : Nat) : List DnsAnswer → AnswerLoop → AnswerLoop
  | [], loop => loop
  | answer :: rest, loop =>
      let o := dnsHdrLen + loop.body.length
      match emitAnswer qname answer ansCap o with
      | .emitted record =>
          emitAnswers qname ansCap rest
            { loop with
              body := loop.body ++ record
              emitted := loop.emitted + 1
              touched := max loop.touched (o + record.length) }
      | .skipped wrote =>
          emitAnswers qname ansCap rest { loop with touched := max loop.touched (o + wrote) }
      | .full wrote =>
          { loop with truncated := true, touched := max loop.touched (o + wrote) }

/-- The size limit in force: over UDP the classic 512 bytes, or what the client's OPT
record asks for within our own bounds; over TCP the buffer itself. -/
def effectiveCap (q : DnsQueryInfo) (isUdp : Bool) (cap : Nat) : Nat :=
  if isUdp then
    let wanted :=
      if q.hasEdns then
        let theirs := if q.ednsUdpPayload < dnsEdnsMinPayload then dnsEdnsMinPayload
          else q.ednsUdpPayload
        if theirs < dnsEdnsOurUdpPayload then theirs.toNat else dnsEdnsOurUdpPayload.toNat
      else dnsClassicUdpLimit
    if wanted > cap then cap else wanted
  else cap

/-- The limit for the answers, which leaves room for our own OPT record. -/
def answerCap (q : DnsQueryInfo) (effective o : Nat) : Nat :=
  if q.hasEdns then
    if effective > dnsOptRrLen then effective - dnsOptRrLen else o
  else effective

/-- An OPT record: root owner, the payload size as class, the given flags, no options. -/
def optRecord (payload : UInt16) (ttl : UInt32) : Bytes :=
  [0] ++ wr16 dnsTypeOpt ++ wr16 payload ++ wr32 ttl ++ wr16 0

/-- The twelve header bytes. -/
def headerBytes (header : DnsHeader) : Bytes :=
  wr16 header.id ++ wr16 header.flags ++ wr16 header.qdcount ++ wr16 header.ancount ++
    wr16 header.nscount ++ wr16 header.arcount

/-- The flags of a response. -/
def responseFlags (recursionDesired truncated : Bool) (rcode : Nat) : UInt16 :=
  dnsFlagQr ||| dnsFlagRa ||| (if recursionDesired then dnsFlagRd else 0) |||
    (if truncated then dnsFlagTc else 0) ||| (UInt16.ofNat rcode &&& dnsRcodeMask)

/-- A finished response: its bytes, and the end of the highest byte of the output
buffer that was stored on the way. -/
structure BuiltResponse where
  bytes : Bytes
  touched : Nat
  deriving DecidableEq

/-- `dns_build_response`. -/
def dnsBuildResponse (query : Bytes) (queryLen : Nat) (q : DnsQueryInfo) (ans : List DnsAnswer)
    (rcode : Nat) (isUdp : Bool) (cap : Nat) : Option BuiltResponse :=
  if cap < dnsHdrLen then none
  else if q.q.rawOff + q.q.rawLen > queryLen then none
  else if dnsHdrLen + q.q.rawLen > cap then none
  else
    let question := slice query q.q.rawOff q.q.rawLen
    let effective := effectiveCap q isUdp cap
    let o := dnsHdrLen + question.length
    let start : AnswerLoop := { body := question, emitted := 0, truncated := false, touched := o }
    let answered :=
      if rcode = dnsRcodeNoerror then emitAnswers q.q.name (answerCap q effective o) ans start
      else start
    let withOpt := q.hasEdns && (dnsHdrLen + answered.body.length + dnsOptRrLen ≤ effective : Bool)
    let body :=
      if withOpt then
        answered.body ++ optRecord dnsEdnsOurUdpPayload (if q.ednsDo then 0x8000 else 0)
      else answered.body
    let header : DnsHeader :=
      { id := q.hdr.id
        flags := responseFlags q.recursionDesired answered.truncated rcode
        qdcount := 1
        ancount := UInt16.ofNat answered.emitted
        nscount := 0
        arcount := if withOpt then 1 else 0 }
    some
      { bytes := headerBytes header ++ body
        touched := max answered.touched (dnsHdrLen + body.length) }

/-- `dns_build_query`: one question of class IN, with an OPT record unless the payload
is 0. -/
def dnsBuildQuery (id : UInt16) (name : Bytes) (qtype : UInt16) (rd : Bool)
    (ednsUdpPayload : UInt16) (cap : Nat) : Option Bytes :=
  if cap < dnsHdrLen then none
  else
    let header : DnsHeader :=
      { id := id
        flags := if rd then dnsFlagRd else 0
        qdcount := 1
        ancount := 0
        nscount := 0
        arcount := if ednsUdpPayload ≠ 0 then 1 else 0 }
    match dnsNameEncode name (cap - dnsHdrLen) with
    | .error _ => none
    | .ok encoded =>
        let o := dnsHdrLen + encoded.length
        if o + 4 > cap then none
        else
          let question := headerBytes header ++ encoded ++ wr16 qtype ++ wr16 dnsClassIn
          if ednsUdpPayload ≠ 0 then
            if o + 4 + dnsOptRrLen > cap then none
            else some (question ++ optRecord ednsUdpPayload 0)
          else some question

end FizzDns
