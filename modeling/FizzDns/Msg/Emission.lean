import FizzDns.Msg.NameCodec
import FizzDns.Msg.Build

/-!
# What a response is made of

`recordBytes` is the encoding of one answer without regard to room. A turn of the answer
loop of `dns_build_response` writes it or writes nothing that stays (`emitAnswer_emitted_iff`),
so what the loop writes is the encoding of some of the answers, those of `sentAnswers`
(`emitAnswers_sent`). A response is then a header, the question of the query, these records
and the server's own OPT record, within the size limit (`dnsBuildResponse_parts`); nothing
about the answers has to be known for it.

Whether an answer is written depends on the room and on its names: `Emittable` says that
they can be encoded.
-/

namespace FizzDns

/-! ## Names -/

/-- `dns_name_encode` accepts the name, given room. -/
def Encodable (name : Bytes) : Prop :=
  ∃ cap encoded, dnsNameEncode name cap = .ok encoded

/-- What `dns_name_encode` writes, given room. -/
def wireName (name : Bytes) : Bytes :=
  match dnsNameEncode name (dnsMaxName + 1) with
  | .ok encoded => encoded
  | .error _ => []

/-- The labels of a name that can be encoded. -/
theorem Encodable.labels {name : Bytes} (encodable : Encodable name) :
    ∃ labels, (∀ label ∈ labels, LabelOk label) ∧ wireName name = wireLabels labels ++ [0] ∧
      appendLabels [] labels = foldCase (trimDot name) ∧
      (wireName name).length ≤ dnsMaxName + 1 := by
  obtain ⟨cap, encoded, accepted⟩ := encodable
  obtain ⟨labels, valid, shape, text, short, rooms⟩ := dnsNameEncode_ok accepted
  have same : wireName name = encoded := by rw [wireName, (rooms _).1 short]
  exact ⟨labels, valid, same ▸ shape, text, same ▸ short⟩

/-- A name is written if it can be encoded and there is room. -/
theorem dnsNameEncode_ok_iff {name encoded : Bytes} {room : Nat} :
    dnsNameEncode name room = .ok encoded ↔
      Encodable name ∧ encoded = wireName name ∧ encoded.length ≤ room := by
  constructor
  · intro accepted
    obtain ⟨_, _, _, _, short, rooms⟩ := dnsNameEncode_ok accepted
    refine ⟨⟨room, encoded, accepted⟩, ?_, ?_⟩
    · rw [wireName, (rooms _).1 short]
    · by_contra full
      obtain ⟨wrote, failed⟩ := (rooms room).2 (Nat.not_le.mp full)
      rw [accepted] at failed
      cases failed
  · rintro ⟨⟨cap, written, accepted⟩, rfl, fits⟩
    obtain ⟨_, _, _, _, short, rooms⟩ := dnsNameEncode_ok accepted
    have same : wireName name = written := by rw [wireName, (rooms _).1 short]
    rw [same] at fits ⊢
    exact (rooms room).1 fits

/-- An encoded name has at most 256 bytes. -/
theorem length_wireName_le {name : Bytes} (encodable : Encodable name) :
    (wireName name).length ≤ dnsMaxName + 1 := by
  obtain ⟨_, _, _, _, short⟩ := encodable.labels
  exact short

/-! ## Records -/

/-- The owner of a record behind a question. -/
def ownerBytes (qname owner : DnsName) : Bytes :=
  if dnsNameEqual owner.chars qname.chars then [0xC0, 0x0C] else wireName owner.chars

/-- The data of a record. -/
def rdataBytes : AnswerData → Bytes
  | .a octets => List.ofFn octets
  | .aaaa octets => List.ofFn octets
  | .cname target => wireName target.chars
  | .other _ _ => []

/-- The encoding of an answer behind a question. -/
def recordBytes (qname : DnsName) (answer : DnsAnswer) : Bytes :=
  ownerBytes qname answer.owner ++ (wr16 answer.type ++ wr16 dnsClassIn ++ wr32 answer.ttl) ++
    wr16 (UInt16.ofNat (rdataBytes answer.rdata).length) ++ rdataBytes answer.rdata

/-- The length of a record: owner, ten fixed bytes and data. -/
theorem length_recordBytes (qname : DnsName) (answer : DnsAnswer) :
    (recordBytes qname answer).length =
      (ownerBytes qname answer.owner).length + 10 + (rdataBytes answer.rdata).length := by
  simp only [recordBytes, List.length_append, length_wr16, length_wr32]

/-- An answer of type A, AAAA or CNAME with names that can be written behind a question for
`qname`: a pointer stands for the question's own name, any other has to be encoded. -/
structure Emittable (qname : DnsName) (answer : DnsAnswer) : Prop where
  owner : dnsNameEqual answer.owner.chars qname.chars = true ∨ Encodable answer.owner.chars
  rdata : match answer.rdata with
    | .a _ => True
    | .aaaa _ => True
    | .cname target => Encodable target.chars
    | .other _ _ => False

namespace Emittable

variable {qname : DnsName} {answer : DnsAnswer}

/-- The owner takes at most 256 bytes. -/
theorem length_ownerBytes_le (emittable : Emittable qname answer) :
    (ownerBytes qname answer.owner).length ≤ dnsMaxName + 1 := by
  unfold ownerBytes
  split
  · exact (by decide : 2 ≤ dnsMaxName + 1)
  · next differ => exact length_wireName_le (emittable.owner.resolve_left differ)

/-- So does the data. -/
theorem length_rdataBytes_le (emittable : Emittable qname answer) :
    (rdataBytes answer.rdata).length ≤ dnsMaxName + 1 := by
  have rdata := emittable.rdata
  cases kind : answer.rdata with
  | a octets => simp [rdataBytes, dnsMaxName]
  | aaaa octets => simp [rdataBytes, dnsMaxName]
  | cname target =>
      rw [kind] at rdata
      exact length_wireName_le rdata
  | other type foreign => simp [rdataBytes]

/-- And the record at most 522. -/
theorem length_recordBytes_le (emittable : Emittable qname answer) :
    (recordBytes qname answer).length ≤ 522 := by
  have owner := emittable.length_ownerBytes_le
  have rdata := emittable.length_rdataBytes_le
  rw [dnsMaxName] at owner rdata
  rw [length_recordBytes]
  omega

/-- The TTL has no part in it. -/
theorem of_untimed (emittable : Emittable qname answer) {other : DnsAnswer}
    (same : other.untimed = answer.untimed) : Emittable qname other := by
  obtain ⟨owner, rdata⟩ := Prod.mk.inj same
  obtain ⟨known, writable⟩ := emittable
  rw [← owner] at known
  rw [← rdata] at writable
  exact ⟨known, writable⟩

/-- What can be sent is an address or a CNAME. -/
theorem known (emittable : Emittable qname answer) :
    ∀ type foreign, answer.rdata ≠ .other type foreign := by
  intro type foreign same
  have rdata := emittable.rdata
  rw [same] at rdata
  exact rdata

end Emittable

/-! ## One turn of the answer loop -/

section

variable {qname : DnsName} {answer : DnsAnswer} {ansCap o : Nat}

/-- When the owner is written, and what. -/
theorem emitOwner_ok_iff {owner : DnsName} {owned : Bytes} (below : o ≤ ansCap)
    (size : ansCap < 2 ^ 64) :
    emitOwner qname owner ansCap o = .ok owned ↔
      (dnsNameEqual owner.chars qname.chars = true ∨ Encodable owner.chars) ∧
        owned = ownerBytes qname owner ∧ o + owned.length ≤ ansCap := by
  unfold emitOwner ownerBytes
  split
  · next same =>
      split
      · next full =>
          simp only [reduceCtorEq, same, true_or, true_and, false_iff, not_and]
          rintro rfl
          exact Nat.not_le.mpr full
      · next fits =>
          simp only [Except.ok.injEq, same, true_or, true_and]
          constructor
          · rintro rfl
            exact ⟨rfl, Nat.not_lt.mp fits⟩
          · exact fun written => written.1.symm
  · next differ =>
      have written := @dnsNameEncode_ok_iff owner.chars owned (ansCap - o)
      have room : owned.length ≤ ansCap - o ↔ o + owned.length ≤ ansCap := by omega
      rw [sizeSub_of_le below size]
      simp only [differ, Bool.false_eq_true, false_or]
      rw [← room, ← written]
      cases dnsNameEncode owner.chars (ansCap - o) <;> simp

/-- When the data is written, and what. -/
theorem emitRdata_ok_iff {data : Bytes} (below : o ≤ ansCap) (size : ansCap < 2 ^ 64) :
    emitRdata answer.rdata ansCap o = .ok data ↔
      (match answer.rdata with
        | .a _ => True
        | .aaaa _ => True
        | .cname target => Encodable target.chars
        | .other _ _ => False) ∧
        data = rdataBytes answer.rdata ∧ o + data.length ≤ ansCap := by
  have octets : ∀ {count : Nat} (bytes : Fin count → UInt8),
      (if o + count > ansCap then .error 0 else .ok (List.ofFn bytes)) =
          (.ok data : Except Nat Bytes) ↔
        True ∧ data = List.ofFn bytes ∧ o + data.length ≤ ansCap := by
    intro count bytes
    split
    · next full =>
        simp only [reduceCtorEq, true_and, false_iff, not_and]
        rintro rfl
        rw [List.length_ofFn]
        exact Nat.not_le.mpr full
    · next fits =>
        simp only [Except.ok.injEq, true_and]
        constructor
        · rintro rfl
          rw [List.length_ofFn]
          exact ⟨rfl, Nat.not_lt.mp fits⟩
        · exact fun written => written.1.symm
  cases answer.rdata with
  | a bytes => exact octets bytes
  | aaaa bytes => exact octets bytes
  | cname target =>
      have written := @dnsNameEncode_ok_iff target.chars data (ansCap - o)
      have room : data.length ≤ ansCap - o ↔ o + data.length ≤ ansCap := by omega
      simp only [emitRdata, rdataBytes, sizeSub_of_le below size]
      rw [← room, ← written]
      cases dnsNameEncode target.chars (ansCap - o) <;> simp
  | other type foreign => simp [emitRdata]

/-- A turn of the answer loop keeps the whole encoding of an answer or nothing. It keeps it
if there is room and the names can be encoded. -/
theorem emitAnswer_emitted_iff {record : Bytes} (below : o ≤ ansCap) (size : ansCap < 2 ^ 64) :
    emitAnswer qname answer ansCap o = .emitted record ↔
      Emittable qname answer ∧ record = recordBytes qname answer ∧ o + record.length ≤ ansCap := by
  constructor
  · intro emitted
    unfold emitAnswer at emitted
    split at emitted
    · cases emitted
    next owned ownerOk =>
    obtain ⟨owner, rfl, _⟩ := (emitOwner_ok_iff below size).mp ownerOk
    split at emitted
    · cases emitted
    next room =>
    simp only at emitted
    split at emitted
    · cases emitted
    next known =>
    split at emitted
    · cases emitted
    · cases emitted
    next data dataOk =>
    obtain ⟨rdata, rfl, fits⟩ := (emitRdata_ok_iff (Nat.not_lt.mp room) size).mp dataOk
    cases emitted
    refine ⟨⟨owner, rdata⟩, rfl, ?_⟩
    simp only [List.length_append, length_wr16, length_wr32]
    omega
  · rintro ⟨emittable, rfl, fits⟩
    rw [length_recordBytes] at fits
    have ownerOk := (emitOwner_ok_iff below size).mpr
      ⟨emittable.owner, rfl, show o + (ownerBytes qname answer.owner).length ≤ ansCap by omega⟩
    have dataOk := (@emitRdata_ok_iff answer ansCap
      (o + (ownerBytes qname answer.owner).length + 10) _ (by omega) size).mpr
      ⟨emittable.rdata, rfl, by omega⟩
    unfold emitAnswer
    rw [ownerOk]
    simp only [if_neg (show ¬ o + (ownerBytes qname answer.owner).length + 10 > ansCap by omega)]
    cases kind : answer.rdata with
    | other type foreign => exact absurd kind (emittable.known type foreign)
    | _ =>
        rw [kind] at dataOk
        simp only [dataOk, recordBytes, kind]

/-- What becomes of an answer that has a known type and is not emitted. -/
theorem emitAnswer_full (known : ∀ type foreign, answer.rdata ≠ .other type foreign)
    (rejected : ∀ record, emitAnswer qname answer ansCap o ≠ .emitted record) :
    ∃ wrote, emitAnswer qname answer ansCap o = .full wrote := by
  cases turn : emitAnswer qname answer ansCap o with
  | emitted record => exact absurd turn (rejected record)
  | full wrote => exact ⟨wrote, rfl⟩
  | skipped wrote =>
      unfold emitAnswer at turn
      split at turn
      · cases turn
      split at turn
      · cases turn
      cases kind : answer.rdata with
      | other type foreign => exact absurd kind (known type foreign)
      | _ =>
          simp only [kind] at turn
          split at turn <;> cases turn

end

/-! ## The answer loop -/

/-- The answers that the loop emits from offset `o` on, and whether it stops before the last
one. -/
def sentAnswers (qname : DnsName) (ansCap : Nat) :
    List DnsAnswer → (o : Nat) → List DnsAnswer × Bool
  | [], _ => ([], false)
  | answer :: rest, o =>
      match emitAnswer qname answer ansCap o with
      | .emitted record =>
          let later := sentAnswers qname ansCap rest (o + record.length)
          (answer :: later.1, later.2)
      | .skipped _ => sentAnswers qname ansCap rest o
      | .full _ => ([], true)

section

variable {qname : DnsName} {ansCap : Nat} {ans : List DnsAnswer}

/-- The answers that are sent can be encoded, and have room. -/
theorem sentAnswers_emittable {o : Nat} (below : o ≤ ansCap) (size : ansCap < 2 ^ 64) :
    (∀ answer ∈ (sentAnswers qname ansCap ans o).1, Emittable qname answer) ∧
      o + ((sentAnswers qname ansCap ans o).1.flatMap (recordBytes qname)).length ≤ ansCap := by
  induction ans generalizing o with
  | nil => exact ⟨by simp [sentAnswers], below⟩
  | cons answer rest ih =>
      rw [sentAnswers]
      cases turn : emitAnswer qname answer ansCap o with
      | emitted record =>
          obtain ⟨emittable, rfl, fits⟩ := (emitAnswer_emitted_iff below size).mp turn
          obtain ⟨others, room⟩ := ih fits
          refine ⟨List.forall_mem_cons.mpr ⟨emittable, others⟩, ?_⟩
          rw [List.flatMap_cons, List.length_append]
          omega
      | skipped wrote => exact ih below
      | full wrote => exact ⟨by simp, below⟩

/-- The answers that are sent are some of those given, in their order. -/
theorem sentAnswers_sublist (o : Nat) : (sentAnswers qname ansCap ans o).1.Sublist ans := by
  induction ans generalizing o with
  | nil => exact List.Sublist.slnil
  | cons answer rest ih =>
      rw [sentAnswers]
      cases emitAnswer qname answer ansCap o with
      | emitted record => exact (ih _).cons_cons answer
      | skipped wrote => exact (ih o).cons answer
      | full wrote => exact List.nil_sublist _

/-- What the loop writes. -/
theorem emitAnswers_sent (size : ansCap < 2 ^ 64) {loop : AnswerLoop}
    (below : dnsHdrLen + loop.body.length ≤ ansCap) :
    ∃ touched, emitAnswers qname ansCap ans loop =
      { body := loop.body ++ (sentAnswers qname ansCap ans
          (dnsHdrLen + loop.body.length)).1.flatMap (recordBytes qname)
        emitted := loop.emitted +
          (sentAnswers qname ansCap ans (dnsHdrLen + loop.body.length)).1.length
        truncated := loop.truncated ||
          (sentAnswers qname ansCap ans (dnsHdrLen + loop.body.length)).2
        touched := touched } := by
  induction ans generalizing loop with
  | nil => exact ⟨loop.touched, by simp [emitAnswers, sentAnswers]⟩
  | cons answer rest ih =>
      rw [emitAnswers, sentAnswers]
      cases turn : emitAnswer qname answer ansCap (dnsHdrLen + loop.body.length) with
      | emitted record =>
          obtain ⟨_, rfl, fits⟩ := (emitAnswer_emitted_iff below size).mp turn
          obtain ⟨touched, looped⟩ := @ih
            { loop with
              body := loop.body ++ recordBytes qname answer
              emitted := loop.emitted + 1
              touched := max loop.touched
                (dnsHdrLen + loop.body.length + (recordBytes qname answer).length) }
            (by simpa [Nat.add_assoc] using fits)
          refine ⟨touched, looped.trans ?_⟩
          simp only [List.length_append, List.flatMap_cons, List.length_cons, List.append_assoc,
            Nat.add_assoc, Nat.add_comm 1]
      | skipped wrote => exact @ih { loop with touched := _ } below
      | full wrote => exact ⟨max loop.touched (dnsHdrLen + loop.body.length + wrote), by simp⟩

/-- The bytes of the first `count` answers. -/
def recordsBytes (qname : DnsName) (ans : List DnsAnswer) (count : Nat) : Bytes :=
  (ans.take count).flatMap (recordBytes qname)

/-- A longer prefix of the answers is encoded to at least as many bytes. -/
theorem length_recordsBytes_mono (qname : DnsName) (ans : List DnsAnswer) {fewer more : Nat}
    (ordered : fewer ≤ more) :
    (recordsBytes qname ans fewer).length ≤ (recordsBytes qname ans more).length := by
  obtain ⟨extra, rfl⟩ := Nat.exists_eq_add_of_le ordered
  simp only [recordsBytes, List.take_add, List.flatMap_append, List.length_append]
  omega

/-- Of answers that can be emitted the loop emits the longest prefix that fits, and notes
whether it is all of them. -/
theorem sentAnswers_eq {o : Nat} (emittable : ∀ answer ∈ ans, Emittable qname answer)
    (below : o ≤ ansCap) (size : ansCap < 2 ^ 64) :
    ∃ count, count ≤ ans.length ∧
      sentAnswers qname ansCap ans o = (ans.take count, decide (count < ans.length)) ∧
      o + (recordsBytes qname ans count).length ≤ ansCap ∧
      (count < ans.length → ansCap < o + (recordsBytes qname ans (count + 1)).length) := by
  induction ans generalizing o with
  | nil => exact ⟨0, Nat.le_refl _, rfl, below, by simp⟩
  | cons answer rest ih =>
      rw [List.forall_mem_cons] at emittable
      by_cases room : o + (recordBytes qname answer).length ≤ ansCap
      · have turn := (emitAnswer_emitted_iff below size).mpr ⟨emittable.1, rfl, room⟩
        obtain ⟨count, bound, sent, inside, longest⟩ := ih emittable.2 room
        simp only [recordsBytes] at inside longest
        refine ⟨count + 1, by simpa using bound, ?_, ?_, ?_⟩
        · rw [sentAnswers, turn]
          simp [sent]
        · simp only [recordsBytes, List.take_succ_cons, List.flatMap_cons, List.length_append]
          omega
        · intro more
          have exceeds := longest (by simpa using more)
          simp only [recordsBytes, List.take_succ_cons, List.flatMap_cons, List.length_append]
          omega
      · have rejected : ∀ record, emitAnswer qname answer ansCap o ≠ .emitted record := by
          intro record emitted
          obtain ⟨_, rfl, fits⟩ := (emitAnswer_emitted_iff below size).mp emitted
          exact room fits
        obtain ⟨wrote, stopped⟩ := emitAnswer_full emittable.1.known rejected
        refine ⟨0, Nat.zero_le _, ?_, by simpa [recordsBytes] using below, fun _ => ?_⟩
        · rw [sentAnswers, stopped]
          simp
        · simpa [recordsBytes] using room

/-- All of them are emitted if there is room. -/
theorem sentAnswers_all {o : Nat} (emittable : ∀ answer ∈ ans, Emittable qname answer)
    (size : ansCap < 2 ^ 64) (room : o + (ans.flatMap (recordBytes qname)).length ≤ ansCap) :
    sentAnswers qname ansCap ans o = (ans, false) := by
  obtain ⟨count, bound, sent, _, longest⟩ := @sentAnswers_eq qname ansCap ans o emittable
    (by omega) size
  have all : count = ans.length := by
    by_contra fewer
    have exceeds := longest (by omega)
    have mono := length_recordsBytes_mono qname ans (show count + 1 ≤ ans.length by omega)
    simp only [recordsBytes, List.take_length] at exceeds mono
    omega
  rw [sent, all, List.take_length, decide_eq_false (Nat.lt_irrefl _)]

end

/-! ## The size limit -/

/-- The limit for header, question and answers together: what the transport allows, less
the room for the OPT record of an EDNS query. -/
def answerLimit (q : DnsQueryInfo) (isUdp : Bool) (cap : Nat) : Nat :=
  effectiveCap q isUdp cap - if q.hasEdns then dnsOptRrLen else 0

/-- With a buffer of 512 bytes there is room for 512, and no more than the buffer has. -/
theorem effectiveCap_bounds (q : DnsQueryInfo) (isUdp : Bool) {cap : Nat} (room : 512 ≤ cap) :
    512 ≤ effectiveCap q isUdp cap ∧ effectiveCap q isUdp cap ≤ cap := by
  have min : dnsEdnsMinPayload.toNat = 512 := rfl
  have ours : dnsEdnsOurUdpPayload.toNat = 1232 := rfl
  unfold effectiveCap dnsClassicUdpLimit
  simp only [UInt16.lt_iff_toNat_lt, apply_ite UInt16.toNat, min, ours]
  split_ifs <;> omega

/-- The room for answers does not depend on how far the response has got. -/
theorem answerCap_eq {q : DnsQueryInfo} {isUdp : Bool} {cap : Nat} (room : 512 ≤ cap) (o : Nat) :
    answerCap q (effectiveCap q isUdp cap) o = answerLimit q isUdp cap := by
  obtain ⟨least, _⟩ := effectiveCap_bounds q isUdp room
  unfold answerCap answerLimit
  split
  · rw [if_pos (by rw [dnsOptRrLen]; omega)]
  · rfl

/-- The OPT record that answers an EDNS query. -/
def responseOpt (q : DnsQueryInfo) : Bytes :=
  if q.hasEdns then optRecord dnsEdnsOurUdpPayload (if q.ednsDo then 0x8000 else 0) else []

/-- The header of a response with `count` records. -/
def replyHeader (q : DnsQueryInfo) (truncated : Bool) (rcode count : Nat) : DnsHeader where
  id := q.hdr.id
  flags := responseFlags q.recursionDesired truncated rcode
  qdcount := 1
  ancount := UInt16.ofNat count
  nscount := 0
  arcount := if q.hasEdns then 1 else 0

/-- The response code as four bits. -/
private theorem rcode_bits (rcode : Nat) :
    ∃ low : Fin 16, low.val = rcode % 16 ∧
      UInt16.ofNat rcode &&& dnsRcodeMask = UInt16.ofNat low := by
  refine ⟨⟨rcode % 16, Nat.mod_lt _ (by decide)⟩, rfl, ?_⟩
  apply UInt16.toNat_inj.mp
  have mask : dnsRcodeMask.toNat = 2 ^ 4 - 1 := rfl
  rw [UInt16.toNat_and, mask, Nat.and_two_pow_sub_one_eq_mod, UInt16.toNat_ofNat',
    UInt16.toNat_ofNat']
  simp only
  omega

/-- The flags, for every choice of their parts. -/
private theorem flags_bits : ∀ (recursionDesired truncated : Bool) (low : Fin 16),
    let flags := dnsFlagQr ||| dnsFlagRa ||| (if recursionDesired then dnsFlagRd else 0) |||
      (if truncated then dnsFlagTc else 0) ||| UInt16.ofNat low
    flags &&& dnsFlagQr ≠ 0 ∧ flags &&& dnsFlagRa ≠ 0 ∧ flags &&& dnsOpcodeMask = 0 ∧
      (flags &&& dnsFlagRd ≠ 0 ↔ recursionDesired = true) ∧
      (flags &&& dnsFlagTc ≠ 0 ↔ truncated = true) ∧ (flags &&& dnsRcodeMask).toNat = low := by
  decide

/-- The flags of a response: of the rcode the lowest four bits are sent. -/
theorem responseFlags_bits (recursionDesired truncated : Bool) (rcode : Nat) :
    let flags := responseFlags recursionDesired truncated rcode
    flags &&& dnsFlagQr ≠ 0 ∧ flags &&& dnsFlagRa ≠ 0 ∧ flags &&& dnsOpcodeMask = 0 ∧
      (flags &&& dnsFlagRd ≠ 0 ↔ recursionDesired = true) ∧
      (flags &&& dnsFlagTc ≠ 0 ↔ truncated = true) ∧
      (flags &&& dnsRcodeMask).toNat = rcode % 16 := by
  obtain ⟨low, same, bits⟩ := rcode_bits rcode
  rw [responseFlags, bits, ← same]
  exact flags_bits recursionDesired truncated low

/-- The answers that go into a response with the given rcode, and whether some are left out. -/
def replyAnswers (q : DnsQueryInfo) (ans : List DnsAnswer) (rcode : Nat) (isUdp : Bool)
    (cap : Nat) : List DnsAnswer × Bool :=
  if rcode = dnsRcodeNoerror then
    sentAnswers q.q.name (answerLimit q isUdp cap) ans (dnsHdrLen + q.q.rawLen)
  else ([], false)

@[simp] theorem length_headerBytes (header : DnsHeader) :
    (headerBytes header).length = dnsHdrLen := rfl

/-- A bound on the bytes of several records. -/
theorem length_flatMap_recordBytes_le {qname : DnsName} {ans : List DnsAnswer}
    (emittable : ∀ answer ∈ ans, Emittable qname answer) :
    (ans.flatMap (recordBytes qname)).length ≤ 522 * ans.length := by
  induction ans with
  | nil => exact Nat.le_refl _
  | cons answer rest ih =>
      rw [List.forall_mem_cons] at emittable
      have one := emittable.1.length_recordBytes_le
      have others := ih emittable.2
      rw [List.flatMap_cons, List.length_append, List.length_cons]
      omega

/-- Over TCP all answers are sent if all can be encoded and the buffer is large enough. -/
theorem replyAnswers_all {q : DnsQueryInfo} {ans : List DnsAnswer} {cap : Nat}
    (emittable : ∀ answer ∈ ans, Emittable q.q.name answer)
    (short : dnsHdrLen + q.q.rawLen ≤ 500) (room : 511 + 522 * ans.length ≤ cap)
    (size : cap < 2 ^ 64) : replyAnswers q ans dnsRcodeNoerror false cap = (ans, false) := by
  have total := length_flatMap_recordBytes_le emittable
  have limit : cap - 11 ≤ answerLimit q false cap := by
    have whole : effectiveCap q false cap = cap := rfl
    rw [answerLimit, whole, dnsOptRrLen]
    split <;> omega
  have most : answerLimit q false cap ≤ cap := Nat.sub_le _ _
  rw [replyAnswers, if_pos rfl]
  exact sentAnswers_all emittable (by omega) (by omega)

/-- The answers of a reply are some of those given, in their order. -/
theorem replyAnswers_sublist (q : DnsQueryInfo) (ans : List DnsAnswer) (rcode : Nat) (isUdp : Bool)
    (cap : Nat) : (replyAnswers q ans rcode isUdp cap).1.Sublist ans := by
  unfold replyAnswers
  split
  · exact sentAnswers_sublist _
  · exact List.nil_sublist _

/-- The OPT record of a response takes 11 bytes, if there is one. -/
theorem length_responseOpt (q : DnsQueryInfo) :
    (responseOpt q).length = if q.hasEdns then dnsOptRrLen else 0 := by
  unfold responseOpt
  split <;> rfl

/-- Answers and OPT record share the limit. -/
theorem answerLimit_add_responseOpt (q : DnsQueryInfo) (isUdp : Bool) {cap : Nat}
    (room : 512 ≤ cap) :
    answerLimit q isUdp cap + (responseOpt q).length = effectiveCap q isUdp cap := by
  obtain ⟨least, _⟩ := effectiveCap_bounds q isUdp room
  rw [length_responseOpt, answerLimit, dnsOptRrLen]
  split <;> omega

/-- A question that leaves room for a response gets one, whatever the answers are: the
header, the question, the answers that are sent and the OPT record, within the limit. -/
theorem dnsBuildResponse_parts {query : Bytes} {q : DnsQueryInfo} (ans : List DnsAnswer)
    (rcode : Nat) (isUdp : Bool) {cap : Nat} (inside : q.q.rawOff + q.q.rawLen ≤ query.length)
    (short : dnsHdrLen + q.q.rawLen ≤ 500) (room : 512 ≤ cap) (size : cap < 2 ^ 64) :
    ∃ built, dnsBuildResponse query query.length q ans rcode isUdp cap = some built ∧
      built.bytes =
        headerBytes (replyHeader q (replyAnswers q ans rcode isUdp cap).2 rcode
          (replyAnswers q ans rcode isUdp cap).1.length) ++
        (slice query q.q.rawOff q.q.rawLen ++
          ((replyAnswers q ans rcode isUdp cap).1.flatMap (recordBytes q.q.name) ++
            responseOpt q)) ∧
      dnsHdrLen + q.q.rawLen +
          ((replyAnswers q ans rcode isUdp cap).1.flatMap (recordBytes q.q.name)).length ≤
        answerLimit q isUdp cap := by
  obtain ⟨least, most⟩ := effectiveCap_bounds q isUdp room
  have limit : answerLimit q isUdp cap ≤ effectiveCap q isUdp cap := Nat.sub_le _ _
  have question : (slice query q.q.rawOff q.q.rawLen).length = q.q.rawLen := length_slice inside
  have start : dnsHdrLen + q.q.rawLen ≤ answerLimit q isUdp cap := by
    unfold answerLimit dnsOptRrLen
    split <;> omega
  obtain ⟨sent, sentEq⟩ : ∃ sent, sent = replyAnswers q ans rcode isUdp cap := ⟨_, rfl⟩
  rw [← sentEq]
  have fits : dnsHdrLen + q.q.rawLen + (sent.1.flatMap (recordBytes q.q.name)).length ≤
      answerLimit q isUdp cap := by
    rw [sentEq, replyAnswers]
    split
    · exact (sentAnswers_emittable start (by omega)).2
    · simpa using start
  have looped : ∃ touched, (if rcode = dnsRcodeNoerror then
        emitAnswers q.q.name (answerLimit q isUdp cap) ans
          ⟨slice query q.q.rawOff q.q.rawLen, 0, false, dnsHdrLen + q.q.rawLen⟩
      else ⟨slice query q.q.rawOff q.q.rawLen, 0, false, dnsHdrLen + q.q.rawLen⟩) =
      ⟨slice query q.q.rawOff q.q.rawLen ++ sent.1.flatMap (recordBytes q.q.name), sent.1.length,
        sent.2, touched⟩ := by
    rw [sentEq, replyAnswers]
    split
    · obtain ⟨touched, emitted⟩ := @emitAnswers_sent q.q.name (answerLimit q isUdp cap) ans
        (by omega) ⟨slice query q.q.rawOff q.q.rawLen, 0, false, dnsHdrLen + q.q.rawLen⟩
        (by simpa only [question] using start)
      simp only [question, Nat.zero_add, Bool.false_or] at emitted
      exact ⟨touched, emitted⟩
    · exact ⟨dnsHdrLen + q.q.rawLen, by simp⟩
  obtain ⟨touched, looped⟩ := looped
  have optFits : (q.hasEdns && decide (dnsHdrLen + (slice query q.q.rawOff q.q.rawLen ++
      sent.1.flatMap (recordBytes q.q.name)).length + dnsOptRrLen ≤ effectiveCap q isUdp cap)) =
      q.hasEdns := by
    cases edns : q.hasEdns with
    | false => rfl
    | true =>
        simp only [answerLimit, edns, ↓reduceIte] at fits
        simp only [Bool.true_and, decide_eq_true_eq, List.length_append, question]
        rw [dnsOptRrLen] at fits ⊢
        omega
  rw [dnsBuildResponse, if_neg (by rw [dnsHdrLen]; omega), if_neg (by omega), if_neg (by omega)]
  simp only [question, answerCap_eq room, looped, optFits]
  refine ⟨_, rfl, ?_, fits⟩
  simp only [replyHeader, responseOpt]
  cases q.hasEdns <;> simp

end FizzDns
