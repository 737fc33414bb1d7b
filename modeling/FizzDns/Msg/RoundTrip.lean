import FizzDns.Msg.Emission

/-!
# Records read back

What `dns_build_response` writes is what `dns_parse_header`, `dns_skip_question` and
`dns_parse_rr` read: an encoded name is decoded where it sits (`decodeName_wireName`), and so
is each record behind a question (`dnsParseRr_record`).
-/

namespace FizzDns

/-! ## Names -/

/-- Labels in a message are read as the name they spell. -/
theorem decodeName_labels {before tail : Bytes} {labels : List Bytes} {len : Nat}
    (valid : ∀ label ∈ labels, LabelOk label)
    (inside : before.length + (wireLabels labels).length + 1 ≤ len)
    (short : (appendLabels [] labels).length ≤ dnsMaxName) :
    decodeName (before ++ (wireLabels labels ++ 0 :: tail)) len before.length =
      some (DnsName.ofText (appendLabels [] labels),
        before.length + (wireLabels labels).length + 1) := by
  rw [decodeName, dnsNameDecode_labels valid inside short]
  rfl

/-- An encoded name is decoded where it sits. -/
theorem decodeName_wireName {name before tail : Bytes} {len : Nat} (encodable : Encodable name)
    (inside : before.length + (wireName name).length ≤ len) :
    decodeName (before ++ (wireName name ++ tail)) len before.length =
      some (DnsName.ofText (foldCase (trimDot name)), before.length + (wireName name).length) := by
  obtain ⟨labels, valid, shape, text, short⟩ := encodable.labels
  have size : (wireName name).length = (wireLabels labels).length + 1 := by rw [shape]; simp
  have textSize := length_appendLabels_le [] labels
  simp only [List.length_nil, Nat.zero_add, dnsMaxName] at textSize short
  rw [shape, List.append_assoc, List.singleton_append,
    decodeName_labels valid (by omega) (by rw [dnsMaxName]; omega), text]
  simp [Nat.add_assoc]

/-- A pointer to the question is decoded to the question's name. -/
theorem decodeName_pointer {header between tail : Bytes} {labels : List Bytes} {len : Nat}
    (atHeader : header.length = dnsHdrLen) (valid : ∀ label ∈ labels, LabelOk label)
    (short : (appendLabels [] labels).length ≤ dnsMaxName)
    (few : labels.length ≤ dnsMaxName + 31)
    (inside : (header ++ (wireLabels labels ++ 0 :: between)).length + 2 ≤ len) :
    decodeName (header ++ (wireLabels labels ++ 0 :: between) ++ ([0xC0, 0x0C] ++ tail)) len
        (header ++ (wireLabels labels ++ 0 :: between)).length =
      some (DnsName.ofText (appendLabels [] labels),
        (header ++ (wireLabels labels ++ 0 :: between)).length + 2) := by
  let before := header ++ (wireLabels labels ++ 0 :: between)
  have first : byteAt (before ++ ([0xC0, 0x0C] ++ tail)) before.length = 0xC0 :=
    byteAt_append_right before _ 0
  have second : byteAt (before ++ ([0xC0, 0x0C] ++ tail)) (before.length + 1) = 0x0C :=
    byteAt_append_right before _ 1
  have behind : dnsHdrLen < before.length := by
    simp only [before, List.length_append, List.length_cons, atHeader]
    omega
  have target : nameDecodeLoop (before ++ ([0xC0, 0x0C] ++ tail)) len (dnsMaxName + 1)
      (dnsMaxName + 1 + maxPtrJumps) dnsHdrLen [] 1 (some (before.length + 2)) =
      some (appendLabels [] labels, before.length + 2) := by
    have room : header.length + (wireLabels labels).length + 1 ≤ len := by
      simp only [List.length_append, List.length_cons] at inside
      omega
    have shape : before ++ ([0xC0, 0x0C] ++ tail) =
        header ++ (wireLabels labels ++ 0 :: (between ++ ([0xC0, 0x0C] ++ tail))) := by
      simp [before]
    rw [shape, ← atHeader]
    exact nameDecodeLoop_labels valid room (Nat.lt_succ_of_le short) short
      (by simp only [maxPtrJumps]; omega)
  change decodeName (before ++ ([0xC0, 0x0C] ++ tail)) len before.length =
    some (_, before.length + 2)
  rw [decodeName, dnsNameDecode, if_neg (by decide), nameDecodeLoop]
  simp only [first, second]
  rw [if_neg (by simp only [before]; omega), if_neg (by decide), if_pos (by decide),
    if_neg (by simp only [before]; omega), if_neg (by decide),
    if_neg (by simpa [dnsHdrLen] using behind)]
  rw [show (0xC0 &&& 0x3F : UInt8).toNat * 256 + (0x0C : UInt8).toNat = dnsHdrLen from rfl,
    show (none : Option Nat).getD (before.length + 2) = before.length + 2 from rfl, target]
  rfl

/-! ## Records -/

/-- A lower-case text that can be encoded. -/
def SendableName (name : DnsName) : Prop :=
  Encodable name.chars ∧ foldCase name.chars = name.chars

/-- An answer of type A, AAAA or CNAME with names that can be sent. -/
structure Sendable (answer : DnsAnswer) : Prop where
  owner : SendableName answer.owner
  rdata : match answer.rdata with
    | .a _ => True
    | .aaaa _ => True
    | .cname target => SendableName target
    | .other _ _ => False

/-- A sendable answer is written, whatever the question is. -/
theorem Sendable.emittable {answer : DnsAnswer} (sendable : Sendable answer) (qname : DnsName) :
    Emittable qname answer := by
  refine ⟨Or.inr sendable.owner.1, ?_⟩
  have rdata := sendable.rdata
  cases kind : answer.rdata with
  | a octets => trivial
  | aaaa octets => trivial
  | cname target =>
      rw [kind] at rdata
      exact rdata.1
  | other type foreign =>
      rw [kind] at rdata
      exact rdata

/-! ## Reading records back -/

/-- The fixed fields and the data of a record behind its owner. -/
theorem dnsParseRr_fields {front data tail : Bytes} {type rclass : UInt16} {ttl : UInt32}
    {len off : Nat} {name : DnsName} (small : data.length < 65536)
    (inside : front.length + 10 + data.length ≤ len)
    (decoded : decodeName (front ++ (wr16 type ++ (wr16 rclass ++ (wr32 ttl ++
      (wr16 (UInt16.ofNat data.length) ++ (data ++ tail)))))) len off = some (name, front.length)) :
    dnsParseRr (front ++ (wr16 type ++ (wr16 rclass ++ (wr32 ttl ++
        (wr16 (UInt16.ofNat data.length) ++ (data ++ tail)))))) len off =
      some (⟨name, type, rclass, ttl, UInt16.ofNat data.length, front.length + 10⟩,
        front.length + 10 + data.length) := by
  have typeField : rd16 (front ++ (wr16 type ++ (wr16 rclass ++ (wr32 ttl ++
      (wr16 (UInt16.ofNat data.length) ++ (data ++ tail)))))) front.length = type :=
    (rd16_append_right front _ 0).trans (rd16_wr16 _ _)
  have classField : rd16 (front ++ (wr16 type ++ (wr16 rclass ++ (wr32 ttl ++
      (wr16 (UInt16.ofNat data.length) ++ (data ++ tail)))))) (front.length + 2) = rclass :=
    (rd16_append_right front _ 2).trans ((rd16_append_right (wr16 type) _ 0).trans (rd16_wr16 _ _))
  have ttlField : rd32 (front ++ (wr16 type ++ (wr16 rclass ++ (wr32 ttl ++
      (wr16 (UInt16.ofNat data.length) ++ (data ++ tail)))))) (front.length + 4) = ttl :=
    (rd32_append_right front _ 4).trans ((rd32_append_right (wr16 type) _ 2).trans
      ((rd32_append_right (wr16 rclass) _ 0).trans (rd32_wr32 _ _)))
  have lengthField : rd16 (front ++ (wr16 type ++ (wr16 rclass ++ (wr32 ttl ++
      (wr16 (UInt16.ofNat data.length) ++ (data ++ tail)))))) (front.length + 8) =
      UInt16.ofNat data.length :=
    (rd16_append_right front _ 8).trans ((rd16_append_right (wr16 type) _ 6).trans
      ((rd16_append_right (wr16 rclass) _ 4).trans ((rd16_append_right (wr32 ttl) _ 0).trans
        (rd16_wr16 _ _))))
  have size : (UInt16.ofNat data.length).toNat = data.length := by
    rw [UInt16.toNat_ofNat']
    omega
  rw [dnsParseRr, decoded]
  simp only [typeField, classField, ttlField, lengthField, size]
  rw [if_neg (by omega), if_neg (by omega)]

/-- What a record has to be to stand for an answer. The owner loses a trailing dot,
unless it is the question's own name. -/
structure ReadsBack (msg : Bytes) (len : Nat) (qname : DnsName) (answer : DnsAnswer)
    (rr : DnsRr) : Prop where
  owner : rr.name.chars =
    if dnsNameEqual answer.owner.chars qname.chars then answer.owner.chars
    else trimDot answer.owner.chars
  type : rr.type = answer.type
  rclass : rr.rclass = dnsClassIn
  ttl : rr.ttl = answer.ttl
  rdata : match answer.rdata with
    | .a octets => slice msg rr.rdata rr.rdlength.toNat = List.ofFn octets
    | .aaaa octets => slice msg rr.rdata rr.rdlength.toNat = List.ofFn octets
    | .cname target => ∃ name, decodeName msg len rr.rdata =
        some (name, rr.rdata + rr.rdlength.toNat) ∧ name.chars = trimDot target.chars
    | .other _ _ => False

/-- The text that a sent name reads back as. -/
theorem SendableName.trimmed {name : DnsName} (sendable : SendableName name) :
    (DnsName.ofText (foldCase (trimDot name.chars))).chars = trimDot name.chars := by
  have sublist := trimDot_sublist name.chars
  have lower : foldCase (trimDot name.chars) = trimDot name.chars := by
    rw [foldCase_eq_self_iff]
    exact fun byte member => (foldCase_eq_self_iff _).mp sendable.2 byte (sublist.subset member)
  rw [lower]
  exact DnsName.ofText_chars_of_nulFree (sublist.length_le.trans name.fits)
    fun zero => name.nulFree (sublist.subset zero)

/-- The front of a response: a header and the labels of the question, which pointers in
the answers refer to. -/
structure QuestionFront (front : Bytes) (qname : DnsName) (labels : List Bytes) : Prop where
  valid : ∀ label ∈ labels, LabelOk label
  short : (appendLabels [] labels).length ≤ dnsMaxName
  named : DnsName.ofText (appendLabels [] labels) = qname
  shape : ∃ header between, header.length = dnsHdrLen ∧
    front = header ++ (wireLabels labels ++ 0 :: between)

/-- More bytes behind the question. -/
theorem QuestionFront.append {front : Bytes} {qname : DnsName} {labels : List Bytes}
    (question : QuestionFront front qname labels) (more : Bytes) :
    QuestionFront (front ++ more) qname labels := by
  obtain ⟨valid, short, named, header, between, atHeader, rfl⟩ := question
  exact ⟨valid, short, named, header, between ++ more, atHeader, by simp⟩

/-- The owner of a record is decoded behind the question. -/
theorem decodeName_owner {front : Bytes} {qname owner : DnsName} {labels : List Bytes} {len : Nat}
    (tail : Bytes) (question : QuestionFront front qname labels) (sendable : SendableName owner)
    (folded : foldCase qname.chars = qname.chars)
    (inside : front.length + (ownerBytes qname owner).length ≤ len) :
    ∃ name, decodeName (front ++ (ownerBytes qname owner ++ tail)) len front.length =
        some (name, front.length + (ownerBytes qname owner).length) ∧
      name.chars = if dnsNameEqual owner.chars qname.chars then owner.chars
        else trimDot owner.chars := by
  unfold ownerBytes at inside ⊢
  split
  · next same =>
      rw [if_pos same] at inside
      obtain ⟨valid, short, named, header, between, atHeader, rfl⟩ := question
      have few := length_le_appendLabels_of_valid valid []
      refine ⟨qname, ?_, ?_⟩
      · rw [← named]
        exact decodeName_pointer atHeader valid short (by simp at few; omega) inside
      · rw [dnsNameEqual_iff, sendable.2, folded] at same
        exact same.symm
  · next differ =>
      rw [if_neg differ] at inside
      exact ⟨_, decodeName_wireName sendable.1 inside, sendable.trimmed⟩

/-- The data of a record is read behind its ten fixed bytes. -/
theorem rdata_readsBack {owned tail : Bytes} {answer : DnsAnswer} {len : Nat}
    (sendable : Sendable answer)
    (inside : owned.length + 10 + (rdataBytes answer.rdata).length ≤ len) :
    match answer.rdata with
    | .a octets => slice (owned ++ (wr16 answer.type ++ (wr16 dnsClassIn ++ (wr32 answer.ttl ++
        (wr16 (UInt16.ofNat (rdataBytes answer.rdata).length) ++
          (rdataBytes answer.rdata ++ tail)))))) (owned.length + 10)
        (rdataBytes answer.rdata).length = List.ofFn octets
    | .aaaa octets => slice (owned ++ (wr16 answer.type ++ (wr16 dnsClassIn ++ (wr32 answer.ttl ++
        (wr16 (UInt16.ofNat (rdataBytes answer.rdata).length) ++
          (rdataBytes answer.rdata ++ tail)))))) (owned.length + 10)
        (rdataBytes answer.rdata).length = List.ofFn octets
    | .cname target => ∃ name, decodeName (owned ++ (wr16 answer.type ++ (wr16 dnsClassIn ++
        (wr32 answer.ttl ++ (wr16 (UInt16.ofNat (rdataBytes answer.rdata).length) ++
          (rdataBytes answer.rdata ++ tail)))))) len (owned.length + 10) =
        some (name, owned.length + 10 + (rdataBytes answer.rdata).length) ∧
          name.chars = trimDot target.chars
    | .other _ _ => False := by
  obtain ⟨fixed, fixedEq⟩ : ∃ fixed, fixed = owned ++ (wr16 answer.type ++ (wr16 dnsClassIn ++
    (wr32 answer.ttl ++ wr16 (UInt16.ofNat (rdataBytes answer.rdata).length)))) := ⟨_, rfl⟩
  have size : owned.length + 10 = fixed.length := by
    simp only [fixedEq, List.length_append, length_wr16, length_wr32]
  have shape : owned ++ (wr16 answer.type ++ (wr16 dnsClassIn ++ (wr32 answer.ttl ++
      (wr16 (UInt16.ofNat (rdataBytes answer.rdata).length) ++
        (rdataBytes answer.rdata ++ tail))))) =
      fixed ++ (rdataBytes answer.rdata ++ tail) := by
    simp only [fixedEq, List.append_assoc]
  rw [shape, size]
  rw [size] at inside
  have rdata := sendable.rdata
  cases kind : answer.rdata with
  | a octets => exact (slice_append_right fixed _ 0 _).trans (slice_append_left _ _)
  | aaaa octets => exact (slice_append_right fixed _ 0 _).trans (slice_append_left _ _)
  | cname target =>
      rw [kind] at rdata inside
      exact ⟨_, decodeName_wireName rdata.1 inside, rdata.trimmed⟩
  | other type foreign =>
      rw [kind] at rdata
      exact rdata

/-- A record behind a question parses back. -/
theorem dnsParseRr_record {front tail : Bytes} {qname : DnsName} {labels : List Bytes}
    {answer : DnsAnswer} {len : Nat} (question : QuestionFront front qname labels)
    (folded : foldCase qname.chars = qname.chars) (sendable : Sendable answer)
    (inside : front.length + (recordBytes qname answer).length ≤ len) :
    ∃ rr, dnsParseRr (front ++ (recordBytes qname answer ++ tail)) len front.length =
        some (rr, front.length + (recordBytes qname answer).length) ∧
      ReadsBack (front ++ (recordBytes qname answer ++ tail)) len qname answer rr := by
  have small := (sendable.emittable qname).length_rdataBytes_le
  have size := length_recordBytes qname answer
  rw [dnsMaxName] at small
  obtain ⟨owned, ownedEq⟩ : ∃ owned, owned = front ++ ownerBytes qname answer.owner := ⟨_, rfl⟩
  have ownedSize : owned.length = front.length + (ownerBytes qname answer.owner).length := by
    rw [ownedEq, List.length_append]
  have shape : front ++ (recordBytes qname answer ++ tail) =
      owned ++ (wr16 answer.type ++ (wr16 dnsClassIn ++ (wr32 answer.ttl ++
        (wr16 (UInt16.ofNat (rdataBytes answer.rdata).length) ++
          (rdataBytes answer.rdata ++ tail))))) := by
    simp only [ownedEq, recordBytes, List.append_assoc]
  have inOwner : front.length + (ownerBytes qname answer.owner).length ≤ len := by omega
  obtain ⟨name, decoded, ownerText⟩ := decodeName_owner (wr16 answer.type ++ (wr16 dnsClassIn ++
    (wr32 answer.ttl ++ (wr16 (UInt16.ofNat (rdataBytes answer.rdata).length) ++
      (rdataBytes answer.rdata ++ tail))))) question sendable.owner folded inOwner
  rw [← List.append_assoc, ← List.length_append, ← ownedEq] at decoded
  have parsed := dnsParseRr_fields (by omega) (by omega) decoded
  have lengthField : (UInt16.ofNat (rdataBytes answer.rdata).length).toNat =
      (rdataBytes answer.rdata).length := by
    rw [UInt16.toNat_ofNat']
    omega
  have ends : owned.length + 10 + (rdataBytes answer.rdata).length =
      front.length + (recordBytes qname answer).length := by omega
  refine ⟨_, by rw [shape, parsed, ends], ownerText, rfl, rfl, rfl, ?_⟩
  simp only [lengthField, shape]
  exact rdata_readsBack sendable (ends ▸ inside)

/-- Records behind a question parse back one after the other. -/
theorem parseRecords_records {front tail : Bytes} {qname : DnsName} {labels : List Bytes}
    {ans : List DnsAnswer} {len : Nat} (question : QuestionFront front qname labels)
    (folded : foldCase qname.chars = qname.chars) (sendable : ∀ answer ∈ ans, Sendable answer)
    (inside : front.length + (ans.flatMap (recordBytes qname)).length ≤ len) :
    ∃ records, parseRecords (front ++ (ans.flatMap (recordBytes qname) ++ tail)) len ans.length
        front.length = some (records, front.length + (ans.flatMap (recordBytes qname)).length) ∧
      List.Forall₂ (ReadsBack (front ++ (ans.flatMap (recordBytes qname) ++ tail)) len qname) ans
        records := by
  induction ans generalizing front with
  | nil => exact ⟨[], rfl, .nil⟩
  | cons answer rest ih =>
      rw [List.forall_mem_cons] at sendable
      simp only [List.flatMap_cons, List.length_append, List.append_assoc, List.length_cons]
        at inside ⊢
      obtain ⟨rr, parsed, reads⟩ := dnsParseRr_record question folded sendable.1
        (show front.length + (recordBytes qname answer).length ≤ len by omega)
      obtain ⟨records, others, matched⟩ :=
        ih (question.append (recordBytes qname answer)) sendable.2
        (by rw [List.length_append]; omega)
      rw [List.append_assoc] at others matched
      rw [List.length_append] at others
      refine ⟨rr :: records, ?_, .cons reads matched⟩
      simp only [parseRecords, parsed, others, Option.bind_eq_bind, Option.bind_some,
        Nat.add_assoc]

end FizzDns
