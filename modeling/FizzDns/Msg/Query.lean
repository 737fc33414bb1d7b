import FizzDns.Msg.NameLimits
import FizzDns.Msg.Response

/-!
# Queries read back

`dns_build_query` checks its capacity before the header, inside the name encoder, before type and
class and before the OPT record. Together these are one comparison of the capacity with the length
of the query (`dnsBuildQuery_eq_some_iff`), and what it then writes is what `dns_parse_query` reads.
-/

namespace FizzDns

/-! ## Names that can be encoded -/

/-- The octets that a name takes on the wire. -/
def wireOctets (name : Bytes) : Nat :=
  if trimDot name = [] then 1 else (trimDot name).length + 2

/-- The root is written as the empty string or as a bare dot. -/
theorem trimDot_eq_nil (name : Bytes) : trimDot name = [] ↔ name = [] ∨ name = [46] := by
  unfold trimDot
  split
  · next dotted =>
      obtain ⟨body, rfl⟩ := List.getLast?_eq_some_iff.mp dotted
      simp
  · next plain =>
      constructor
      · exact Or.inl
      · rintro (rfl | rfl)
        · rfl
        · exact (plain rfl).elim

/-- The root has an encoding of one octet. -/
theorem dnsNameEncode_root {name : Bytes} (top : trimDot name = []) :
    dnsNameEncode name 1 = .ok [0] := by
  rw [dnsNameEncode, if_pos ((trimDot_eq_nil name).mp top), if_neg (Nat.lt_irrefl 1)]

/-- A name can be encoded if it is the root, or if its labels have the right length and, without a
trailing dot, it has at most 254 characters. -/
theorem encodable_iff (name : Bytes) :
    Encodable name ↔
      trimDot name = [] ∨ LabelsOk name ∧ (trimDot name).length < dnsMaxName := by
  constructor
  · rintro ⟨cap, encoded, accepted⟩
    by_cases top : trimDot name = []
    · exact Or.inl top
    · right
      refine ⟨labelsOk_of_dnsNameEncode accepted (mt (trimDot_eq_nil name).mpr top), ?_⟩
      obtain ⟨labels, valid, rfl, text, short, _⟩ := dnsNameEncode_ok accepted
      have longer := length_appendLabels_le [] labels
      rw [text, length_foldCase, List.length_nil, Nat.zero_add] at longer
      have positive := List.length_pos_iff.mpr top
      have size := length_dnsNameEncode accepted (by
        rw [List.length_append, List.length_singleton]
        omega)
      rw [size] at short
      omega
  · rintro (top | ⟨valid, limited⟩)
    · exact ⟨1, [0], dnsNameEncode_root top⟩
    · by_cases top : trimDot name = []
      · exact ⟨1, [0], dnsNameEncode_root top⟩
      · obtain ⟨encoded, accepted, _⟩ :=
          dnsNameEncode_of_labelsOk valid top limited (Nat.le_refl _)
        exact ⟨_, encoded, accepted⟩

/-- The length of an encoded name. -/
theorem length_wireName {name : Bytes} (encodable : Encodable name) :
    (wireName name).length = wireOctets name := by
  unfold wireOctets
  split
  · next top =>
      obtain ⟨_, same, _⟩ := dnsNameEncode_ok_iff.mp (dnsNameEncode_root top)
      rw [← same]
      rfl
  · next inner =>
      rcases (encodable_iff name).mp encodable with top | ⟨valid, limited⟩
      · exact (inner top).elim
      · obtain ⟨encoded, accepted, size⟩ :=
          dnsNameEncode_of_labelsOk valid inner limited (Nat.le_refl _)
        obtain ⟨_, same, _⟩ := dnsNameEncode_ok_iff.mp accepted
        rw [← same, size]

/-! ## What is written -/

/-- The header of a query. -/
def queryHeader (id : UInt16) (rd : Bool) (ednsUdpPayload : UInt16) : DnsHeader where
  id := id
  flags := if rd then dnsFlagRd else 0
  qdcount := 1
  ancount := 0
  nscount := 0
  arcount := if ednsUdpPayload ≠ 0 then 1 else 0

/-- The OPT record of a query, absent when the payload is 0. -/
def queryOpt (ednsUdpPayload : UInt16) : Bytes :=
  if ednsUdpPayload ≠ 0 then optRecord ednsUdpPayload 0 else []

/-- A query without regard to room. -/
def queryBytes (id : UInt16) (name : Bytes) (qtype : UInt16) (rd : Bool)
    (ednsUdpPayload : UInt16) : Bytes :=
  headerBytes (queryHeader id rd ednsUdpPayload) ++
    (wireName name ++ (wr16 qtype ++ (wr16 dnsClassIn ++ queryOpt ednsUdpPayload)))

/-- The length of a query: header, name, type and class, and the OPT record if there is one. -/
def queryLength (name : Bytes) (ednsUdpPayload : UInt16) : Nat :=
  dnsHdrLen + wireOctets name + 4 + (if ednsUdpPayload ≠ 0 then dnsOptRrLen else 0)

/-- The OPT record of a query takes 11 bytes, if there is one. -/
theorem length_queryOpt (ednsUdpPayload : UInt16) :
    (queryOpt ednsUdpPayload).length = if ednsUdpPayload ≠ 0 then dnsOptRrLen else 0 := by
  unfold queryOpt
  split <;> rfl

section

variable {id : UInt16} {name : Bytes} {qtype : UInt16} {rd : Bool} {ednsUdpPayload : UInt16}

theorem length_queryBytes (encodable : Encodable name) :
    (queryBytes id name qtype rd ednsUdpPayload).length = queryLength name ednsUdpPayload := by
  simp only [queryBytes, List.length_append, length_wireName encodable, length_queryOpt,
    length_wr16, queryLength]
  change dnsHdrLen + _ = _
  omega

/-- **The capacity checks are one.** A query is built when its name can be encoded and the whole
of it fits. -/
theorem dnsBuildQuery_eq_some_iff {cap : Nat} {msg : Bytes} :
    dnsBuildQuery id name qtype rd ednsUdpPayload cap = some msg ↔
      Encodable name ∧ queryLength name ednsUdpPayload ≤ cap ∧
        msg = queryBytes id name qtype rd ednsUdpPayload := by
  have least : dnsHdrLen + wireOctets name + 4 ≤ queryLength name ednsUdpPayload :=
    Nat.le_add_right _ _
  rw [dnsBuildQuery]
  by_cases short : cap < dnsHdrLen
  · rw [if_pos short]
    refine ⟨fun built => absurd built (by simp), ?_⟩
    rintro ⟨_, fits, _⟩
    omega
  rw [if_neg short]
  cases encoded : dnsNameEncode name (cap - dnsHdrLen) with
  | error wrote =>
      refine ⟨fun built => absurd built (by simp), ?_⟩
      rintro ⟨encodable, fits, _⟩
      have accepted : dnsNameEncode name (cap - dnsHdrLen) = .ok (wireName name) := by
        refine dnsNameEncode_ok_iff.mpr ⟨encodable, rfl, ?_⟩
        rw [length_wireName encodable]
        omega
      rw [encoded] at accepted
      cases accepted
  | ok written =>
      obtain ⟨encodable, rfl, _⟩ := dnsNameEncode_ok_iff.mp encoded
      simp only [length_wireName encodable, encodable, true_and]
      by_cases edns : ednsUdpPayload = 0
      · simp [edns, queryLength, queryBytes, queryOpt, queryHeader, eq_comm]
      · simp only [edns, queryLength, queryBytes, queryOpt, queryHeader, ne_eq, not_false_eq_true,
          ↓reduceIte, Option.ite_none_left_eq_some, Option.some.injEq, Nat.not_lt, gt_iff_lt,
          List.append_assoc]
        constructor
        · rintro ⟨_, fits, same⟩
          exact ⟨fits, same.symm⟩
        · rintro ⟨fits, same⟩
          exact ⟨(Nat.le_add_right _ _).trans fits, fits, same.symm⟩

end

/-! ## What is read -/

/-- `dns_parse_query` on a query with a written name: the header, the question, and what is found
in the record right behind it. -/
theorem dnsParseQuery_written {header : DnsHeader} {name tail msg : Bytes} {qtype qclass : UInt16}
    {opt : Option DnsRr}
    (shape : msg = headerBytes header ++ (wireName name ++ (wr16 qtype ++ (wr16 qclass ++ tail))))
    (encodable : Encodable name) (request : header.flags &&& dnsFlagQr = 0)
    (standard : header.flags &&& dnsOpcodeMask = 0) (single : header.qdcount = 1)
    (edns : parseEdns msg msg.length (dnsHdrLen + (wireName name).length + 4) header.arcount =
      opt) :
    ∃ q, dnsParseQuery msg msg.length = some q ∧ q.hdr = header ∧
      q.q = ⟨DnsName.ofText (foldCase (trimDot name)), qtype, qclass, dnsHdrLen,
        (wireName name).length + 4⟩ ∧
      q.recursionDesired = decide (header.flags &&& dnsFlagRd ≠ 0) ∧
      q.hasEdns = opt.isSome ∧ q.ednsUdpPayload = (opt.map DnsRr.rclass).getD 0 ∧
      q.ednsVersion = (opt.map fun opt : DnsRr => (opt.ttl >>> 16).toUInt8).getD 0 ∧
      q.ednsDo = (opt.map fun opt : DnsRr => decide (opt.ttl &&& 0x8000 ≠ 0)).getD false := by
  have size : msg.length = dnsHdrLen + (wireName name).length + 4 + tail.length := by
    simp only [shape, List.length_append, length_wr16]
    change dnsHdrLen + _ = _
    omega
  have parsed : dnsParseHeader msg msg.length = some header := by
    rw [shape]
    exact dnsParseHeader_headerBytes header _ (shape ▸ by omega)
  have decoded : decodeName msg msg.length dnsHdrLen =
      some (DnsName.ofText (foldCase (trimDot name)), dnsHdrLen + (wireName name).length) := by
    have inside : dnsHdrLen + (wireName name).length ≤ msg.length := by omega
    rw [shape] at inside ⊢
    exact decodeName_wireName encodable inside
  have typeRead : rd16 msg (dnsHdrLen + (wireName name).length) = qtype := by
    change rd16 msg ((headerBytes header).length + _) = _
    rw [shape, rd16_append_right]
    exact (rd16_append_right _ _ 0).trans (rd16_wr16 _ _)
  have classRead : rd16 msg (dnsHdrLen + (wireName name).length + 2) = qclass := by
    change rd16 msg ((headerBytes header).length + ((wireName name).length + 2)) = _
    rw [shape, rd16_append_right, rd16_append_right]
    exact (rd16_append_right (wr16 qtype) _ 0).trans (rd16_wr16 _ _)
  rw [dnsParseQuery, parsed]
  simp only [request, standard, single, decoded, edns, ne_eq, not_true_eq_false, ↓reduceIte]
  rw [if_neg (by omega)]
  refine ⟨_, rfl, rfl, ?_, rfl, rfl, rfl, rfl, rfl⟩
  rw [typeRead, classRead, Nat.add_assoc, Nat.add_sub_cancel_left]

/-- The flags of a query ask for recursion as wanted, and are those of a standard query. -/
theorem queryFlags_bits (rd : Bool) :
    (if rd then dnsFlagRd else 0) &&& dnsFlagQr = 0 ∧
    (if rd then dnsFlagRd else 0) &&& dnsOpcodeMask = 0 ∧
    decide ((if rd then dnsFlagRd else 0) &&& dnsFlagRd ≠ 0) = rd := by
  cases rd <;> decide

/-- The OPT record of a query is found behind its question. -/
theorem parseEdns_queryOpt (front : Bytes) (ednsUdpPayload : UInt16) :
    (parseEdns (front ++ queryOpt ednsUdpPayload) (front ++ queryOpt ednsUdpPayload).length
      front.length (if ednsUdpPayload ≠ 0 then 1 else 0)) =
    if ednsUdpPayload ≠ 0 then
      some ⟨DnsName.root, dnsTypeOpt, ednsUdpPayload, 0, 0, front.length + dnsOptRrLen⟩
    else none := by
  by_cases edns : ednsUdpPayload = 0
  · simp [edns, parseEdns]
  · have size : front.length + dnsOptRrLen ≤ (front ++ queryOpt ednsUdpPayload).length := by
      rw [List.length_append, length_queryOpt, if_pos edns]
    simp only [parseEdns, ne_eq, edns, not_false_eq_true, ↓reduceIte, ge_iff_le, UInt16.le_refl]
    have written : queryOpt ednsUdpPayload = optRecord ednsUdpPayload 0 := if_pos edns
    rw [written] at size ⊢
    rw [dnsParseRr_optRecord front ednsUdpPayload 0 size]
    rfl

/-- The text that an encoded name reads back as is stored whole. -/
theorem CString.ofText_trimmed (name : CString) (encodable : Encodable name.chars) :
    (DnsName.ofText (foldCase (trimDot name.chars))).chars = foldCase (trimDot name.chars) := by
  apply DnsName.ofText_chars_of_nulFree
  · rw [length_foldCase]
    rcases (encodable_iff name.chars).mp encodable with top | ⟨_, limited⟩
    · rw [top]
      exact Nat.zero_le _
    · exact limited.le
  · simp only [foldCase, List.mem_map, tolower_eq_zero, exists_eq_right]
    exact fun zero => name.nulFree ((trimDot_sublist name.chars).subset zero)

/-- **Query round trip.** `dns_build_query` fails exactly when the name is not the root and has a
label of the wrong length or more than 254 characters, or when the whole query does not fit. What
it builds otherwise is read back by `dns_parse_query`. -/
theorem dnsBuildQuery_reads (id : UInt16) (name : CString) (qtype : UInt16) (rd : Bool)
    (ednsUdpPayload : UInt16) (cap : Nat) :
    (dnsBuildQuery id name.chars qtype rd ednsUdpPayload cap = none ↔
      ¬ (trimDot name.chars = [] ∨
        LabelsOk name.chars ∧ (trimDot name.chars).length < dnsMaxName) ∨
      cap < queryLength name.chars ednsUdpPayload) ∧
    ∀ msg, dnsBuildQuery id name.chars qtype rd ednsUdpPayload cap = some msg →
      msg.length = queryLength name.chars ednsUdpPayload ∧
      ∃ q, dnsParseQuery msg msg.length = some q ∧
        q.hdr.id = id ∧
        q.q.name.chars = foldCase (trimDot name.chars) ∧
        q.q.qtype = qtype ∧ q.q.qclass = dnsClassIn ∧
        q.recursionDesired = rd ∧
        q.q.rawOff = dnsHdrLen ∧ q.q.rawLen = wireOctets name.chars + 4 ∧
        (q.hasEdns = true ↔ ednsUdpPayload ≠ 0) ∧
        (ednsUdpPayload ≠ 0 →
          q.ednsUdpPayload = ednsUdpPayload ∧ q.ednsVersion = 0 ∧ q.ednsDo = false) := by
  constructor
  · rw [← encodable_iff, Option.eq_none_iff_forall_ne_some]
    simp only [ne_eq, dnsBuildQuery_eq_some_iff]
    constructor
    · intro failed
      by_contra! other
      exact failed _ ⟨other.1, other.2, rfl⟩
    · rintro missing msg ⟨encodable, fits, _⟩
      rcases missing with other | large
      · exact other encodable
      · exact Nat.not_lt.mpr fits large
  · intro msg built
    obtain ⟨encodable, _, rfl⟩ := dnsBuildQuery_eq_some_iff.mp built
    let front := headerBytes (queryHeader id rd ednsUdpPayload) ++
      (wireName name.chars ++ (wr16 qtype ++ wr16 dnsClassIn))
    have frontSize : front.length = dnsHdrLen + (wireName name.chars).length + 4 := by
      simp only [front, List.length_append, length_wr16]
      change dnsHdrLen + _ = _
      omega
    have shape : queryBytes id name.chars qtype rd ednsUdpPayload =
        front ++ queryOpt ednsUdpPayload := by
      simp only [queryBytes, front, List.append_assoc]
    obtain ⟨request, standard, asked⟩ := queryFlags_bits rd
    have opt := parseEdns_queryOpt front ednsUdpPayload
    rw [← shape, frontSize] at opt
    obtain ⟨q, parsed, hdr, question, recursion, present, payload, version, dnssec⟩ :=
      dnsParseQuery_written rfl encodable request standard rfl opt
    refine ⟨length_queryBytes encodable, q, parsed, by rw [hdr]; rfl, ?_, by rw [question],
      by rw [question], recursion.trans asked, by rw [question],
      by rw [question, length_wireName encodable], ?_, ?_⟩
    · rw [question]
      exact name.ofText_trimmed encodable
    · rw [present]
      by_cases none : ednsUdpPayload = 0 <;> simp [none]
    · intro some
      rw [payload, version, dnssec, if_pos some]
      exact ⟨rfl, by simp, by simp⟩

end FizzDns
