import FizzDns.Msg.Build
import FizzDns.Msg.Checked

/-!
# Where EDNS is read from

The OPT record of a query belongs to the additional section, behind the answer and authority records
that the header announces. `dns_parse_query` looks for it right behind the question. The two places
are the same only in a query without answer and authority records; otherwise the query is read
rightly when the record behind the question happens to say the same as the first additional one.
-/

namespace FizzDns

/-! ## What a record says of EDNS -/

/-- The fields that an OPT record carries. -/
structure EdnsOpt where
  udpPayload : UInt16
  version : UInt8
  dnssecOk : Bool
  deriving DecidableEq

/-- The record is an OPT record owned by the root. -/
def DnsRr.IsOpt (rr : DnsRr) : Prop :=
  rr.type = dnsTypeOpt ∧ rr.name.chars = []

instance (rr : DnsRr) : Decidable rr.IsOpt :=
  inferInstanceAs (Decidable (_ ∧ _))

/-- The fields of a record read as those of an OPT record. -/
def DnsRr.optFields (rr : DnsRr) : EdnsOpt where
  udpPayload := rr.rclass
  version := (rr.ttl >>> 16).toUInt8
  dnssecOk := rr.ttl &&& 0x8000 ≠ 0

/-- What a record says of EDNS: nothing unless it is an OPT record owned by the root. -/
def DnsRr.edns (rr : DnsRr) : Option EdnsOpt :=
  if rr.IsOpt then some rr.optFields else none

/-- What a query was found to say of EDNS. -/
def DnsQueryInfo.edns (q : DnsQueryInfo) : Option EdnsOpt :=
  if q.hasEdns then some ⟨q.ednsUdpPayload, q.ednsVersion, q.ednsDo⟩ else none

/-- The query has EDNS if and only if the record is there and is an OPT record owned by the root,
and its EDNS fields are then those of the record. -/
def ReadsEdns (q : DnsQueryInfo) (record : Option DnsRr) : Prop :=
  (q.hasEdns = true ↔ ∃ rr ∈ record, rr.IsOpt) ∧
  ∀ rr ∈ record, rr.IsOpt → q.ednsUdpPayload = rr.rclass ∧
    q.ednsVersion = (rr.ttl >>> 16).toUInt8 ∧ q.ednsDo = decide (rr.ttl &&& 0x8000 ≠ 0)

/-- A query has read a record if that is where its EDNS part comes from. -/
theorem readsEdns_iff (q : DnsQueryInfo) (record : Option DnsRr) :
    ReadsEdns q record ↔ q.edns = record.bind DnsRr.edns := by
  cases record with
  | none => simp [ReadsEdns, DnsQueryInfo.edns]
  | some rr =>
      by_cases opt : rr.IsOpt
      · simp [ReadsEdns, DnsQueryInfo.edns, DnsRr.edns, DnsRr.optFields, opt]
      · simp [ReadsEdns, DnsQueryInfo.edns, DnsRr.edns, opt]

/-! ## The sections of a query -/

/-- The records of a query behind its question, read in the numbers that the header gives: the
answers, the authority records, and the first additional record when one is announced. -/
def readSections (query : Bytes) (hdr : DnsHeader) (behind : Nat) :
    Option (List DnsRr × List DnsRr × Option DnsRr) := do
  let (answers, authorityOff) ← parseRecords query query.length hdr.ancount.toNat behind
  let (authority, additionalOff) ←
    parseRecords query query.length hdr.nscount.toNat authorityOff
  if hdr.arcount ≥ 1 then
    let (first, _) ← dnsParseRr query query.length additionalOff
    some (answers, authority, some first)
  else some (answers, authority, none)

/-- A section without records ends where it starts, and any other starts with its first record. -/
theorem parseRecords_head {msg : Bytes} {len count off last : Nat} {records : List DnsRr}
    (read : parseRecords msg len count off = some (records, last)) :
    (records = [] ∧ last = off) ∨
      ∃ rr ∈ records.head?, (dnsParseRr msg len off).map Prod.fst = some rr := by
  cases count with
  | zero =>
      cases read
      exact Or.inl ⟨rfl, rfl⟩
  | succ count =>
      simp only [parseRecords, Option.bind_eq_bind, Option.bind_eq_some_iff] at read
      obtain ⟨⟨rr, next⟩, first, ⟨rest, ending⟩, _, same⟩ := read
      cases same
      exact Or.inr ⟨rr, rfl, by rw [first]; rfl⟩

/-- The record right behind the question, where an additional section is announced: the first of
the answer and authority records, or the first additional one if there are none of these. -/
theorem readSections_behind {query : Bytes} {hdr : DnsHeader} {behind : Nat}
    {answers authority : List DnsRr} {additional : Option DnsRr}
    (read : readSections query hdr behind = some (answers, authority, additional))
    (announced : hdr.arcount ≥ 1) :
    (dnsParseRr query query.length behind).map Prod.fst =
      (answers ++ authority).head?.or additional := by
  simp only [readSections, Option.bind_eq_bind, Option.bind_eq_some_iff, announced,
    ↓reduceIte] at read
  obtain ⟨⟨_, authorityOff⟩, first, ⟨_, additionalOff⟩, second, ⟨rr, next⟩, third, same⟩ := read
  cases same
  rcases parseRecords_head first with ⟨rfl, rfl⟩ | ⟨head, member, found⟩
  · rcases parseRecords_head second with ⟨rfl, rfl⟩ | ⟨head, member, found⟩
    · simp [third]
    · rw [found, List.nil_append, member]
      rfl
  · rw [found, List.head?_append, member]
    rfl

/-- Without an announcement there is no additional record. -/
theorem readSections_absent {query : Bytes} {hdr : DnsHeader} {behind : Nat}
    {answers authority : List DnsRr} {additional : Option DnsRr}
    (read : readSections query hdr behind = some (answers, authority, additional))
    (absent : ¬ hdr.arcount ≥ 1) : additional = none := by
  simp only [readSections, Option.bind_eq_bind, Option.bind_eq_some_iff, absent,
    ↓reduceIte] at read
  obtain ⟨_, _, _, _, same⟩ := read
  cases same
  rfl

/-! ## What is read -/

/-- The record that `dns_parse_query` looks at is used if it is an OPT record owned by the root. -/
theorem parseEdns_optFields (msg : Bytes) (len off : Nat) (arcount : UInt16) :
    (parseEdns msg len off arcount).map DnsRr.optFields =
      if arcount ≥ 1 then ((dnsParseRr msg len off).map Prod.fst).bind DnsRr.edns else none := by
  unfold parseEdns
  by_cases announced : arcount ≥ 1
  · rw [if_pos announced, if_pos announced]
    cases dnsParseRr msg len off with
    | none => rfl
    | some found =>
        obtain ⟨rr, next⟩ := found
        by_cases opt : rr.type = dnsTypeOpt ∧ rr.name.chars = []
        · simp [DnsRr.edns, DnsRr.IsOpt, opt]
        · simp [DnsRr.edns, DnsRr.IsOpt, opt]
  · rw [if_neg announced, if_neg announced]
    rfl

/-- The EDNS part of `dns_parse_query`: what the record right behind the question says, where an
additional section is announced. -/
theorem dnsParseQuery_edns {query : Bytes} {q : DnsQueryInfo}
    (accepted : dnsParseQuery query query.length = some q) :
    q.edns = if q.hdr.arcount ≥ 1 then
      ((dnsParseRr query query.length (q.q.rawOff + q.q.rawLen)).map Prod.fst).bind DnsRr.edns
    else none := by
  unfold dnsParseQuery at accepted
  split at accepted
  · cases accepted
  next hdr _ =>
  simp only [Option.ite_none_left_eq_some] at accepted
  obtain ⟨_, _, _, accepted⟩ := accepted
  split at accepted
  · cases accepted
  next name after decoded =>
  simp only [Option.ite_none_left_eq_some] at accepted
  obtain ⟨inside, accepted⟩ := accepted
  cases accepted
  have behind : dnsHdrLen + (after + 4 - dnsHdrLen) = after + 4 := by
    have past := decodeName_advances (Nat.le_refl _) decoded
    omega
  rw [behind, ← parseEdns_optFields]
  cases parseEdns query query.length (after + 4) hdr.arcount with
  | none => simp [DnsQueryInfo.edns]
  | some opt => simp [DnsQueryInfo.edns, DnsRr.optFields]

/-- **EDNS and the additional section.** In an accepted query whose records all parse, EDNS is read
from the first additional record if and only if there is no additional section, no record in front
of it, or the first of these records says of EDNS what the first additional record says. -/
theorem dnsParseQuery_readsEdns_iff {query : Bytes} {q : DnsQueryInfo}
    {answers authority : List DnsRr} {additional : Option DnsRr}
    (accepted : dnsParseQuery query query.length = some q)
    (sections : readSections query q.hdr (q.q.rawOff + q.q.rawLen) =
      some (answers, authority, additional)) :
    ReadsEdns q additional ↔
      q.hdr.arcount = 0 ∨ (answers = [] ∧ authority = []) ∨
        ∃ rr ∈ (answers ++ authority).head?, rr.edns = additional.bind DnsRr.edns := by
  rw [readsEdns_iff, dnsParseQuery_edns accepted]
  by_cases announced : q.hdr.arcount ≥ 1
  · have some : q.hdr.arcount ≠ 0 := by
      rintro none
      rw [none] at announced
      exact absurd announced (by decide)
    rw [if_pos announced, readSections_behind sections announced]
    cases front : answers ++ authority with
    | nil => simp [some, List.append_eq_nil_iff.mp front]
    | cons rr rest =>
        have nonempty : ¬ (answers = [] ∧ authority = []) := by
          rw [← List.append_eq_nil_iff, front]
          exact List.cons_ne_nil _ _
        simp [some, nonempty]
  · have none : q.hdr.arcount = 0 := by
      by_contra some
      exact announced (UInt16.pos_iff_ne_zero.mpr some)
    rw [if_neg announced, readSections_absent sections announced]
    simp [none]

/-- A query for the root with OPT as its first additional record, and `answers` in front of it. -/
def rootQuery (ancount : UInt8) (answers : Bytes) : Bytes :=
  [0, 7, 0, 0, 0, 1, 0, ancount, 0, 0, 0, 1] ++ [0, 0, 1, 0, 1] ++ answers ++
    optRecord 1232 0

/-- What is read of such a query. -/
def rootInfo (ancount : UInt16) (edns : Option EdnsOpt) : DnsQueryInfo where
  hdr := ⟨7, 0, 1, ancount, 0, 1⟩
  q := ⟨DnsName.root, 1, 1, 12, 5⟩
  recursionDesired := false
  hasEdns := edns.isSome
  ednsUdpPayload := (edns.map EdnsOpt.udpPayload).getD 0
  ednsVersion := (edns.map EdnsOpt.version).getD 0
  ednsDo := (edns.map EdnsOpt.dnssecOk).getD false

theorem dnsParseQuery_readsEdns_rootQuery :
    dnsParseQuery (rootQuery 0 []) (rootQuery 0 []).length =
      some (rootInfo 0 (some ⟨1232, 0, false⟩)) ∧
    ReadsEdns (rootInfo 0 (some ⟨1232, 0, false⟩)) (some ⟨DnsName.root, 41, 1232, 0, 0, 28⟩) :=
  ⟨by decide, (@dnsParseQuery_readsEdns_iff (rootQuery 0 []) _ [] []
    (some ⟨DnsName.root, 41, 1232, 0, 0, 28⟩) (by decide) (by decide)).mpr
      (Or.inr (Or.inl ⟨rfl, rfl⟩))⟩

/-- Behind one answer record, the OPT record that opens the additional section is missed. -/
theorem edns_behind_answer_missed :
    dnsParseQuery (rootQuery 1 [0, 0, 1, 0, 1, 0, 0, 0, 0, 0, 4, 192, 0, 2, 1])
      (rootQuery 1 [0, 0, 1, 0, 1, 0, 0, 0, 0, 0, 4, 192, 0, 2, 1]).length =
        some (rootInfo 1 none) ∧
    readSections (rootQuery 1 [0, 0, 1, 0, 1, 0, 0, 0, 0, 0, 4, 192, 0, 2, 1])
      (rootInfo 1 none).hdr 17 =
        some ([⟨DnsName.root, 1, 1, 0, 4, 28⟩], [], some ⟨DnsName.root, 41, 1232, 0, 0, 43⟩) ∧
    ¬ ReadsEdns (rootInfo 1 none) (some ⟨DnsName.root, 41, 1232, 0, 0, 43⟩) := by
  refine ⟨by decide, by decide, ?_⟩
  rw [readsEdns_iff]
  decide

end FizzDns
