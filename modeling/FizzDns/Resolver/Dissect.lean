import FizzDns.Foundation.Saturation
import FizzDns.Msg.Build

/-!
# Pulling a response apart

`dissect` and its three loops. Each loop of the source parses as it goes; what
`dns_parse_rr` returns does not depend on the state of the loop, so here a section is
parsed first and the loop runs over its records. The answer loop is repeated from the same
offset until the CNAME chain stops growing.

Beyond the fields of the source, an entry of a referral remembers the owner of the NS record
it was made from (`NsCandidate.owner`). Nothing that the resolver does depends on it.
-/

namespace FizzDns

/-- `MAX_CNAME_HOPS`. -/
def maxCnameHops : Nat := 8

/-- `MAX_NS_CANDIDATES`. -/
def maxNsCandidates : Nat := 8

/-- A number below 256 in decimal digits. -/
def decimal (octet : UInt8) : Bytes :=
  (Nat.toDigits 10 octet.toNat).map fun digit => UInt8.ofNat digit.toNat

/-- `inet_ntop(AF_INET, ...)`: the address in dotted decimal. -/
def inetNtop (octets : Fin 4 → UInt8) : Bytes :=
  [46].intercalate ((List.ofFn octets).map decimal)

/-- An entry of `struct referral`: a server's name, and its address once `has_addr` is set. -/
structure NsCandidate where
  owner : DnsName
  name : DnsName
  addr : Option Bytes
  deriving DecidableEq

/-- `struct referral`. -/
structure Referral where
  zone : DnsName
  ns : List NsCandidate
  deriving DecidableEq

/-- The referral before any NS record was read. -/
def Referral.empty : Referral := ⟨DnsName.root, []⟩

/-- What `dissect` hands back when it returns 0. An empty `cname` means that there is none. -/
structure Dissection where
  answers : List DnsAnswer
  cname : DnsName
  ref : Referral
  rcode : Nat
  deriving DecidableEq

/-! ## Answers -/

/-- The answer that a record is stored as: addresses of the right length and CNAMEs whose
target can be decoded. -/
def readAnswer (msg : Bytes) (len : Nat) (rr : DnsRr) : Option DnsAnswer :=
  if rr.type = dnsTypeA ∧ rr.rdlength = 4 then
    some ⟨rr.name, rr.ttl, .a fun index => byteAt msg (rr.rdata + index)⟩
  else if rr.type = dnsTypeAaaa ∧ rr.rdlength = 16 then
    some ⟨rr.name, rr.ttl, .aaaa fun index => byteAt msg (rr.rdata + index)⟩
  else if rr.type = dnsTypeCname then
    (decodeName msg len rr.rdata).map fun decoded => ⟨rr.name, rr.ttl, .cname decoded.1⟩
  else none

/-- Whether a name equals one of the names on the chain. -/
def onChain (chain : List DnsName) (name : DnsName) : Bool :=
  chain.any fun link => dnsNameEqual name.chars link.chars

/-- The chain with the target of an accepted CNAME, if it is new and there is room. -/
def extendChain (chain : List DnsName) (target : DnsName) : List DnsName :=
  if onChain chain target = false ∧ chain.length ≤ maxCnameHops then chain ++ [target] else chain

/-- The state of one pass over the answer section. -/
structure AnswerPass where
  chain : List DnsName
  answers : List DnsAnswer
  cname : DnsName
  deriving DecidableEq

section

variable (msg : Bytes) (len : Nat) (qname zone : DnsName) (ansCap : Nat)

/-- The record may speak: it is of class IN, and this server's zone covers its owner. -/
def inScope (rr : DnsRr) : Bool :=
  rr.rclass = dnsClassIn && dnsNameInBailiwick rr.name.chars zone.chars

/-- Store an answer while there is room. A CNAME of the name asked for is the one to chase,
and every CNAME adds its target to the chain. -/
def storeAnswer (pass : AnswerPass) (answer : DnsAnswer) : AnswerPass :=
  let answers :=
    if pass.answers.length < ansCap then pass.answers ++ [answer] else pass.answers
  match answer.rdata with
  | .cname target =>
      { chain := extendChain pass.chain target
        answers := answers
        cname := if dnsNameEqual answer.owner.chars qname.chars then target else pass.cname }
  | _ => { pass with answers := answers }

/-- One turn of the answer loop. -/
def acceptRecord (pass : AnswerPass) (rr : DnsRr) : AnswerPass :=
  if inScope zone rr = false then pass
  else if onChain pass.chain rr.name = false then pass
  else
    match readAnswer msg len rr with
    | none => pass
    | some answer => storeAnswer qname ansCap pass answer

/-- One pass over the answer section, which keeps the chain and starts the rest afresh. -/
def answerPass (records : List DnsRr) (chain : List DnsName) : AnswerPass :=
  records.foldl (acceptRecord msg len qname zone ansCap) ⟨chain, [], DnsName.root⟩

/-- The passes over the answer section. -/
def answerPasses (records : List DnsRr) : AnswerPass :=
  Saturation.saturate AnswerPass.chain (answerPass msg len qname zone ansCap records) maxCnameHops
    [qname]

/-! ## Authority and glue -/

/-- One turn of the authority loop. The zone is fixed by the first owner that is not empty,
even if the server's name turns out not to decode. -/
def acceptNs (ref : Referral) (rr : DnsRr) : Referral :=
  if rr.type ≠ dnsTypeNs ∨ ref.ns.length ≥ maxNsCandidates then ref
  else if dnsNameInBailiwick rr.name.chars zone.chars = false then ref
  else if zone.chars ≠ [] ∧ dnsNameEqual rr.name.chars zone.chars then ref
  else if dnsNameInBailiwick qname.chars rr.name.chars = false then ref
  else if ref.zone.chars ≠ [] ∧ dnsNameEqual rr.name.chars ref.zone.chars = false then ref
  else
    let fixed := if ref.zone.chars ≠ [] then ref.zone else rr.name
    match decodeName msg len rr.rdata with
    | none => { ref with zone := fixed }
    | some (nsname, _) => { zone := fixed, ns := ref.ns ++ [⟨rr.name, nsname, none⟩] }

/-- Give an address to the first server of that name that has none. -/
def attachGlue (name : DnsName) (addr : Bytes) : List NsCandidate → List NsCandidate
  | [] => []
  | candidate :: rest =>
      if candidate.addr = none ∧ dnsNameEqual candidate.name.chars name.chars then
        { candidate with addr := some addr } :: rest
      else candidate :: attachGlue name addr rest

/-- One turn of the additional loop. -/
def acceptGlue (ref : Referral) (rr : DnsRr) : Referral :=
  if rr.type ≠ dnsTypeA ∨ rr.rdlength ≠ 4 then ref
  else if dnsNameInBailiwick rr.name.chars zone.chars = false then ref
  else
    { ref with
      ns := attachGlue rr.name (inetNtop fun index => byteAt msg (rr.rdata + index)) ref.ns }

/-! ## The whole message -/

/-- Step over the questions. -/
def skipQuestions : (count off : Nat) → Option Nat
  | 0, off => some off
  | count + 1, off => do
      let next ← dnsSkipQuestion msg len off
      skipQuestions count next

/-- The additional section, up to the first record that does not parse. -/
def parseWhile : (count off : Nat) → List DnsRr
  | 0, _ => []
  | count + 1, off =>
      match dnsParseRr msg len off with
      | none => []
      | some (rr, next) => rr :: parseWhile count next

/-- `dissect`. -/
def dissect : Option Dissection := do
  let h ← dnsParseHeader msg len
  if h.flags &&& dnsFlagTc ≠ 0 then none
  else do
    let ansStart ← skipQuestions msg len h.qdcount.toNat dnsHdrLen
    let (records, nsStart) ← parseRecords msg len h.ancount.toNat ansStart
    let pass := answerPasses msg len qname zone ansCap records
    let (authority, arStart) ← parseRecords msg len h.nscount.toNat nsStart
    let ref := authority.foldl (acceptNs msg len qname zone) Referral.empty
    let additional := parseWhile msg len h.arcount.toNat arStart
    some
      { answers := pass.answers
        cname := pass.cname
        ref := additional.foldl (acceptGlue msg zone) ref
        rcode := (h.flags &&& dnsRcodeMask).toNat }

variable {msg len qname zone ansCap}

/-- When `dissect` returns 0: the message is whole and its first three sections parse. -/
theorem dissect_eq_some_iff {d : Dissection} :
    dissect msg len qname zone ansCap = some d ↔
      ∃ h start records nsStart authority arStart,
        dnsParseHeader msg len = some h ∧ h.flags &&& dnsFlagTc = 0 ∧
        skipQuestions msg len h.qdcount.toNat dnsHdrLen = some start ∧
        parseRecords msg len h.ancount.toNat start = some (records, nsStart) ∧
        parseRecords msg len h.nscount.toNat nsStart = some (authority, arStart) ∧
        d =
          { answers := (answerPasses msg len qname zone ansCap records).answers
            cname := (answerPasses msg len qname zone ansCap records).cname
            ref := (parseWhile msg len h.arcount.toNat arStart).foldl (acceptGlue msg zone)
              (authority.foldl (acceptNs msg len qname zone) Referral.empty)
            rcode := (h.flags &&& dnsRcodeMask).toNat } := by
  simp only [dissect, Option.bind_eq_bind, Option.bind_eq_some_iff, Option.ite_none_left_eq_some,
    not_not]
  constructor
  · rintro ⟨h, header, whole, start, skipped, ⟨records, nsStart⟩, parsed, ⟨authority, arStart⟩,
      later, same⟩
    exact ⟨h, start, records, nsStart, authority, arStart, header, whole, skipped, parsed, later,
      (Option.some.inj same).symm⟩
  · rintro ⟨h, start, records, nsStart, authority, arStart, header, whole, skipped, parsed, later,
      rfl⟩
    exact ⟨h, header, whole, start, skipped, ⟨records, nsStart⟩, parsed, ⟨authority, arStart⟩,
      later, rfl⟩

/-- The candidates stay within their array. -/
theorem length_acceptNs_le {ref : Referral} (few : ref.ns.length ≤ maxNsCandidates) (rr : DnsRr) :
    (acceptNs msg len qname zone ref rr).ns.length ≤ maxNsCandidates := by
  unfold acceptNs
  split
  · exact few
  next admitted =>
  rw [not_or, Nat.not_le] at admitted
  repeat' split
  all_goals first
    | exact few
    | exact (List.length_append ..).trans_le admitted.2

/-- Glue adds no candidate. -/
theorem length_attachGlue (name : DnsName) (addr : Bytes) (ns : List NsCandidate) :
    (attachGlue name addr ns).length = ns.length := by
  induction ns with
  | nil => rfl
  | cons candidate rest ih =>
      unfold attachGlue
      split
      · rfl
      · rw [List.length_cons, ih, List.length_cons]

/-- Nor does the additional section. -/
theorem length_acceptGlue (ref : Referral) (rr : DnsRr) :
    (acceptGlue msg zone ref rr).ns.length = ref.ns.length := by
  unfold acceptGlue
  split
  · rfl
  split
  · rfl
  · exact length_attachGlue _ _ _

/-- A referral has at most `MAX_NS_CANDIDATES` servers. -/
theorem dissect_few_servers {d : Dissection}
    (dissected : dissect msg len qname zone ansCap = some d) :
    d.ref.ns.length ≤ maxNsCandidates := by
  obtain ⟨_, _, _, _, authority, _, _, _, _, _, _, rfl⟩ := dissect_eq_some_iff.mp dissected
  have delegated : (authority.foldl (acceptNs msg len qname zone) Referral.empty).ns.length ≤
      maxNsCandidates := by
    apply List.foldlRecOn (motive := fun ref : Referral => ref.ns.length ≤ maxNsCandidates)
    · exact Nat.zero_le _
    · exact fun _ few rr _ => length_acceptNs_le few rr
  apply List.foldlRecOn (motive := fun ref : Referral => ref.ns.length ≤ maxNsCandidates)
  · exact delegated
  · exact fun ref few rr _ => (length_acceptGlue ref rr).trans_le few

end

end FizzDns
