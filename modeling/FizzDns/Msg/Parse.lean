import FizzDns.Msg.Name

/-!
# Reading messages

Header, question, record and query parsers of `dns_msg.c`. Each takes the message
and its length and answers `none` where the source returns -1. `rdata` points into
the caller's buffer, so a record carries the offset of its data.
-/

namespace FizzDns

/-- `DNS_HDR_LEN`. -/
def dnsHdrLen : Nat := 12

/-- `DNS_TYPE_A`. -/
def dnsTypeA : UInt16 := 1

/-- `DNS_TYPE_NS`. -/
def dnsTypeNs : UInt16 := 2

/-- `DNS_TYPE_CNAME`. -/
def dnsTypeCname : UInt16 := 5

/-- `DNS_TYPE_AAAA`. -/
def dnsTypeAaaa : UInt16 := 28

/-- `DNS_TYPE_OPT`. -/
def dnsTypeOpt : UInt16 := 41

/-- `DNS_CLASS_IN`. -/
def dnsClassIn : UInt16 := 1

/-- `DNS_FLAG_QR`. -/
def dnsFlagQr : UInt16 := 0x8000

/-- `DNS_FLAG_TC`. -/
def dnsFlagTc : UInt16 := 0x0200

/-- `DNS_FLAG_RD`. -/
def dnsFlagRd : UInt16 := 0x0100

/-- `DNS_FLAG_RA`. -/
def dnsFlagRa : UInt16 := 0x0080

/-- `DNS_OPCODE_MASK`. -/
def dnsOpcodeMask : UInt16 := 0x7800

/-- `DNS_RCODE_MASK`. -/
def dnsRcodeMask : UInt16 := 0x000F

/-- `struct dns_header`. -/
structure DnsHeader where
  id : UInt16
  flags : UInt16
  qdcount : UInt16
  ancount : UInt16
  nscount : UInt16
  arcount : UInt16
  deriving DecidableEq

/-- `struct dns_question`. `rawOff` and `rawLen` delimit the question in the
message it was read from. -/
structure DnsQuestion where
  name : DnsName
  qtype : UInt16
  qclass : UInt16
  rawOff : Nat
  rawLen : Nat
  deriving DecidableEq

/-- `struct dns_query_info`. -/
structure DnsQueryInfo where
  hdr : DnsHeader
  q : DnsQuestion
  recursionDesired : Bool
  hasEdns : Bool
  ednsUdpPayload : UInt16
  ednsVersion : UInt8
  ednsDo : Bool
  deriving DecidableEq

/-- `struct dns_rr`, with `rdata` as an offset into the message. -/
structure DnsRr where
  name : DnsName
  type : UInt16
  rclass : UInt16
  ttl : UInt32
  rdlength : UInt16
  rdata : Nat
  deriving DecidableEq

/-- `dns_parse_header`. -/
def dnsParseHeader (msg : Bytes) (len : Nat) : Option DnsHeader :=
  if len < dnsHdrLen then none
  else some
    { id := rd16 msg 0
      flags := rd16 msg 2
      qdcount := rd16 msg 4
      ancount := rd16 msg 6
      nscount := rd16 msg 8
      arcount := rd16 msg 10 }

/-- `dns_skip_question`: the offset past the question at `off`. -/
def dnsSkipQuestion (msg : Bytes) (len off : Nat) : Option Nat :=
  match decodeName msg len off with
  | none => none
  | some (_, after) => if after + 4 > len then none else some (after + 4)

/-- `dns_parse_rr`: the record at `off` and the offset past it. -/
def dnsParseRr (msg : Bytes) (len off : Nat) : Option (DnsRr × Nat) :=
  match decodeName msg len off with
  | none => none
  | some (name, after) =>
      if after + 10 > len then none
      else
        let rdlength := rd16 msg (after + 8)
        if after + 10 + rdlength.toNat > len then none
        else some
          ({ name := name
             type := rd16 msg after
             rclass := rd16 msg (after + 2)
             ttl := rd32 msg (after + 4)
             rdlength := rdlength
             rdata := after + 10 }, after + 10 + rdlength.toNat)

/-- A loop of `dns_parse_rr` over a section of `count` records that gives up when one of them
does not parse: the records and the offset past them. -/
def parseRecords (msg : Bytes) (len : Nat) : (count off : Nat) → Option (List DnsRr × Nat)
  | 0, off => some ([], off)
  | count + 1, off => do
      let (rr, next) ← dnsParseRr msg len off
      let (rest, last) ← parseRecords msg len count next
      some (rr :: rest, last)

/-- The EDNS0 part of `dns_parse_query`: the fields of an OPT record found right
after the question, when the additional section is announced as nonempty. -/
def parseEdns (msg : Bytes) (len arrOff : Nat) (arcount : UInt16) : Option DnsRr :=
  if arcount ≥ 1 then
    match dnsParseRr msg len arrOff with
    | none => none
    | some (opt, _) => if opt.type = dnsTypeOpt ∧ opt.name.chars = [] then some opt else none
  else none

/-- `dns_parse_query`. -/
def dnsParseQuery (msg : Bytes) (len : Nat) : Option DnsQueryInfo :=
  match dnsParseHeader msg len with
  | none => none
  | some hdr =>
      if hdr.flags &&& dnsFlagQr ≠ 0 then none
      else if hdr.flags &&& dnsOpcodeMask ≠ 0 then none
      else if hdr.qdcount ≠ 1 then none
      else
        match decodeName msg len dnsHdrLen with
        | none => none
        | some (name, after) =>
            if after + 4 > len then none
            else
              let edns := parseEdns msg len (after + 4) hdr.arcount
              some
                { hdr := hdr
                  q :=
                    { name := name
                      qtype := rd16 msg after
                      qclass := rd16 msg (after + 2)
                      rawOff := dnsHdrLen
                      rawLen := (after + 4) - dnsHdrLen }
                  recursionDesired := hdr.flags &&& dnsFlagRd ≠ 0
                  hasEdns := edns.isSome
                  -- the structure is zeroed first, so without OPT these stay 0
                  ednsUdpPayload := (edns.map DnsRr.rclass).getD 0
                  ednsVersion := (edns.map fun opt : DnsRr => (opt.ttl >>> 16).toUInt8).getD 0
                  ednsDo :=
                    (edns.map fun opt : DnsRr => decide (opt.ttl &&& 0x8000 ≠ 0)).getD false }

end FizzDns
