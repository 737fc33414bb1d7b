import FizzDns.Foundation.Access
import FizzDns.Msg.Parse
import FizzDns.Xdp.Reply

/-!
# The filter in the kernel

`xdp_dns_redirect` looks at every frame and hands those that can be queries to the socket.
`parse_frame` looks at them again. The two walk the same headers in different ways: the kernel
program compares pointers with the end of the frame, the parser subtracts lengths. A frame that the
first redirects is accepted by the second with the message that the first has inspected, unless the
UDP length is too small or the message too long (`redirected_parses`).
-/

namespace FizzDns

/-! ## The kernel program -/

/-- `enum xdp_dns_stat`, without the counter of all packets. -/
inductive XdpDnsStat where
  | notIpv4
  | notUdp
  | notDnsPort
  | malformed
  | notQuery
  | redirected
  deriving DecidableEq

/-- `MAX_IHL_BYTES`. -/
def maxIhlBytes : Nat := 60

/-- `sizeof(struct dnshdr)` of the kernel program. -/
def dnshdrLen : Nat := 12

/-- Where the kernel program looks for the UDP header. -/
def kernUdp (pkt : Bytes) : Nat :=
  ethHlen + (byteAt pkt ethHlen).toNat % 16 * 4

/-- Where the kernel program looks for the DNS header. -/
def kernDns (pkt : Bytes) : Nat :=
  kernUdp pkt + udpHlen

/-- `xdp_dns_redirect`: the counter that it bumps besides the one of all packets. The frame is
handed to the socket if that is `STAT_REDIRECTED`, and goes up the stack otherwise. -/
def xdpDnsRedirect (pkt : Bytes) : XdpDnsStat :=
  let dataEnd := pkt.length
  if ethHlen > dataEnd then .malformed
  else if rd16 pkt 12 ≠ ethPIp then .notIpv4
  else if ethHlen + ipHlen > dataEnd then .malformed
  else
    let version := (byteAt pkt ethHlen).toNat / 16
    let ihl := (byteAt pkt ethHlen).toNat % 16
    if version ≠ 4 ∨ ihl < 5 then .malformed
    else if byteAt pkt (ethHlen + 9) ≠ ipprotoUdp then .notUdp
    -- more fragments follow, or this is not the first
    else if rd16 pkt (ethHlen + 6) &&& (0x2000 ||| 0x1FFF) ≠ 0 then .malformed
    else if ihl * 4 < ipHlen ∨ ihl * 4 > maxIhlBytes then .malformed
    else if kernUdp pkt + udpHlen > dataEnd then .malformed
    else if rd16 pkt (kernUdp pkt + 2) ≠ 53 then .notDnsPort
    else if kernDns pkt + dnshdrLen > dataEnd then .malformed
    else if rd16 pkt (kernDns pkt + 2) &&& 0x8000 ≠ 0 then .notQuery
    else if rd16 pkt (kernDns pkt + 4) ≠ 1 then .notQuery
    else if kernDns pkt + dnshdrLen + 1 > dataEnd then .malformed
    else .redirected

/-- What the kernel program has checked of a frame that it redirects. -/
structure Redirected (pkt : Bytes) : Prop where
  type : rd16 pkt 12 = ethPIp
  version : (byteAt pkt ethHlen).toNat / 16 = 4
  words : 5 ≤ (byteAt pkt ethHlen).toNat % 16
  protocol : byteAt pkt (ethHlen + 9) = ipprotoUdp
  port : rd16 pkt (kernUdp pkt + 2) = 53
  request : rd16 pkt (kernDns pkt + 2) &&& 0x8000 = 0
  single : rd16 pkt (kernDns pkt + 4) = 1
  room : kernDns pkt + dnshdrLen + 1 ≤ pkt.length

theorem xdpDnsRedirect_redirected {pkt : Bytes} (verdict : xdpDnsRedirect pkt = .redirected) :
    Redirected pkt := by
  simp only [xdpDnsRedirect, ite_eq_iff, reduceCtorEq, and_false, false_or, and_true, not_or,
    not_not, Nat.not_lt, gt_iff_lt, ne_eq] at verdict
  obtain ⟨_, type, _, ⟨version, words⟩, protocol, _, _, _, port, _, request, single, room⟩ :=
    verdict
  exact ⟨type, version, words, protocol, port, request, single, room⟩

/-! ## The parser with checked accesses -/

/-- `parse_frame` with every read of the frame tested against its length. -/
def parseFrameChecked (pkt : Bytes) (loopIdx : Nat) : Checked (Option DnsJob) :=
  let len := pkt.length
  if len < l2l3l4Hlen then pure none
  else do
    let proto ← readWord16 pkt len 12
    if proto ≠ ethPIp then pure none
    else do
      let first ← readByte pkt len ethHlen
      if first.toNat / 16 ≠ 4 ∨ first.toNat % 16 < 5 then pure none
      else
        let udp := ethHlen + first.toNat % 16 * 4
        if len < udp + udpHlen then pure none
        else do
          let protocol ← readByte pkt len (ethHlen + 9)
          if protocol ≠ ipprotoUdp then pure none
          else do
            let dest ← readWord16 pkt len (udp + 2)
            if dest ≠ 53 then pure none
            else do
              let udpLen ← readWord16 pkt len (udp + 4)
              if udpLen.toNat < udpHlen then pure none
              else
                let avail := len - (udp + udpHlen)
                let dnsLen := if udpLen.toNat - udpHlen > avail then avail
                  else udpLen.toNat - udpHlen
                if dnsLen < 12 ∨ dnsLen > dnsMaxMsgLen then pure none
                else do
                  let clientMac ← readBytes pkt len 6 6
                  let serverMac ← readBytes pkt len 0 6
                  let clientIp ← readBytes pkt len (ethHlen + 12) 4
                  let serverIp ← readBytes pkt len (ethHlen + 16) 4
                  let clientPort ← readBytes pkt len udp 2
                  let tos ← readByte pkt len (ethHlen + 1)
                  let query ← readBytes pkt len (udp + udpHlen) dnsLen
                  pure (some
                    { next := none
                      loopIdx := UInt8.ofNat loopIdx
                      clientMac := clientMac
                      serverMac := serverMac
                      clientIp := clientIp
                      serverIp := serverIp
                      clientPort := clientPort
                      tos := tos
                      ttl := 64
                      query := query
                      resp := [] })

/-- Every read of `parse_frame` lies inside the frame. -/
theorem parseFrameChecked_eq (pkt : Bytes) (loopIdx : Nat) :
    parseFrameChecked pkt loopIdx = .ok (parseFrame pkt loopIdx) := by
  unfold parseFrameChecked parseFrame
  apply Checked.guard
  intro long
  have front : 42 ≤ pkt.length := Nat.not_lt.mp long
  have eth : ethHlen = 14 := rfl
  have udpHeader : udpHlen = 8 := rfl
  rw [readWord16_eq (by omega), Checked.ok_bind]
  apply Checked.guard
  intro _
  rw [readByte_eq (by omega), Checked.ok_bind]
  apply Checked.guard
  intro _
  apply Checked.guard
  intro room
  rw [readByte_eq (by omega), Checked.ok_bind]
  apply Checked.guard
  intro _
  rw [readWord16_eq (by omega), Checked.ok_bind]
  apply Checked.guard
  intro _
  rw [readWord16_eq (by omega), Checked.ok_bind]
  apply Checked.guard
  intro _
  apply Checked.guard
  intro _
  rw [readBytes_eq (by omega), Checked.ok_bind, readBytes_eq (by omega), Checked.ok_bind,
    readBytes_eq (by omega), Checked.ok_bind, readBytes_eq (by omega), Checked.ok_bind,
    readBytes_eq (by omega), Checked.ok_bind, readByte_eq (by omega), Checked.ok_bind,
    readBytes_eq (by split <;> omega), Checked.ok_bind]
  rfl

/-! ## Agreement -/

/-- The bytes that a frame has for the message: what the UDP length says or what is there, whichever
is less. -/
def messageLen (pkt : Bytes) : Nat :=
  min ((rd16 pkt (kernUdp pkt + 4)).toNat - udpHlen) (pkt.length - kernDns pkt)

/-- A redirected frame has a whole DNS header, if its UDP length says so. -/
theorem Redirected.messageLen_ge {pkt : Bytes} (redirected : Redirected pkt)
    (long : 20 ≤ (rd16 pkt (kernUdp pkt + 4)).toNat) : 12 ≤ messageLen pkt := by
  have room := redirected.room
  have header : udpHlen = 8 := rfl
  simp only [messageLen, dnshdrLen] at room ⊢
  omega

/-- A redirected frame is parsed to the message that the kernel program has inspected. -/
theorem Redirected.parseFrame {pkt : Bytes} (redirected : Redirected pkt) (loopIdx : Nat)
    (long : 20 ≤ (rd16 pkt (kernUdp pkt + 4)).toNat) (limited : messageLen pkt ≤ dnsMaxMsgLen) :
    ∃ job, parseFrame pkt loopIdx = some job ∧
      job.query = slice pkt (kernDns pkt) (messageLen pkt) := by
  have room := redirected.room
  have words := redirected.words
  have eth : ethHlen = 14 := rfl
  have header : udpHlen = 8 := rfl
  have udp : kernUdp pkt = ethHlen + (byteAt pkt ethHlen).toNat % 16 * 4 := rfl
  have dns : kernDns pkt = kernUdp pkt + udpHlen := rfl
  have least := redirected.messageLen_ge long
  have span : (if (rd16 pkt (kernUdp pkt + 4)).toNat - udpHlen > pkt.length - kernDns pkt then
      pkt.length - kernDns pkt else (rd16 pkt (kernUdp pkt + 4)).toNat - udpHlen) =
        messageLen pkt := by
    unfold messageLen
    split <;> omega
  simp only [FizzDns.parseFrame, ← udp, ← dns, span]
  rw [if_neg (by simp only [l2l3l4Hlen, ipHlen]; omega), if_neg (not_not.mpr redirected.type),
    if_neg (by rw [redirected.version]; omega), if_neg (by omega),
    if_neg (not_not.mpr redirected.protocol), if_neg (not_not.mpr redirected.port),
    if_neg (by omega), if_neg (by omega)]
  exact ⟨_, rfl, rfl⟩

/-- **Kernel filter and parser agree.** `parse_frame` reads inside the frame, whatever it is given.
A frame that `xdp_dns_redirect` redirects, with a UDP length of at least 20 and a message that is
not too long, becomes a job whose query is the message from the DNS header on that the kernel
program has inspected: it has a whole header, is no response and has one question. -/
theorem redirected_parses (pkt : Bytes) (loopIdx : Nat) :
    parseFrameChecked pkt loopIdx = .ok (parseFrame pkt loopIdx) ∧
    (xdpDnsRedirect pkt = .redirected →
      20 ≤ (rd16 pkt (kernUdp pkt + 4)).toNat → messageLen pkt ≤ dnsMaxMsgLen →
      ∃ job, parseFrame pkt loopIdx = some job ∧
        job.query = slice pkt (kernDns pkt) (messageLen pkt) ∧
        job.query.length = messageLen pkt ∧ 12 ≤ job.query.length ∧
        rd16 job.query 2 &&& dnsFlagQr = 0 ∧ rd16 job.query 4 = 1) := by
  refine ⟨parseFrameChecked_eq pkt loopIdx, fun verdict long limited => ?_⟩
  have redirected := xdpDnsRedirect_redirected verdict
  have room := redirected.room
  have least : 12 ≤ messageLen pkt := redirected.messageLen_ge long
  obtain ⟨job, parsed, query⟩ := redirected.parseFrame loopIdx long limited
  have size : job.query.length = messageLen pkt := by
    rw [query]
    apply length_slice
    unfold messageLen
    omega
  refine ⟨job, parsed, query, size, size ▸ least, ?_, ?_⟩
  · rw [query, rd16_slice (by omega)]
    exact redirected.request
  · rw [query, rd16_slice (by omega)]
    exact redirected.single

/-- A header with options is passed over by both. -/
example : xdpDnsRedirect (rootRequest true) = .redirected ∧ kernDns (rootRequest true) = 46 ∧
    messageLen (rootRequest true) = 17 := by decide

end FizzDns
