import FizzDns.Foundation.Bytes
import FizzDns.Foundation.Heap

/-!
# Frames and jobs

A query arrives in an Ethernet frame. `parse_frame` copies what is needed to answer it into a
job, and `build_response_frame` writes the frame that carries the response back. A frame is
given by its bytes; fields that are only copied (addresses, the client's port) stay the bytes
they are on the wire.
-/

namespace FizzDns

/-- `DNS_MAX_MSG_LEN`. -/
def dnsMaxMsgLen : Nat := 1500

/-- `sizeof(struct ethhdr)`. -/
def ethHlen : Nat := 14

/-- `sizeof(struct iphdr)`, which is a header without options. -/
def ipHlen : Nat := 20

/-- `sizeof(struct udphdr)`. -/
def udpHlen : Nat := 8

/-- `L2L3L4_HLEN`. -/
def l2l3l4Hlen : Nat := ethHlen + ipHlen + udpHlen

/-- `ETH_P_IP`. -/
def ethPIp : UInt16 := 0x0800

/-- `IPPROTO_UDP`. -/
def ipprotoUdp : UInt8 := 17

/-- `struct dns_job`. The length fields are the lengths of `query` and `resp`. -/
structure DnsJob where
  next : Option Addr
  loopIdx : UInt8
  clientMac : Bytes
  serverMac : Bytes
  clientIp : Bytes
  serverIp : Bytes
  clientPort : Bytes
  tos : UInt8
  ttl : UInt8
  query : Bytes
  resp : Bytes
  deriving DecidableEq

/-- `parse_frame`, up to the allocation of the job. -/
def parseFrame (pkt : Bytes) (loopIdx : Nat) : Option DnsJob :=
  let len := pkt.length
  if len < l2l3l4Hlen then none
  else if rd16 pkt 12 ≠ ethPIp then none
  else
    -- version and header length share the first byte of the IP header
    let version := (byteAt pkt ethHlen).toNat / 16
    let words := (byteAt pkt ethHlen).toNat % 16
    if version ≠ 4 ∨ words < 5 then none
    else
      let ihl := words * 4
      let udp := ethHlen + ihl
      if len < udp + udpHlen then none
      else if byteAt pkt (ethHlen + 9) ≠ ipprotoUdp then none
      else if rd16 pkt (udp + 2) ≠ 53 then none
      else
        let udpLen := (rd16 pkt (udp + 4)).toNat
        if udpLen < udpHlen then none
        else
          let avail := len - (udp + udpHlen)
          let dnsLen := if udpLen - udpHlen > avail then avail else udpLen - udpHlen
          if dnsLen < 12 ∨ dnsLen > dnsMaxMsgLen then none
          else some
            { next := none
              loopIdx := UInt8.ofNat loopIdx
              clientMac := slice pkt 6 6
              serverMac := slice pkt 0 6
              clientIp := slice pkt (ethHlen + 12) 4
              serverIp := slice pkt (ethHlen + 16) 4
              clientPort := slice pkt udp 2
              tos := byteAt pkt (ethHlen + 1)
              ttl := 64
              query := slice pkt (udp + udpHlen) dnsLen
              resp := [] }

/-! ## Responses -/

/-- The sum of the 16-bit words of a buffer as a little-endian host reads them; an odd last
byte counts as a word. -/
def checksumWords : Bytes → UInt32
  | [] => 0
  | [last] => last.toUInt32
  | low :: high :: rest => low.toUInt32 + high.toUInt32 * 256 + checksumWords rest

/-- Add the carries of a sum back in until there are none, for at most `turns` turns. -/
def foldCarries : (turns : Nat) → UInt32 → UInt32
  | 0, sum => sum
  | turns + 1, sum =>
      if sum >>> 16 = 0 then sum else foldCarries turns ((sum &&& (0xFFFF : UInt32)) + (sum >>> 16))

/-- One turn adds the carries of a sum back in. -/
theorem toNat_foldCarry (sum : UInt32) :
    (sum >>> 16).toNat = sum.toNat / 65536 ∧
      ((sum &&& (0xFFFF : UInt32)) + (sum >>> 16)).toNat =
        sum.toNat % 65536 + sum.toNat / 65536 := by
  have bound := sum.toNat_lt
  have high : (sum >>> 16).toNat = sum.toNat / 65536 := by
    rw [UInt32.toNat_shiftRight, Nat.shiftRight_eq_div_pow]
    rfl
  have low : (sum &&& (0xFFFF : UInt32)).toNat = sum.toNat % 65536 := by
    rw [UInt32.toNat_and]
    exact Nat.and_two_pow_sub_one_eq_mod _ 16
  refine ⟨high, ?_⟩
  rw [UInt32.toNat_add, low, high]
  omega

/-- Two turns leave no carry. -/
theorem foldCarries_two (sum : UInt32) : foldCarries 2 sum >>> 16 = 0 := by
  have bound := sum.toNat_lt
  simp only [foldCarries]
  split
  · next done => exact done
  split
  · next done => exact done
  · apply UInt32.toNat_inj.mp
    rw [(toNat_foldCarry _).1, (toNat_foldCarry _).2, (toNat_foldCarry sum).2, UInt32.toNat_zero]
    omega

/-- `ipv4_checksum`. -/
def ipv4Checksum (buf : Bytes) : UInt16 :=
  ~~~ (foldCarries 2 (checksumWords buf)).toUInt16

/-- A word in the byte order of the host. -/
def hostWord (value : UInt16) : Bytes :=
  [UInt8.ofNat (value.toNat % 256), UInt8.ofNat (value.toNat / 256)]

/-- The IP header of a response, with a given checksum field. -/
def responseIpHeader (job : DnsJob) (ipTotal : UInt16) (check : Bytes) : Bytes :=
  -- version 4, five words; no identification, DF
  [0x45, job.tos] ++ wr16 ipTotal ++ wr16 0 ++ wr16 0x4000 ++ [job.ttl, ipprotoUdp] ++ check ++
    job.serverIp ++ job.clientIp

/-- `build_response_frame`: the direction of the request reversed. -/
def buildResponseFrame (job : DnsJob) : Bytes :=
  let udpTotal := UInt16.ofNat (udpHlen + job.resp.length)
  let ipTotal := UInt16.ofNat (ipHlen + udpTotal.toNat)
  let check := ipv4Checksum (responseIpHeader job ipTotal [0, 0])
  job.clientMac ++ job.serverMac ++ wr16 ethPIp ++
    responseIpHeader job ipTotal (hostWord check) ++
    wr16 53 ++ job.clientPort ++ wr16 udpTotal ++ wr16 0 ++ job.resp

/-- A parsed job has no response and belongs to the loop that received it. -/
theorem parseFrame_some {pkt : Bytes} {loopIdx : Nat} {job : DnsJob}
    (parsed : parseFrame pkt loopIdx = some job) :
    job.next = none ∧ job.loopIdx = UInt8.ofNat loopIdx ∧ job.resp = [] := by
  simp only [parseFrame, Option.ite_none_left_eq_some, Option.some.injEq] at parsed
  obtain ⟨_, _, _, _, _, _, _, _, rfl⟩ := parsed
  exact ⟨rfl, rfl, rfl⟩

end FizzDns
