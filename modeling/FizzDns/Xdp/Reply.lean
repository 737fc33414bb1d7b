import FizzDns.Foundation.Checksum
import FizzDns.Xdp.Frame
import FizzDns.Xdp.Socket

/-!
# Frames that carry responses

`ipv4_checksum` adds the words of the header as the host reads them, and its result is stored as
the host writes it. A receiver adds big-endian words. Both agree, because a one's-complement sum
does not depend on the byte order (`ipv4Checksum_verifies`). The other fields of a response frame
are those of the request with the two ends swapped (`buildResponseFrame_valid`).
-/

namespace FizzDns

open Checksum

/-! ## The checksum -/

/-- A sum of few words does not overflow 32 bits. -/
theorem toNat_checksumWords {buf : Bytes} (short : buf.length ≤ 65536) :
    (checksumWords buf).toNat = hostSum buf := by
  fun_induction checksumWords buf with
  | case1 => rfl
  | case2 last => rfl
  | case3 low high rest ih =>
      have bound := hostSum_le (low :: high :: rest)
      have rest := ih (by simp only [List.length_cons] at short; omega)
      simp only [UInt32.toNat_add, UInt32.toNat_mul, UInt8.toNat_toUInt32, rest, hostSum,
        UInt32.reduceToNat] at bound ⊢
      omega

/-- Adding carries back in does not change a sum modulo 65535. -/
theorem toNat_foldCarries_modEq (turns : Nat) (sum : UInt32) :
    (foldCarries turns sum).toNat ≡ sum.toNat [MOD 65535] := by
  induction turns generalizing sum with
  | zero => rfl
  | succ turns ih =>
      rw [foldCarries]
      split
      · rfl
      · refine (ih _).trans ?_
        rw [(toNat_foldCarry sum).2, Nat.ModEq]
        omega

/-- The checksum of a buffer is what its sum lacks to a multiple of 65535. -/
theorem toNat_ipv4Checksum (buf : Bytes) :
    (ipv4Checksum buf).toNat + (foldCarries 2 (checksumWords buf)).toNat = 65535 := by
  have carried := congrArg UInt32.toNat (foldCarries_two (checksumWords buf))
  rw [(toNat_foldCarry _).1, UInt32.toNat_zero] at carried
  have size : UInt16.size = 65536 := rfl
  rw [ipv4Checksum, UInt16.toNat_not, UInt32.toNat_toUInt16]
  omega

theorem hostSum_hostWord (value : UInt16) : hostSum (hostWord value) = value.toNat := by
  have bound := value.toNat_lt
  simp only [hostWord, hostSum, UInt8.toNat_ofNat']
  omega

/-- **The checksum verifies.** A buffer whose checksum was computed with the field set to zero, and
stored there in the byte order of the host, adds up to `0xFFFF` in network byte order. -/
theorem ipv4Checksum_verifies {front back : Bytes} (even : front.length % 2 = 0)
    (short : (front ++ ([0, 0] ++ back)).length ≤ 65536) :
    onesSum 65536
      (netWords (front ++ (hostWord (ipv4Checksum (front ++ ([0, 0] ++ back))) ++ back))) =
        0xFFFF := by
  let zeroed := front ++ ([0, 0] ++ back)
  have sum : (checksumWords zeroed).toNat = hostSum front + hostSum back := by
    rw [toNat_checksumWords short, hostSum_append even, hostSum_append rfl]
    exact congrArg _ (Nat.zero_add _)
  have check := toNat_ipv4Checksum zeroed
  have whole : hostSum (front ++ (hostWord (ipv4Checksum zeroed) ++ back)) =
      (ipv4Checksum zeroed).toNat + (hostSum front + hostSum back) := by
    rw [hostSum_append even, hostSum_append (by simp [hostWord]), hostSum_hostWord]
    exact Nat.add_left_comm _ _ _
  apply onesSum_netWords_of_host
  · rw [whole, ← sum]
    by_contra none
    -- a sum of zero has no carries, and its checksum is `0xFFFF`
    have zero : checksumWords zeroed = 0 := UInt32.toNat_inj.mp (by rw [UInt32.toNat_zero]; omega)
    rw [zero] at check
    have full : (ipv4Checksum zeroed).toNat = 65535 := check
    omega
  · rw [whole, ← sum, ← Nat.modEq_zero_iff_dvd]
    calc (ipv4Checksum zeroed).toNat + (checksumWords zeroed).toNat
        ≡ (ipv4Checksum zeroed).toNat + (foldCarries 2 (checksumWords zeroed)).toNat
          [MOD 65535] := ((toNat_foldCarries_modEq 2 _).symm.add_left _)
      _ = 65535 := check
      _ ≡ 0 [MOD 65535] := rfl

/-! ## The fields of a response -/

/-- Where the UDP header of a request starts. -/
def requestUdp (pkt : Bytes) : Nat :=
  ethHlen + (byteAt pkt ethHlen).toNat % 16 * 4

/-- What a job takes from the headers of a request. -/
theorem parseFrame_ends {pkt : Bytes} {loopIdx : Nat} {job : DnsJob}
    (parsed : parseFrame pkt loopIdx = some job) :
    l2l3l4Hlen ≤ pkt.length ∧ requestUdp pkt + udpHlen ≤ pkt.length ∧
      job.clientMac = slice pkt 6 6 ∧ job.serverMac = slice pkt 0 6 ∧
      job.clientIp = slice pkt 26 4 ∧ job.serverIp = slice pkt 30 4 ∧
      job.clientPort = slice pkt (requestUdp pkt) 2 := by
  simp only [parseFrame, Option.ite_none_left_eq_some, Option.some.injEq] at parsed
  obtain ⟨long, _, _, room, _, _, _, _, rfl⟩ := parsed
  exact ⟨Nat.not_lt.mp long, Nat.not_lt.mp room, rfl, rfl, rfl, rfl, rfl⟩

/-- The sizes of what is copied into a response frame. -/
structure JobSizes (job : DnsJob) : Prop where
  clientMac : job.clientMac.length = 6
  serverMac : job.serverMac.length = 6
  clientIp : job.clientIp.length = 4
  serverIp : job.serverIp.length = 4
  clientPort : job.clientPort.length = 2

theorem parseFrame_sizes {pkt : Bytes} {loopIdx : Nat} {job : DnsJob}
    (parsed : parseFrame pkt loopIdx = some job) : JobSizes job := by
  obtain ⟨long, room, clientMac, serverMac, clientIp, serverIp, clientPort⟩ :=
    parseFrame_ends parsed
  have front : 42 ≤ pkt.length := long
  have udp : udpHlen = 8 := rfl
  exact
    { clientMac := clientMac ▸ length_slice (by omega)
      serverMac := serverMac ▸ length_slice (by omega)
      clientIp := clientIp ▸ length_slice (by omega)
      serverIp := serverIp ▸ length_slice (by omega)
      clientPort := clientPort ▸ length_slice (by omega) }

section

variable {job : DnsJob}

theorem length_responseIpHeader (sizes : JobSizes job) (ipTotal : UInt16) {check : Bytes}
    (word : check.length = 2) : (responseIpHeader job ipTotal check).length = ipHlen := by
  simp [responseIpHeader, sizes.clientIp, sizes.serverIp, word, ipHlen]

/-- The IP header of a response verifies. -/
theorem responseIpHeader_verifies (sizes : JobSizes job) (ipTotal : UInt16) :
    onesSum 65536 (netWords (responseIpHeader job ipTotal
      (hostWord (ipv4Checksum (responseIpHeader job ipTotal [0, 0]))))) = 0xFFFF := by
  have shape : ∀ check, responseIpHeader job ipTotal check =
      ([0x45, job.tos] ++ wr16 ipTotal ++ wr16 0 ++ wr16 0x4000 ++ [job.ttl, ipprotoUdp]) ++
        (check ++ (job.serverIp ++ job.clientIp)) := by
    intro check
    simp only [responseIpHeader, List.append_assoc]
  have small := @length_responseIpHeader job sizes ipTotal [0, 0] rfl
  rw [shape] at small ⊢
  rw [shape]
  exact ipv4Checksum_verifies (by simp) (by rw [small]; decide)

/-- The length fields of a response frame. -/
theorem responseLengths (limited : job.resp.length ≤ dnsMaxMsgLen) :
    (UInt16.ofNat (udpHlen + job.resp.length)).toNat = 8 + job.resp.length ∧
      (UInt16.ofNat (ipHlen + (UInt16.ofNat (udpHlen + job.resp.length)).toNat)).toNat =
        28 + job.resp.length := by
  rw [dnsMaxMsgLen] at limited
  simp only [udpHlen, ipHlen, UInt16.toNat_ofNat']
  omega

/-- The fields of a response frame, each at its offset. -/
theorem buildResponseFrame_fields (sizes : JobSizes job)
    (limited : job.resp.length ≤ dnsMaxMsgLen) :
    (buildResponseFrame job).length = 42 + job.resp.length ∧
    onesSum 65536 (netWords (slice (buildResponseFrame job) 14 20)) = 0xFFFF ∧
    (rd16 (buildResponseFrame job) 16).toNat = 28 + job.resp.length ∧
    (rd16 (buildResponseFrame job) 38).toNat = 8 + job.resp.length ∧
    slice (buildResponseFrame job) 0 6 = job.clientMac ∧
    slice (buildResponseFrame job) 6 6 = job.serverMac ∧
    slice (buildResponseFrame job) 26 4 = job.serverIp ∧
    slice (buildResponseFrame job) 30 4 = job.clientIp ∧
    rd16 (buildResponseFrame job) 34 = 53 ∧
    slice (buildResponseFrame job) 36 2 = job.clientPort ∧
    slice (buildResponseFrame job) 42 job.resp.length = job.resp := by
  obtain ⟨udpSize, ipSize⟩ := responseLengths limited
  let udpTotal := UInt16.ofNat (udpHlen + job.resp.length)
  let ipTotal := UInt16.ofNat (ipHlen + udpTotal.toNat)
  let check := hostWord (ipv4Checksum (responseIpHeader job ipTotal [0, 0]))
  let eth := job.clientMac ++ job.serverMac ++ wr16 ethPIp
  let ip := responseIpHeader job ipTotal check
  let options := [0x45, job.tos] ++ wr16 ipTotal ++ wr16 0 ++ wr16 0x4000 ++
    [job.ttl, ipprotoUdp] ++ check
  have ethLength : eth.length = 14 := by simp [eth, sizes.clientMac, sizes.serverMac]
  have ipLength : ip.length = 20 := length_responseIpHeader sizes ipTotal rfl
  have ipShape : ip = options ++ job.serverIp ++ job.clientIp := rfl
  have shape : buildResponseFrame job = eth ++ ip ++ wr16 53 ++ job.clientPort ++ wr16 udpTotal ++
      wr16 0 ++ job.resp := rfl
  have front : (eth ++ ip).length = 34 := by rw [List.length_append, ethLength, ipLength]
  rw [shape]
  refine ⟨?_, ?_, ?_, ?_, ?_, ?_, ?_, ?_, ?_, ?_, ?_⟩
  · simp only [List.length_append, ethLength, ipLength, sizes.clientPort, length_wr16]
  · rw [slice_of_front eth ip (by simp) ethLength ipLength]
    exact responseIpHeader_verifies sizes ipTotal
  · rw [rd16_of_front (eth ++ [0x45, job.tos]) ipTotal (by simp [ipShape, options])
      (by simp [ethLength])]
    exact ipSize
  · rw [rd16_of_front (eth ++ ip ++ wr16 53 ++ job.clientPort) udpTotal (by simp)
      (by simp [ethLength, ipLength, sizes.clientPort])]
    exact udpSize
  · exact slice_of_front [] job.clientMac (by simp [eth]) rfl sizes.clientMac
  · exact slice_of_front job.clientMac job.serverMac (by simp [eth]) sizes.clientMac
      sizes.serverMac
  · exact slice_of_front (eth ++ options) job.serverIp (by simp [ipShape])
      (by simp [ethLength, options, check, hostWord]) sizes.serverIp
  · exact slice_of_front (eth ++ options ++ job.serverIp) job.clientIp (by simp [ipShape])
      (by simp [ethLength, options, check, hostWord, sizes.serverIp]) sizes.clientIp
  · exact rd16_of_front (eth ++ ip) 53 (by simp) front
  · exact slice_of_front (eth ++ ip ++ wr16 53) job.clientPort (by simp)
      (by simp [ethLength, ipLength]) sizes.clientPort
  · exact slice_of_front
      (eth ++ ip ++ wr16 53 ++ job.clientPort ++ wr16 udpTotal ++ wr16 0) job.resp (by simp)
      (by simp [ethLength, ipLength, sizes.clientPort]) rfl

end

/-- **Replies are valid.** For every frame that `parse_frame` accepts and every response that fits a
job, the frame that is sent back fits a UMEM frame, its IP header verifies, its lengths are right,
and its ends are those of the request swapped. -/
theorem buildResponseFrame_valid {pkt : Bytes} {loopIdx : Nat} {job : DnsJob} {resp : Bytes}
    (parsed : parseFrame pkt loopIdx = some job) (limited : resp.length ≤ dnsMaxMsgLen) :
    let frame := buildResponseFrame { job with resp := resp }
    frame.length = 42 + resp.length ∧ frame.length ≤ frameSize ∧
    onesSum 65536 (netWords (slice frame 14 20)) = 0xFFFF ∧
    (rd16 frame 16).toNat = 28 + resp.length ∧
    (rd16 frame 38).toNat = 8 + resp.length ∧
    slice frame 0 6 = slice pkt 6 6 ∧ slice frame 6 6 = slice pkt 0 6 ∧
    slice frame 26 4 = slice pkt 30 4 ∧ slice frame 30 4 = slice pkt 26 4 ∧
    rd16 frame 34 = 53 ∧ slice frame 36 2 = slice pkt (requestUdp pkt) 2 ∧
    slice frame 42 resp.length = resp := by
  intro frame
  have sizes := parseFrame_sizes parsed
  obtain ⟨_, _, clientMac, serverMac, clientIp, serverIp, clientPort⟩ := parseFrame_ends parsed
  obtain ⟨length, verified, total, udpTotal, toMac, fromMac, fromIp, toIp, fromPort, toPort,
      payload⟩ :=
    @buildResponseFrame_fields { job with resp := resp }
      ⟨sizes.clientMac, sizes.serverMac, sizes.clientIp, sizes.serverIp, sizes.clientPort⟩ limited
  refine ⟨length, ?_, verified, total, udpTotal, toMac.trans clientMac, fromMac.trans serverMac,
    fromIp.trans serverIp, toIp.trans clientIp, fromPort, toPort.trans clientPort, payload⟩
  have size : frame.length = 42 + resp.length := length
  rw [size, frameSize]
  rw [dnsMaxMsgLen] at limited
  omega

/-- A request for the root, its IP header with or without four bytes of options. -/
def rootRequest (options : Bool) : Bytes :=
  [2, 0, 0, 0, 0, 1] ++ [2, 0, 0, 0, 0, 7] ++ [8, 0] ++
    [if options then 0x46 else 0x45, 0, 0, 45, 0, 0, 0x40, 0, 64, 17, 0, 0, 192, 0, 2, 7,
      192, 0, 2, 1] ++ (if options then [1, 1, 1, 1] else []) ++
    [200, 13, 0, 53, 0, 25, 0, 0] ++ [0, 7, 1, 0, 0, 1, 0, 0, 0, 0, 0, 0] ++ [0, 0, 1, 0, 1]

theorem buildResponseFrame_valid_rootRequest :
    ∃ job, parseFrame (rootRequest true) 0 = some job ∧
      (buildResponseFrame { job with resp := [0, 7, 0x81, 0x80] }).length = 42 + 4 ∧
      onesSum 65536
        (netWords (slice (buildResponseFrame { job with resp := [0, 7, 0x81, 0x80] }) 14 20)) =
          0xFFFF := by
  obtain ⟨job, parsed⟩ := Option.isSome_iff_exists.mp
    (show (parseFrame (rootRequest true) 0).isSome = true by decide)
  obtain ⟨length, _, verified, _⟩ :=
    @buildResponseFrame_valid (rootRequest true) 0 job [0, 7, 0x81, 0x80] parsed (by decide)
  exact ⟨job, parsed, length, verified⟩

end FizzDns
