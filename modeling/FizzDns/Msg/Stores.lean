import FizzDns.Msg.NameLimits
import FizzDns.Msg.Response

/-!
# Where a response is stored

How far `dns_build_response` stores into its output buffer, counting the records that it
gives up again and the labels that `dns_name_encode` stores before it fails.

Every turn of the answer loop keeps to the limit for the answers as long as it starts below
it (`emitAnswer_stored_le`). It starts above it when the OPT record of an EDNS query does not
fit behind the question: then the room `ans_cap - o` wraps, and an owner that is not the name
of the question is stored whole, wherever the buffer ends (`emitAnswer_past`). That is the one
way to store behind the buffer (`stores_inside_iff`).
-/

namespace FizzDns

/-! ## Names -/

/-- The bytes that a call of `dns_name_encode` has stored, whether it succeeds or not. -/
def storedBytes : Except Bytes Bytes → Bytes
  | .ok encoded => encoded
  | .error wrote => wrote

/-- The labels are stored inside the buffer. -/
theorem length_encodeLabels_le {cap : Nat} {labels : List Bytes} {out : Bytes}
    (inside : out.length ≤ cap) : (storedBytes (encodeLabels cap labels out)).length ≤ cap := by
  induction labels generalizing out with
  | nil => exact inside
  | cons label rest ih =>
      rw [encodeLabels]
      split
      · exact inside
      split
      · exact inside
      next room =>
      have grown : (out ++ UInt8.ofNat label.length :: label).length ≤ cap := by
        rw [List.length_append, List.length_cons]
        omega
      simp only
      split
      · exact grown
      · exact ih grown

/-- `dns_name_encode` stores at most as many bytes as it is given. -/
theorem length_dnsNameEncode_le (name : Bytes) (cap : Nat) :
    (storedBytes (dnsNameEncode name cap)).length ≤ cap := by
  have looped := @length_encodeLabels_le cap (name.splitOn 46) [] (Nat.zero_le _)
  unfold dnsNameEncode
  split
  · split
    · exact Nat.zero_le _
    · next room => exact Nat.not_lt.mp room
  · cases written : encodeLabels cap (name.splitOn 46) [] with
    | error wrote => simpa only [written] using looped
    | ok out =>
        rw [written] at looped
        simp only
        split
        · exact looped
        next room =>
        have whole : (out ++ [0]).length ≤ cap := by
          rw [List.length_append, List.length_singleton]
          exact Nat.not_lt.mp room
        split
        · exact whole
        · exact whole

/-- The octets of labels with their length bytes up to the first one that is empty or too
long, and of the zero byte if there is none. The last text may be empty: that is the trailing
dot. -/
def labelOctets : List Bytes → Nat
  | [] => 1
  | label :: rest =>
      if label.length = 0 ∨ label.length > dnsMaxLabel then 0
      else label.length + 1 + if rest = [] ∨ rest = [[]] then 1 else labelOctets rest

/-- The octets of a dotted name on the wire, as far as it is made of labels. -/
def nameOctets (name : Bytes) : Nat :=
  if name = [] ∨ name = [46] then 1 else labelOctets (name.splitOn 46)

/-- How many bytes are stored for labels that have room, also when one of them is refused. -/
theorem encodeLabels_stored {cap : Nat} {labels : List Bytes} {out : Bytes}
    (room : out.length + (wireLabels labels).length + 1 ≤ cap) :
    (∃ wrote, encodeLabels cap labels out = .error wrote ∧
      wrote.length = out.length + labelOctets labels) ∨
    ∃ written, encodeLabels cap labels out = .ok written ∧
      written.length + 1 = out.length + labelOctets labels ∧ written.length + 1 ≤ cap := by
  induction labels generalizing out with
  | nil =>
      rw [wireLabels_nil, List.length_nil] at room
      exact Or.inr ⟨out, rfl, rfl, room⟩
  | cons label rest ih =>
      rw [wireLabels_cons, List.length_append, List.length_cons] at room
      rw [encodeLabels, labelOctets]
      split
      · exact Or.inl ⟨out, rfl, rfl⟩
      rw [if_neg (by omega)]
      simp only
      have size : (out ++ UInt8.ofNat label.length :: label).length =
          out.length + (label.length + 1) := by
        rw [List.length_append, List.length_cons]
      split
      · refine Or.inr ⟨_, rfl, ?_, ?_⟩
        · rw [size, Nat.add_assoc, Nat.add_assoc]
        · rw [size]
          omega
      · rcases ih (by rw [size]; omega) with ⟨wrote, failed, length⟩ | ⟨written, done, length, fits⟩
        · refine Or.inl ⟨wrote, failed, ?_⟩
          rw [length, size, Nat.add_assoc]
        · refine Or.inr ⟨written, done, ?_, fits⟩
          rw [length, size, Nat.add_assoc]

/-- Given room, `dns_name_encode` stores all octets of a name that are labels. -/
theorem length_dnsNameEncode_stored {name : Bytes} {cap : Nat} (room : name.length + 2 ≤ cap) :
    (storedBytes (dnsNameEncode name cap)).length = nameOctets name := by
  unfold dnsNameEncode nameOctets
  split
  · rw [if_neg (by omega)]
    rfl
  · have wire := length_wireLabels (List.splitOn_ne_nil 46 name)
    rw [List.intercalate_splitOn] at wire
    rcases @encodeLabels_stored cap (name.splitOn 46) []
        (by rw [List.length_nil, wire]; omega) with
      ⟨wrote, failed, length⟩ | ⟨written, done, length, fits⟩
    · rw [failed]
      simpa [storedBytes] using length
    · rw [done]
      simp only
      rw [if_neg (Nat.not_lt.mpr fits)]
      rw [List.length_nil, Nat.zero_add] at length
      split
      · rw [storedBytes, List.length_append, List.length_singleton, length]
      · rw [storedBytes, List.length_append, List.length_singleton, length]

/-! ## Records -/

/-- How many bytes were stored for a part of a record. -/
def storedCount : Except Nat Bytes → Nat
  | .ok part => part.length
  | .error wrote => wrote

/-- How many bytes a turn of the answer loop has stored behind its start. -/
def Emission.stored : Emission → Nat
  | .emitted record => record.length
  | .full wrote => wrote
  | .skipped wrote => wrote

section Turn

variable {qname : DnsName} {answer : DnsAnswer} {ansCap o : Nat}

/-- Encoding a name behind `o` keeps to the limit. -/
private theorem storedCount_name_le (name : Bytes) (below : o ≤ ansCap) (size : ansCap < 2 ^ 64) :
    o + storedCount (match dnsNameEncode name (sizeSub ansCap o) with
      | .error wrote => .error wrote.length
      | .ok encoded => .ok encoded) ≤ ansCap := by
  have stored := length_dnsNameEncode_le name (ansCap - o)
  rw [sizeSub_of_le below size]
  cases written : dnsNameEncode name (ansCap - o) with
  | error wrote =>
      rw [written, storedBytes] at stored
      rw [storedCount]
      omega
  | ok encoded =>
      rw [written, storedBytes] at stored
      rw [storedCount]
      omega

/-- The owner is stored inside the room for answers. -/
theorem emitOwner_stored_le (owner : DnsName) (below : o ≤ ansCap) (size : ansCap < 2 ^ 64) :
    o + storedCount (emitOwner qname owner ansCap o) ≤ ansCap := by
  unfold emitOwner
  split
  · split
    · exact below
    · next fits => exact Nat.not_lt.mp fits
  · exact storedCount_name_le owner.chars below size

/-- So is the data. -/
theorem emitRdata_stored_le (rdata : AnswerData) (below : o ≤ ansCap) (size : ansCap < 2 ^ 64) :
    o + storedCount (emitRdata rdata ansCap o) ≤ ansCap := by
  have octets : ∀ {count : Nat} (bytes : Fin count → UInt8),
      o + storedCount (if o + count > ansCap then .error 0 else .ok (List.ofFn bytes)) ≤
        ansCap := by
    intro count bytes
    split
    · exact below
    · next fits =>
        rw [storedCount, List.length_ofFn]
        exact Nat.not_lt.mp fits
  cases rdata with
  | a bytes => exact octets bytes
  | aaaa bytes => exact octets bytes
  | cname target => exact storedCount_name_le target.chars below size
  | other type foreign => exact below

/-- A turn that starts below the limit stores nothing behind it. -/
theorem emitAnswer_stored_le (below : o ≤ ansCap) (size : ansCap < 2 ^ 64) :
    o + (emitAnswer qname answer ansCap o).stored ≤ ansCap := by
  have ownerStored := @emitOwner_stored_le qname ansCap o answer.owner below size
  unfold emitAnswer
  cases owned : emitOwner qname answer.owner ansCap o with
  | error wrote =>
      rw [owned] at ownerStored
      exact ownerStored
  | ok owner =>
      rw [owned, storedCount] at ownerStored
      simp only
      split
      · exact ownerStored
      next room =>
      have dataStored := @emitRdata_stored_le ansCap (o + owner.length + 10) answer.rdata
        (Nat.not_lt.mp room) size
      split
      · rw [Emission.stored]
        omega
      · split
        · rw [Emission.stored]
          omega
        · next wrote failed =>
            rw [failed, storedCount] at dataStored
            rw [Emission.stored]
            omega
        · next data written =>
            rw [written, storedCount] at dataStored
            simp only [Emission.stored, List.length_append, length_wr16, length_wr32]
            omega

/-- A turn that starts behind the limit gives up. The room it computes has wrapped, so it has
stored the owner unless a pointer stands for it. -/
theorem emitAnswer_past (past : ansCap < o) (near : o ≤ ansCap + dnsOptRrLen) :
    emitAnswer qname answer ansCap o =
      .full (if dnsNameEqual answer.owner.chars qname.chars then 0
        else nameOctets answer.owner.chars) := by
  rw [dnsOptRrLen] at near
  unfold emitAnswer emitOwner
  by_cases same : dnsNameEqual answer.owner.chars qname.chars = true
  · rw [if_pos same, if_pos (by omega), if_pos same]
  · rw [if_neg same, if_neg same]
    have ample : answer.owner.chars.length + 2 ≤ sizeSub ansCap o := by
      have fits := answer.owner.fits
      rw [dnsMaxName] at fits
      rw [sizeSub, Nat.mod_eq_of_lt (by omega)]
      omega
    have stored := length_dnsNameEncode_stored ample
    cases written : dnsNameEncode answer.owner.chars (sizeSub ansCap o) with
    | error wrote =>
        rw [written, storedBytes] at stored
        simp only [stored]
    | ok encoded =>
        rw [written, storedBytes] at stored
        simp only
        rw [if_pos (by omega), stored]

end Turn

/-! ## The answer loop -/

section Loop

variable {qname : DnsName} {ansCap : Nat} {ans : List DnsAnswer} {loop : AnswerLoop}

/-- The answer loop keeps to the limit, and it only ever adds to the body. -/
theorem emitAnswers_stored_le (below : dnsHdrLen + loop.body.length ≤ ansCap)
    (touched : loop.touched ≤ ansCap) (size : ansCap < 2 ^ 64) :
    dnsHdrLen + (emitAnswers qname ansCap ans loop).body.length ≤ ansCap ∧
      (emitAnswers qname ansCap ans loop).touched ≤ ansCap := by
  induction ans generalizing loop with
  | nil => exact ⟨below, touched⟩
  | cons answer rest ih =>
      have stored := @emitAnswer_stored_le qname answer ansCap (dnsHdrLen + loop.body.length)
        below size
      rw [emitAnswers]
      cases turn : emitAnswer qname answer ansCap (dnsHdrLen + loop.body.length) with
      | emitted record =>
          rw [turn, Emission.stored] at stored
          apply ih
          · simp only [List.length_append]
            omega
          · exact Nat.max_le.mpr ⟨touched, stored⟩
      | skipped wrote =>
          rw [turn, Emission.stored] at stored
          apply ih
          · exact below
          · exact Nat.max_le.mpr ⟨touched, stored⟩
      | full wrote =>
          rw [turn, Emission.stored] at stored
          exact ⟨below, Nat.max_le.mpr ⟨touched, stored⟩⟩

end Loop

/-! ## The response -/

/-- The answer loop of `dns_build_response` behind the question. -/
def answerLoop (query : Bytes) (q : DnsQueryInfo) (ans : List DnsAnswer) (rcode : Nat)
    (isUdp : Bool) (cap : Nat) : AnswerLoop :=
  if rcode = dnsRcodeNoerror then
    emitAnswers q.q.name (answerCap q (effectiveCap q isUdp cap) (dnsHdrLen + q.q.rawLen)) ans
      ⟨slice query q.q.rawOff q.q.rawLen, 0, false, dnsHdrLen + q.q.rawLen⟩
  else ⟨slice query q.q.rawOff q.q.rawLen, 0, false, dnsHdrLen + q.q.rawLen⟩

/-- The limit is inside the buffer: it is the whole buffer, or at least 512 bytes. -/
theorem effectiveCap_le (q : DnsQueryInfo) (isUdp : Bool) (cap : Nat) :
    effectiveCap q isUdp cap ≤ cap ∧ (effectiveCap q isUdp cap = cap ∨
      512 ≤ effectiveCap q isUdp cap) := by
  have min : dnsEdnsMinPayload.toNat = 512 := rfl
  have ours : dnsEdnsOurUdpPayload.toNat = 1232 := rfl
  unfold effectiveCap dnsClassicUdpLimit
  simp only [UInt16.lt_iff_toNat_lt, apply_ite UInt16.toNat, min, ours]
  split_ifs <;> omega

/-- A response is at most as long as the size limit, or as the answer loop leaves it, and
stores nothing behind what the loop has touched and its own end. -/
theorem dnsBuildResponse_stores {query : Bytes} {q : DnsQueryInfo} {ans : List DnsAnswer}
    {rcode : Nat} {isUdp : Bool} {cap : Nat} (inside : q.q.rawOff + q.q.rawLen ≤ query.length)
    (room : dnsHdrLen + q.q.rawLen ≤ cap) :
    ∃ built, dnsBuildResponse query query.length q ans rcode isUdp cap = some built ∧
      built.touched = max (answerLoop query q ans rcode isUdp cap).touched built.bytes.length ∧
      built.bytes.length ≤ max (effectiveCap q isUdp cap)
        (dnsHdrLen + (answerLoop query q ans rcode isUdp cap).body.length) := by
  have question : (slice query q.q.rawOff q.q.rawLen).length = q.q.rawLen := length_slice inside
  rw [dnsBuildResponse, if_neg (by omega), if_neg (by omega), if_neg (by omega)]
  simp only [question]
  rw [← answerLoop]
  refine ⟨_, rfl, ?_, ?_⟩
  · simp only [List.length_append, length_headerBytes]
  · simp only [List.length_append, length_headerBytes]
    split
    · next opt =>
        rw [Bool.and_eq_true, decide_eq_true_iff] at opt
        rw [List.length_append]
        exact (Nat.add_assoc _ _ _ ▸ opt.2).trans (Nat.le_max_left _ _)
    · exact Nat.le_max_right _ _

/-- The limit for the answers lies before the end of a short question only if the query has
EDNS and the buffer has no room for the OPT record. -/
theorem answerCap_past {q : DnsQueryInfo} {isUdp : Bool} {cap o : Nat} (least : dnsOptRrLen < o)
    (short : o ≤ 500) (room : o ≤ cap) :
    answerCap q (effectiveCap q isUdp cap) o ≤ cap ∧
      if q.hasEdns ∧ cap < o + dnsOptRrLen then
        answerCap q (effectiveCap q isUdp cap) o + dnsOptRrLen = cap
      else o ≤ answerCap q (effectiveCap q isUdp cap) o := by
  obtain ⟨most, tight⟩ := effectiveCap_le q isUdp cap
  rw [dnsOptRrLen] at least ⊢
  unfold answerCap dnsOptRrLen
  by_cases edns : q.hasEdns = true
  · rw [if_pos edns, if_pos (by omega)]
    simp only [edns, true_and]
    split <;> omega
  · rw [if_neg edns, if_neg (fun both => edns both.1)]
    omega

/-- The owner of the first answer is not the name of the question and too long for what the
buffer has left behind offset `o`. -/
def OwnerPast (q : DnsQueryInfo) (ans : List DnsAnswer) (cap o : Nat) : Prop :=
  ∃ answer rest, ans = answer :: rest ∧
    dnsNameEqual answer.owner.chars q.q.name.chars = false ∧
    cap < o + nameOctets answer.owner.chars

/-- Behind the limit, the answer loop keeps to the buffer unless it stores an owner that is
too long for it. -/
theorem emitAnswers_past {q : DnsQueryInfo} {ans : List DnsAnswer} {ansCap cap o : Nat}
    {loop : AnswerLoop} (start : o = dnsHdrLen + loop.body.length) (touched : loop.touched = o)
    (past : ansCap < o) (near : o ≤ ansCap + dnsOptRrLen) (room : o ≤ cap) :
    (emitAnswers q.q.name ansCap ans loop).body = loop.body ∧
      ((emitAnswers q.q.name ansCap ans loop).touched ≤ cap ↔ ¬ OwnerPast q ans cap o) := by
  cases ans with
  | nil =>
      refine ⟨rfl, iff_of_true (touched ▸ room) ?_⟩
      rintro ⟨answer, rest, none, _⟩
      cases none
  | cons answer rest =>
      rw [emitAnswers]
      simp only [← start]
      rw [emitAnswer_past past near]
      refine ⟨rfl, ?_⟩
      simp only [touched, Nat.max_le, room, true_and]
      by_cases same : dnsNameEqual answer.owner.chars q.q.name.chars = true
      · rw [if_pos same]
        refine iff_of_true room ?_
        rintro ⟨_, _, first, differ, _⟩
        cases first
        rw [same] at differ
        cases differ
      · rw [if_neg same, ← Nat.not_lt]
        apply not_congr
        constructor
        · intro long
          exact ⟨answer, rest, rfl, Bool.eq_false_iff.mpr same, long⟩
        · rintro ⟨_, _, first, _, long⟩
          cases first
          exact long

/-- The answer loop of a response keeps to the buffer unless the OPT record and the owner of
the first answer are too long for what the question leaves of it. -/
theorem answerLoop_stored_iff {query : Bytes} {q : DnsQueryInfo} {ans : List DnsAnswer}
    {rcode : Nat} {isUdp : Bool} {cap o : Nat} (start : o = dnsHdrLen + q.q.rawLen)
    (inside : q.q.rawOff + q.q.rawLen ≤ query.length) (short : o ≤ 500) (room : o ≤ cap)
    (size : cap < 2 ^ 64) :
    dnsHdrLen + (answerLoop query q ans rcode isUdp cap).body.length ≤ cap ∧
      ((answerLoop query q ans rcode isUdp cap).touched ≤ cap ↔
        ¬ (q.hasEdns = true ∧ rcode = dnsRcodeNoerror ∧ cap < o + dnsOptRrLen ∧
          OwnerPast q ans cap o)) := by
  have question : (slice query q.q.rawOff q.q.rawLen).length = q.q.rawLen := length_slice inside
  have least : dnsOptRrLen < o := by
    rw [start, dnsOptRrLen, dnsHdrLen]
    omega
  obtain ⟨most, limit⟩ := @answerCap_past q isUdp cap o least short room
  unfold answerLoop
  rw [← start]
  by_cases good : rcode = dnsRcodeNoerror
  swap
  · rw [if_neg good]
    simp only [question, ← start]
    exact ⟨room, iff_of_true room fun past => good past.2.1⟩
  rw [if_pos good]
  by_cases past : q.hasEdns = true ∧ cap < o + dnsOptRrLen
  · rw [if_pos past] at limit
    obtain ⟨body, touched⟩ := @emitAnswers_past q ans _ cap o
      ⟨slice query q.q.rawOff q.q.rawLen, 0, false, o⟩ (by rw [question, start]) rfl
      (show answerCap q (effectiveCap q isUdp cap) o < o by omega) (by omega) room
    rw [body, question, ← start, touched]
    refine ⟨room, not_congr ?_⟩
    exact ⟨fun owner => ⟨past.1, good, past.2, owner⟩, fun all => all.2.2.2⟩
  · rw [if_neg past] at limit
    obtain ⟨body, touched⟩ := @emitAnswers_stored_le q.q.name
      (answerCap q (effectiveCap q isUdp cap) o) ans
      ⟨slice query q.q.rawOff q.q.rawLen, 0, false, o⟩ (by rw [question, ← start]; exact limit)
      limit (by omega)
    refine ⟨body.trans most, iff_of_true (touched.trans most) ?_⟩
    exact fun all => past ⟨all.1, all.2.2.1⟩

/-- `dns_build_response` stores every byte of the response to an accepted query inside the
buffer, unless the OPT record of an EDNS query does not fit behind the question and the owner
of the first answer, which is then stored there, is not the name of the question and too
long. -/
theorem stores_inside_iff {query : Bytes} {q : DnsQueryInfo}
    (accepted : dnsParseQuery query query.length = some q) (ans : List DnsAnswer) (rcode : Nat)
    (isUdp : Bool) {cap : Nat} (size : cap < 2 ^ 64) :
    (∀ built, dnsBuildResponse query query.length q ans rcode isUdp cap = some built →
      built.touched ≤ cap ∧ built.bytes.length ≤ cap) ↔
    ¬ (dnsHdrLen + q.q.rawLen ≤ cap ∧ q.hasEdns = true ∧ rcode = dnsRcodeNoerror ∧
      cap < dnsHdrLen + q.q.rawLen + dnsOptRrLen ∧
      OwnerPast q ans cap (dnsHdrLen + q.q.rawLen)) := by
  obtain ⟨rawOff, inside, short⟩ := dnsParseQuery_rawLen_le accepted
  by_cases room : dnsHdrLen + q.q.rawLen ≤ cap
  swap
  · -- the buffer does not hold the question, and nothing is stored
    refine iff_of_true (fun built builds => ?_) (fun past => room past.1)
    rw [dnsBuildResponse] at builds
    simp only [Option.ite_none_left_eq_some] at builds
    exact absurd (Nat.not_lt.mp builds.2.2.1) room
  obtain ⟨built, builds, touched, length⟩ := @dnsBuildResponse_stores query q ans rcode isUdp cap
    inside room
  obtain ⟨body, decides⟩ := @answerLoop_stored_iff query q ans rcode isUdp cap _ rfl inside
    (short.trans (by decide)) room size
  have whole : built.bytes.length ≤ cap :=
    length.trans (Nat.max_le.mpr ⟨(effectiveCap_le q isUdp cap).1, body⟩)
  rw [and_iff_right room, ← decides, builds]
  constructor
  · intro stores
    have all := (stores built rfl).1
    rw [touched] at all
    exact (Nat.max_le.mp all).1
  · intro loop _ same
    cases same
    rw [touched]
    exact ⟨Nat.max_le.mpr ⟨loop, whole⟩, whole⟩

/-- A query for the addresses of "b" that ends with an OPT record. -/
def ednsQueryForB : Bytes :=
  [0x12, 0x34, 1, 0, 0, 1, 0, 0, 0, 0, 0, 1, 1, 98, 0, 0, 1, 0, 1] ++ optRecord 1232 0

/-- What `dns_parse_query` makes of `ednsQueryForB`. -/
def ednsInfoForB : DnsQueryInfo where
  hdr := ⟨0x1234, 0x0100, 1, 0, 0, 1⟩
  q := ⟨DnsName.ofText [98], dnsTypeA, dnsClassIn, 12, 7⟩
  recursionDesired := true
  hasEdns := true
  ednsUdpPayload := 1232
  ednsVersion := 0
  ednsDo := false

/-- A query with an OPT record, and a response buffer of 30 bytes. -/
theorem stores_inside_iff_edns :
    (∀ built, dnsBuildResponse ednsQueryForB ednsQueryForB.length ednsInfoForB [addressOfA false]
        dnsRcodeNoerror true 30 = some built → built.touched ≤ 30 ∧ built.bytes.length ≤ 30) ↔
    ¬ (dnsHdrLen + ednsInfoForB.q.rawLen ≤ 30 ∧ ednsInfoForB.hasEdns = true ∧
      dnsRcodeNoerror = dnsRcodeNoerror ∧ 30 < dnsHdrLen + ednsInfoForB.q.rawLen + dnsOptRrLen ∧
      OwnerPast ednsInfoForB [addressOfA false] 30 (dnsHdrLen + ednsInfoForB.q.rawLen)) :=
  stores_inside_iff (by decide) [addressOfA false] dnsRcodeNoerror true (by decide)

/-- In a buffer of 19 bytes, which the header and the question fill, the owner "a" is stored
behind the end. -/
theorem owner_stored_past_buffer :
    dnsParseQuery ednsQueryForB ednsQueryForB.length = some ednsInfoForB ∧
    ∃ built, dnsBuildResponse ednsQueryForB ednsQueryForB.length ednsInfoForB [addressOfA false]
        dnsRcodeNoerror true 19 = some built ∧ built.touched = 22 := by
  refine ⟨by decide, ?_⟩
  exact ⟨_, rfl, by decide⟩

end FizzDns
