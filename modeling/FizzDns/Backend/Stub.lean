import FizzDns.Msg.NameLimits
import FizzDns.Msg.Response

/-!
# The stub backend

`resolver_stub.c` answers every query at once with one fixed address. It does not use the parsers of
`dns_msg.c`: `question_end` walks the labels of the question on its own, without decoding them, and
lets the offset run past the message, where its loop ends. Both ways of delimiting the question lead
to the same offset (`questionEnd_agrees`), because both read the same grammar of names.
-/

namespace FizzDns

/-! ## The question -/

/-- The loop of `question_end`. Every turn moves forward, so that `len` turns reach the end. -/
def questionEndLoop (msg : Bytes) (len : Nat) : (turns off : Nat) → Nat
  | 0, _ => 0
  | turns + 1, off =>
      if off < len then
        let l := byteAt msg off
        if l = 0 then if off + 1 + 4 > len then 0 else off + 1 + 4
        -- pointers are illegal in a question
        else if l &&& 0xC0 ≠ 0 then 0
        else questionEndLoop msg len turns (off + 1 + l.toNat)
      else 0

/-- `question_end`: the length of header and question, or 0 for a malformed question. -/
def questionEnd (msg : Bytes) (len : Nat) : Nat :=
  questionEndLoop msg len len dnsHdrLen

section

variable {msg : Bytes} {len turns off next pointers : Nat} {labels : List Bytes}

private theorem unmarked_bits : ∀ l : BitVec 8, l &&& 0xC0#8 = 0#8 → l.toNat ≤ 63 := by decide

/-- A length byte whose two upper bits are clear is the length of a label. -/
theorem unmarked_length {l : UInt8} (clear : l &&& 0xC0 = 0) : l.toNat ≤ dnsMaxLabel :=
  unmarked_bits l.toBitVec (congrArg UInt8.toBitVec clear)

/-- Where the loop ends well stands a name without pointers, four bytes before the end. -/
theorem questionEndLoop_nameAt (found : questionEndLoop msg len turns off ≠ 0) :
    ∃ labels next, NameAt msg len off labels 0 next ∧ next + 4 ≤ len ∧
      questionEndLoop msg len turns off = next + 4 := by
  induction turns generalizing off with
  | zero => exact (found rfl).elim
  | succ turns ih =>
      rw [questionEndLoop] at found ⊢
      by_cases inside : off < len
      · simp only [inside, ↓reduceIte] at found ⊢
        by_cases zero : byteAt msg off = 0
        · simp only [zero, ↓reduceIte] at found ⊢
          by_cases short : off + 1 + 4 > len
          · exact (found (if_pos short)).elim
          · exact ⟨[], off + 1, .root inside zero, Nat.not_lt.mp short, if_neg short⟩
        · simp only [zero, ↓reduceIte] at found ⊢
          by_cases clear : byteAt msg off &&& 0xC0 = 0
          · rw [if_neg (not_not.mpr clear)] at found ⊢
            obtain ⟨labels, next, name, room, same⟩ := ih found
            refine ⟨_, next, .label ?_ (unmarked_length clear) ?_ name, room, same⟩
            · exact Nat.one_le_iff_ne_zero.mpr fun none => zero (UInt8.toNat_inj.mp none)
            · exact (name.lt_next.le.trans (Nat.le_add_right next 4)).trans room
          · exact (found (if_pos clear)).elim
      · exact (found (if_neg inside)).elim

/-- The loop reaches the end of every name without pointers that leaves room for type and class. -/
theorem NameAt.questionEndLoop_eq (name : NameAt msg len off labels pointers next)
    (plain : pointers = 0) (room : next + 4 ≤ len) (enough : len ≤ off + turns) :
    questionEndLoop msg len turns off = next + 4 := by
  induction name generalizing turns with
  | root inside zero =>
      obtain ⟨turns, rfl⟩ : ∃ more, turns = more + 1 := ⟨turns - 1, by omega⟩
      rw [questionEndLoop, if_pos inside]
      simp only
      rw [if_pos zero, if_neg (Nat.not_lt.mpr room)]
  | label positive short inside rest ih =>
      have ahead := rest.lt_next
      obtain ⟨turns, rfl⟩ : ∃ more, turns = more + 1 := ⟨turns - 1, by omega⟩
      rw [questionEndLoop, if_pos (by omega)]
      simp only
      rw [if_neg, if_neg (not_not.mpr (plain_length short))]
      · exact ih plain room (by omega)
      · intro zero
        rw [zero] at positive
        cases positive
  | pointer => cases plain

/-- A name whose labels lead to no pointer has none. -/
theorem NameAt.pointers_eq_zero (name : NameAt msg len off labels pointers next) {steps : Nat}
    (plain : namePointer msg len steps off = false) (enough : len < off + steps) :
    pointers = 0 := by
  induction name generalizing steps with
  | root => rfl
  | label positive short inside rest ih =>
      obtain ⟨steps, rfl⟩ : ∃ more, steps = more + 1 := ⟨steps - 1, by omega⟩
      rw [namePointer, if_neg (by omega)] at plain
      simp only at plain
      rw [if_neg, if_neg (by rw [plain_length short]; decide)] at plain
      · exact ih plain (by omega)
      · intro zero
        rw [zero] at positive
        cases positive
  | pointer inside marked backwards rest ih =>
      obtain ⟨steps, rfl⟩ : ∃ more, steps = more + 1 := ⟨steps - 1, by omega⟩
      rw [namePointer, if_neg (by omega)] at plain
      simp only at plain
      rw [if_neg, if_pos marked] at plain
      · cases plain
      · intro zero
        rw [zero] at marked
        cases marked

/-- The question of an accepted query without pointers ends where `question_end` says. -/
theorem questionEnd_of_accepted {q : DnsQueryInfo}
    (accepted : dnsParseQuery msg msg.length = some q)
    (plain : namePointer msg msg.length msg.length dnsHdrLen = false) :
    questionEnd msg msg.length = q.q.rawOff + q.q.rawLen := by
  obtain ⟨after, decoded, inside, _, _, rawOff, rawLen, _⟩ := dnsParseQuery_question accepted
  obtain ⟨⟨text, stop⟩, read, same⟩ := Option.map_eq_some_iff.mp decoded
  obtain ⟨-, rfl⟩ := Prod.mk.inj same
  obtain ⟨labels, pointers, name, _⟩ := dnsNameDecode_nameAt (Nat.le_refl _) read
  have none := name.pointers_eq_zero plain (by rw [dnsHdrLen]; omega)
  have ahead := name.lt_next
  rw [questionEnd, name.questionEndLoop_eq none inside (by omega), rawOff, rawLen]
  omega

end

/-- **The two backends delimit the question alike.** The question of a query that `dns_parse_query`
accepts and that has no pointer ends where `question_end` says; and where that says that a question
ends, `dns_skip_question` ends as well, if the name has at most `DNS_MAX_NAME` characters. -/
theorem questionEnd_agrees (msg : Bytes) :
    (∀ q, dnsParseQuery msg msg.length = some q →
      namePointer msg msg.length msg.length dnsHdrLen = false →
      questionEnd msg msg.length = q.q.rawOff + q.q.rawLen) ∧
    (0 < questionEnd msg msg.length →
      (∀ labels pointers next, NameAt msg msg.length dnsHdrLen labels pointers next →
        ([46].intercalate labels).length ≤ dnsMaxName) →
      dnsSkipQuestion msg msg.length dnsHdrLen = some (questionEnd msg msg.length)) := by
  refine ⟨fun q accepted plain => questionEnd_of_accepted accepted plain, fun found limited => ?_⟩
  obtain ⟨labels, next, name, room, same⟩ := questionEndLoop_nameAt (Nat.ne_of_gt found)
  have text := name.length_text (Nat.le_refl _)
  have decoded := name.dnsNameDecode_eq (Nat.le_refl _) (Nat.zero_le _)
    (text.trans_le (limited labels 0 next name))
  rw [questionEnd, same, dnsSkipQuestion, decodeName, decoded]
  exact if_neg (Nat.not_lt.mpr room)

/-! ## The reply -/

/-- `STUB_TTL`. -/
def stubTtl : UInt32 := 300

/-- The flags of the stub's reply: those of the query with QR and RA set and opcode and rcode
cleared. -/
def stubFlags (flags : UInt16) : UInt16 :=
  (flags ||| 0x8000 ||| 0x0080) &&& ~~~ 0x7800 &&& ~~~ 0x000F

/-- `dns_resolve_query` of the stub, `none` for `DNS_DROP`: the query up to the end of its question,
with other flags and counts, and one address record behind it. -/
def stubResolveQuery (stubAddr : Fin 4 → UInt8) (query : Bytes) (respCap : Nat) : Option Bytes :=
  if query.length < dnsHdrLen then none
  else
    let qend := questionEnd query query.length
    if qend = 0 then none
    else if qend + 16 > respCap then none
    else some (slice query 0 2 ++ wr16 (stubFlags (rd16 query 2)) ++ slice query 4 2 ++ wr16 1 ++
      wr16 0 ++ wr16 0 ++ slice query dnsHdrLen (qend - dnsHdrLen) ++
      ([0xC0, 0x0C] ++ wr16 dnsTypeA ++ wr16 dnsClassIn ++ wr32 stubTtl ++ wr16 4 ++
        List.ofFn stubAddr))

/-- The answer that the stub gives to a question. -/
def stubAnswer (stubAddr : Fin 4 → UInt8) (qname : DnsName) : DnsAnswer :=
  ⟨qname, stubTtl, .a stubAddr⟩

theorem recordBytes_stubAnswer (stubAddr : Fin 4 → UInt8) (qname : DnsName) :
    recordBytes qname (stubAnswer stubAddr qname) =
      [0xC0, 0x0C] ++ wr16 dnsTypeA ++ wr16 dnsClassIn ++ wr32 stubTtl ++ wr16 4 ++
        List.ofFn stubAddr := by
  simp [recordBytes, ownerBytes, stubAnswer, DnsAnswer.type, AnswerData.type, rdataBytes]

/-- The only flag that both backends copy from an ordinary query is RD. -/
theorem stubFlags_eq (recursionDesired : Bool) :
    stubFlags (if recursionDesired then dnsFlagRd else 0) =
      responseFlags recursionDesired false dnsRcodeNoerror := by
  cases recursionDesired <;> decide

/-- **The stub replies as the real backend would.** To a query without pointers, EDNS and flags
other than RD, the stub sends what `dns_build_response` builds of its one answer, over either
transport. -/
theorem stubResolveQuery_eq_built (stubAddr : Fin 4 → UInt8) {query : Bytes} {q : DnsQueryInfo}
    {cap : Nat} (isUdp : Bool) (accepted : dnsParseQuery query query.length = some q)
    (plain : namePointer query query.length query.length dnsHdrLen = false)
    (noEdns : q.hasEdns = false)
    (ordinary : q.hdr.flags = if q.recursionDesired then dnsFlagRd else 0)
    (room : 512 ≤ cap) (size : cap < 2 ^ 64) :
    stubResolveQuery stubAddr query cap =
      (dnsBuildResponse query query.length q [stubAnswer stubAddr q.q.name] dnsRcodeNoerror isUdp
        cap).map BuiltResponse.bytes := by
  obtain ⟨rawOff, inside, short⟩ := dnsParseQuery_rawLen_le accepted
  obtain ⟨id, flags, qdcount, single, whole⟩ := dnsParseQuery_header accepted
  obtain ⟨built, builds, bytes, _⟩ := dnsBuildResponse_parts [stubAnswer stubAddr q.q.name]
    dnsRcodeNoerror isUdp inside (short.trans (by decide)) room size
  obtain ⟨least, most⟩ := effectiveCap_bounds q isUdp room
  have ending := questionEnd_of_accepted accepted plain
  have recordSize : (recordBytes q.q.name (stubAnswer stubAddr q.q.name)).length = 16 := by
    rw [recordBytes_stubAnswer]
    simp
  have all : replyAnswers q [stubAnswer stubAddr q.q.name] dnsRcodeNoerror isUdp cap =
      ([stubAnswer stubAddr q.q.name], false) := by
    have limit : answerLimit q isUdp cap = effectiveCap q isUdp cap := by
      rw [answerLimit, noEdns]
      rfl
    rw [replyAnswers, if_pos rfl, limit]
    apply sentAnswers_all
    · rintro answer member
      rw [List.mem_singleton.mp member]
      exact ⟨Or.inl (dnsNameEqual_self _), trivial⟩
    · omega
    · rw [List.flatMap_singleton, recordSize]
      omega
  rw [stubResolveQuery, if_neg (Nat.not_lt.mpr whole), builds, Option.map_some, bytes, all]
  simp only [ending]
  rw [if_neg (by rw [rawOff, dnsHdrLen]; omega), if_neg (by omega), rawOff, Nat.add_sub_cancel_left,
    List.flatMap_singleton, recordBytes_stubAnswer, ← flags, ordinary, stubFlags_eq,
    ← wr16_rd16 (by rw [dnsHdrLen] at whole; omega), ← id,
    ← wr16_rd16 (by rw [dnsHdrLen] at whole; omega), ← qdcount, single]
  simp [headerBytes, replyHeader, responseOpt, noEdns]

end FizzDns
