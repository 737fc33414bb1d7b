import FizzDns.Msg.Checked
import FizzDns.Resolver.Closure

/-!
# `dissect` with checked accesses

`dissect` in the order of the source: each loop parses a record and uses it before it goes on to
the next one, and the answer section is parsed again in every pass. It is equal to the model that
parses a section first (`dissectChecked_eq`), so the passes, the referral and the glue stay inside
the message and inside the arrays for the answers, the chain and the servers.
-/

namespace FizzDns

section

variable (msg : Bytes) (len : Nat) (qname zone : DnsName) (ansCap : Nat)

/-- Store an answer if there is room. -/
def storeChecked (answers : List DnsAnswer) (answer : Checked DnsAnswer) :
    Checked (List DnsAnswer) :=
  if answers.length < ansCap then do push ansCap answers (← answer) else pure answers

/-- Add a target to the chain if it is new and there is room. -/
def extendChainChecked (chain : List DnsName) (target : DnsName) : Checked (List DnsName) :=
  if onChain chain target = false ∧ chain.length ≤ maxCnameHops then
    push (maxCnameHops + 1) chain target
  else pure chain

/-- One turn of the answer loop, behind `dns_parse_rr`. -/
def acceptRecordChecked (pass : AnswerPass) (rr : DnsRr) : Checked AnswerPass :=
  if inScope zone rr = false then pure pass
  else if onChain pass.chain rr.name = false then pure pass
  else if rr.type = dnsTypeA ∧ rr.rdlength = 4 then do
    let answers ← storeChecked ansCap pass.answers
      (do pure ⟨rr.name, rr.ttl, .a (← readBlock msg len rr.rdata 4)⟩)
    pure { pass with answers := answers }
  else if rr.type = dnsTypeAaaa ∧ rr.rdlength = 16 then do
    let answers ← storeChecked ansCap pass.answers
      (do pure ⟨rr.name, rr.ttl, .aaaa (← readBlock msg len rr.rdata 16)⟩)
    pure { pass with answers := answers }
  else if rr.type = dnsTypeCname then do
    match ← decodeNameChecked msg len rr.rdata with
    | none => pure pass
    | some (target, _) => do
        let answers ← storeChecked ansCap pass.answers (pure ⟨rr.name, rr.ttl, .cname target⟩)
        let chain ← extendChainChecked pass.chain target
        pure ⟨chain, answers, if dnsNameEqual rr.name.chars qname.chars then target else pass.cname⟩
  else pure pass

/-- The answer loop. -/
def answerLoopChecked : (count off : Nat) → AnswerPass → Checked (Option AnswerPass)
  | 0, _, pass => pure (some pass)
  | count + 1, off, pass => do
      match ← dnsParseRrChecked msg len off with
      | none => pure none
      | some (rr, next) => do
          let pass ← acceptRecordChecked msg len qname zone ansCap pass rr
          answerLoopChecked count next pass

/-- The passes over the answer section. -/
def answerPassesChecked (count off : Nat) : (more : Nat) → List DnsName →
    Checked (Option AnswerPass)
  | 0, chain => answerLoopChecked msg len qname zone ansCap count off ⟨chain, [], DnsName.root⟩
  | more + 1, chain => do
      match ← answerLoopChecked msg len qname zone ansCap count off ⟨chain, [], DnsName.root⟩ with
      | none => pure none
      | some pass =>
          if pass.chain.length = chain.length then pure (some pass)
          else answerPassesChecked count off more pass.chain

/-- Step over the questions. -/
def skipQuestionsChecked : (count off : Nat) → Checked (Option Nat)
  | 0, off => pure (some off)
  | count + 1, off => do
      match ← dnsSkipQuestionChecked msg len off with
      | none => pure none
      | some next => skipQuestionsChecked count next

/-- Step over the answer section. -/
def skipRecordsChecked : (count off : Nat) → Checked (Option Nat)
  | 0, off => pure (some off)
  | count + 1, off => do
      match ← dnsParseRrChecked msg len off with
      | none => pure none
      | some (_, next) => skipRecordsChecked count next

/-- One turn of the authority loop, behind `dns_parse_rr`. -/
def acceptNsChecked (ref : Referral) (rr : DnsRr) : Checked Referral :=
  if rr.type ≠ dnsTypeNs ∨ ref.ns.length ≥ maxNsCandidates then pure ref
  else if dnsNameInBailiwick rr.name.chars zone.chars = false then pure ref
  else if zone.chars ≠ [] ∧ dnsNameEqual rr.name.chars zone.chars then pure ref
  else if dnsNameInBailiwick qname.chars rr.name.chars = false then pure ref
  else if ref.zone.chars ≠ [] ∧ dnsNameEqual rr.name.chars ref.zone.chars = false then pure ref
  else do
    let fixed := if ref.zone.chars ≠ [] then ref.zone else rr.name
    match ← decodeNameChecked msg len rr.rdata with
    | none => pure { ref with zone := fixed }
    | some (nsname, _) => do
        let ns ← push maxNsCandidates ref.ns ⟨rr.name, nsname, none⟩
        pure { zone := fixed, ns := ns }

/-- The authority loop. -/
def authorityLoopChecked : (count off : Nat) → Referral → Checked (Option (Referral × Nat))
  | 0, off, ref => pure (some (ref, off))
  | count + 1, off, ref => do
      match ← dnsParseRrChecked msg len off with
      | none => pure none
      | some (rr, next) => do
          let ref ← acceptNsChecked msg len qname zone ref rr
          authorityLoopChecked count next ref

/-- The search for the server that an address belongs to. -/
def attachGlueChecked (rr : DnsRr) : List NsCandidate → Checked (List NsCandidate)
  | [] => pure []
  | candidate :: rest =>
      if candidate.addr = none ∧ dnsNameEqual candidate.name.chars rr.name.chars then do
        let octets ← readBlock msg len rr.rdata 4
        pure ({ candidate with addr := some (inetNtop octets) } :: rest)
      else do
        let rest ← attachGlueChecked rr rest
        pure (candidate :: rest)

/-- One turn of the additional loop, behind `dns_parse_rr`. -/
def acceptGlueChecked (ref : Referral) (rr : DnsRr) : Checked Referral :=
  if rr.type ≠ dnsTypeA ∨ rr.rdlength ≠ 4 then pure ref
  else if dnsNameInBailiwick rr.name.chars zone.chars = false then pure ref
  else do
    let ns ← attachGlueChecked msg len rr ref.ns
    pure { ref with ns := ns }

/-- The additional loop, which stops at a record that does not parse. -/
def additionalLoopChecked : (count off : Nat) → Referral → Checked Referral
  | 0, _, ref => pure ref
  | count + 1, off, ref => do
      match ← dnsParseRrChecked msg len off with
      | none => pure ref
      | some (rr, next) => do
          let ref ← acceptGlueChecked msg len zone ref rr
          additionalLoopChecked count next ref

/-- `dissect`. -/
def dissectChecked : Checked (Option Dissection) := do
  match ← dnsParseHeaderChecked msg len with
  | none => pure none
  | some h =>
      if h.flags &&& dnsFlagTc ≠ 0 then pure none
      else do
        match ← skipQuestionsChecked msg len h.qdcount.toNat dnsHdrLen with
        | none => pure none
        | some ansStart => do
            match ← answerPassesChecked msg len qname zone ansCap h.ancount.toNat ansStart
              maxCnameHops [qname] with
            | none => pure none
            | some pass => do
                match ← skipRecordsChecked msg len h.ancount.toNat ansStart with
                | none => pure none
                | some nsStart => do
                    match ← authorityLoopChecked msg len qname zone h.nscount.toNat nsStart
                      Referral.empty with
                    | none => pure none
                    | some (ref, arStart) => do
                        let ref ← additionalLoopChecked msg len zone h.arcount.toNat arStart ref
                        pure (some
                          ⟨pass.answers, pass.cname, ref, (h.flags &&& dnsRcodeMask).toNat⟩)

end

section

variable {msg : Bytes} {len : Nat} {qname zone : DnsName} {ansCap : Nat}

/-- An answer is stored inside the array or dropped. -/
theorem storeChecked_eq (answers : List DnsAnswer) (answer : DnsAnswer) :
    storeChecked ansCap answers (pure answer) =
      .ok (if answers.length < ansCap then answers ++ [answer] else answers) := by
  unfold storeChecked
  split
  · next room => rw [Checked.pure_bind, push_eq room]
  · rfl

/-- A name is stored inside the array of the chain or dropped. -/
theorem extendChainChecked_eq (chain : List DnsName) (target : DnsName) :
    extendChainChecked chain target = .ok (extendChain chain target) := by
  unfold extendChainChecked extendChain
  split
  · next room => exact push_eq (Nat.lt_succ_of_le room.2) target
  · rfl

/-- A turn of the answer loop makes no access that is out of bounds. -/
theorem acceptRecordChecked_eq (whole : len ≤ msg.length) (pass : AnswerPass) {rr : DnsRr}
    (inside : rr.rdata + rr.rdlength.toNat ≤ len) :
    acceptRecordChecked msg len qname zone ansCap pass rr =
      .ok (acceptRecord msg len qname zone ansCap pass rr) := by
  unfold acceptRecordChecked acceptRecord readAnswer
  split
  · rfl
  split
  · rfl
  split
  · next four =>
      have block := @readBlock_eq msg len rr.rdata 4 (by rw [four.2] at inside; exact inside)
      rw [block, Checked.ok_bind, storeChecked_eq]
      rfl
  split
  · next sixteen =>
      have block := @readBlock_eq msg len rr.rdata 16 (by rw [sixteen.2] at inside; exact inside)
      rw [block, Checked.ok_bind, storeChecked_eq]
      rfl
  split
  · rw [decodeNameChecked_eq whole, Checked.ok_bind]
    cases decodeName msg len rr.rdata with
    | none => rfl
    | some decoded =>
        obtain ⟨target, next⟩ := decoded
        simp only
        rw [storeChecked_eq, Checked.ok_bind, extendChainChecked_eq,
          Checked.ok_bind]
        rfl
  · rfl

/-- The answer loop is a fold over the records that the section parses to. -/
theorem answerLoopChecked_eq (whole : len ≤ msg.length) (count off : Nat) (pass : AnswerPass) :
    answerLoopChecked msg len qname zone ansCap count off pass =
      .ok ((parseRecords msg len count off).map fun parsed =>
        parsed.1.foldl (acceptRecord msg len qname zone ansCap) pass) := by
  induction count generalizing off pass with
  | zero => rfl
  | succ count ih =>
      rw [answerLoopChecked, dnsParseRrChecked_eq whole, Checked.ok_bind, parseRecords]
      cases parsed : dnsParseRr msg len off with
      | none => rfl
      | some found =>
          obtain ⟨rr, next⟩ := found
          obtain ⟨_, inside, data⟩ := dnsParseRr_advances whole parsed
          simp only [Option.bind_eq_bind, Option.bind_some]
          rw [acceptRecordChecked_eq whole pass (data.trans_le inside), Checked.ok_bind, ih]
          cases parseRecords msg len count next <;> rfl

/-- Nor do the passes over the answer section. -/
theorem answerPassesChecked_eq (whole : len ≤ msg.length) (count off more : Nat)
    (chain : List DnsName) :
    answerPassesChecked msg len qname zone ansCap count off more chain =
      .ok ((parseRecords msg len count off).map fun parsed =>
        Saturation.saturate AnswerPass.chain (answerPass msg len qname zone ansCap parsed.1) more
          chain) := by
  induction more generalizing chain with
  | zero => exact answerLoopChecked_eq whole count off _
  | succ more ih =>
      rw [answerPassesChecked, answerLoopChecked_eq whole, Checked.ok_bind]
      cases parsed : parseRecords msg len count off with
      | none => rfl
      | some found =>
          simp only [Option.map_some]
          rw [Saturation.saturate, ih, parsed]
          change (if (answerPass msg len qname zone ansCap found.1 chain).chain.length = _ then _
            else _) = _
          split <;> rfl

/-- Nor does skipping the questions. -/
theorem skipQuestionsChecked_eq (whole : len ≤ msg.length) (count off : Nat) :
    skipQuestionsChecked msg len count off = .ok (skipQuestions msg len count off) := by
  induction count generalizing off with
  | zero => rfl
  | succ count ih =>
      rw [skipQuestionsChecked, dnsSkipQuestionChecked_eq whole, Checked.ok_bind, skipQuestions]
      cases dnsSkipQuestion msg len off with
      | none => rfl
      | some next => exact ih next

/-- Nor does skipping records. -/
theorem skipRecordsChecked_eq (whole : len ≤ msg.length) (count off : Nat) :
    skipRecordsChecked msg len count off =
      .ok ((parseRecords msg len count off).map Prod.snd) := by
  induction count generalizing off with
  | zero => rfl
  | succ count ih =>
      rw [skipRecordsChecked, dnsParseRrChecked_eq whole, Checked.ok_bind, parseRecords]
      cases dnsParseRr msg len off with
      | none => rfl
      | some found =>
          simp only [Option.bind_eq_bind, Option.bind_some]
          rw [ih]
          cases parseRecords msg len count found.2 <;> rfl

/-- Nor does a turn of the authority loop. -/
theorem acceptNsChecked_eq (whole : len ≤ msg.length) (ref : Referral) (rr : DnsRr) :
    acceptNsChecked msg len qname zone ref rr = .ok (acceptNs msg len qname zone ref rr) := by
  unfold acceptNsChecked acceptNs
  split
  · rfl
  next admitted =>
  rw [not_or, Nat.not_le] at admitted
  split
  · rfl
  split
  · rfl
  split
  · rfl
  split
  · rfl
  rw [decodeNameChecked_eq whole, Checked.ok_bind]
  cases decodeName msg len rr.rdata with
  | none => rfl
  | some decoded =>
      simp only
      rw [push_eq admitted.2]
      rfl

/-- Nor does that loop. -/
theorem authorityLoopChecked_eq (whole : len ≤ msg.length) (count off : Nat) (ref : Referral) :
    authorityLoopChecked msg len qname zone count off ref =
      .ok ((parseRecords msg len count off).map fun parsed =>
        (parsed.1.foldl (acceptNs msg len qname zone) ref, parsed.2)) := by
  induction count generalizing off ref with
  | zero => rfl
  | succ count ih =>
      rw [authorityLoopChecked, dnsParseRrChecked_eq whole, Checked.ok_bind, parseRecords]
      cases dnsParseRr msg len off with
      | none => rfl
      | some found =>
          simp only [Option.bind_eq_bind, Option.bind_some]
          rw [acceptNsChecked_eq whole, Checked.ok_bind, ih]
          cases parseRecords msg len count found.2 <;> rfl

/-- The four bytes of a glue address are inside its record. -/
theorem attachGlueChecked_eq {rr : DnsRr} (inside : rr.rdata + 4 ≤ len) (ns : List NsCandidate) :
    attachGlueChecked msg len rr ns =
      .ok (attachGlue rr.name (inetNtop fun index => byteAt msg (rr.rdata + index)) ns) := by
  induction ns with
  | nil => rfl
  | cons candidate rest ih =>
      unfold attachGlueChecked attachGlue
      split
      · rw [readBlock_eq inside]
        rfl
      · rw [ih]
        rfl

/-- A turn of the additional loop makes no access that is out of bounds. -/
theorem acceptGlueChecked_eq (ref : Referral) {rr : DnsRr}
    (inside : rr.rdata + rr.rdlength.toNat ≤ len) :
    acceptGlueChecked msg len zone ref rr = .ok (acceptGlue msg zone ref rr) := by
  unfold acceptGlueChecked acceptGlue
  split
  · rfl
  next address =>
  rw [not_or, not_not, not_not] at address
  rw [address.2] at inside
  split
  · rfl
  · rw [attachGlueChecked_eq inside]
    rfl

/-- Nor does that loop, which stops at a record that does not parse. -/
theorem additionalLoopChecked_eq (whole : len ≤ msg.length) (count off : Nat) (ref : Referral) :
    additionalLoopChecked msg len zone count off ref =
      .ok ((parseWhile msg len count off).foldl (acceptGlue msg zone) ref) := by
  induction count generalizing off ref with
  | zero => rfl
  | succ count ih =>
      rw [additionalLoopChecked, dnsParseRrChecked_eq whole, Checked.ok_bind, parseWhile]
      cases parsed : dnsParseRr msg len off with
      | none => rfl
      | some found =>
          obtain ⟨rr, next⟩ := found
          obtain ⟨_, inside, data⟩ := dnsParseRr_advances whole parsed
          simp only
          rw [acceptGlueChecked_eq ref (data.trans_le inside), Checked.ok_bind]
          exact ih next _

/-- `dissect` reads below `len`, stores inside its arrays and ends. -/
theorem dissectChecked_eq (whole : len ≤ msg.length) (qname zone : DnsName) (ansCap : Nat) :
    dissectChecked msg len qname zone ansCap = .ok (dissect msg len qname zone ansCap) := by
  rw [dissectChecked, dnsParseHeaderChecked_eq, Checked.ok_bind, dissect]
  simp only [Option.bind_eq_bind]
  cases dnsParseHeader msg len with
  | none => rfl
  | some h =>
      apply Checked.guard
      intro _
      rw [skipQuestionsChecked_eq whole, Checked.ok_bind]
      cases skipQuestions msg len h.qdcount.toNat dnsHdrLen with
      | none => rfl
      | some ansStart =>
          simp only [Option.bind_some]
          rw [answerPassesChecked_eq whole, Checked.ok_bind, skipRecordsChecked_eq whole]
          cases parseRecords msg len h.ancount.toNat ansStart with
          | none => rfl
          | some parsed =>
              simp only [Option.map_some, Option.bind_some]
              rw [Checked.ok_bind]
              simp only
              rw [authorityLoopChecked_eq whole, Checked.ok_bind]
              cases parseRecords msg len h.nscount.toNat parsed.2 with
              | none => rfl
              | some authority =>
                  simp only [Option.map_some, Option.bind_some]
                  rw [additionalLoopChecked_eq whole]
                  rfl

/-- The chain never has more than `MAX_CNAME_HOPS + 1` names. -/
theorem length_answerPasses_chain_le (records : List DnsRr) :
    (answerPasses msg len qname zone ansCap records).chain.length ≤ maxCnameHops + 1 := by
  rw [answerPasses_last, answerPass, foldl_acceptRecord_chain, finalChain_stable]
  exact @Saturation.settle_holds _ _ (fun chain => chain.length ≤ maxCnameHops + 1)
    (fun _ small => length_foldl_chainStep_le small) _ _ (by simp)

end

/-- **The parsers stay inside the message.** For every message and offset, the parsers with
checked accesses make no fault and return what their models return: they read below `len` only,
store in the places of their buffers only, and end. A decoded text leaves room for its
terminator, `dissect` hands back no more answers and servers than there are places, with no more
names on the chain, and a name, question or record that parses ends strictly behind its start
and within the message. -/
theorem parsers_stay_inside {msg : Bytes} {len : Nat} (whole : len ≤ msg.length) :
    (∀ off outCap, dnsNameDecodeChecked msg len off outCap =
        .ok (dnsNameDecode msg len off outCap) ∧
      ∀ text next, dnsNameDecode msg len off outCap = some (text, next) →
        text.length + 1 ≤ outCap ∧ off < next ∧ next ≤ len) ∧
    (∀ off, dnsSkipQuestionChecked msg len off = .ok (dnsSkipQuestion msg len off) ∧
      ∀ next, dnsSkipQuestion msg len off = some next → off < next ∧ next ≤ len) ∧
    (∀ off, dnsParseRrChecked msg len off = .ok (dnsParseRr msg len off) ∧
      ∀ rr next, dnsParseRr msg len off = some (rr, next) → off < next ∧ next ≤ len) ∧
    dnsParseQueryChecked msg len = .ok (dnsParseQuery msg len) ∧
    ∀ qname zone ansCap,
      dissectChecked msg len qname zone ansCap = .ok (dissect msg len qname zone ansCap) ∧
      (∀ records, (answerPasses msg len qname zone ansCap records).chain.length ≤
        maxCnameHops + 1) ∧
      ∀ d, dissect msg len qname zone ansCap = some d →
        d.answers.length ≤ ansCap ∧ d.ref.ns.length ≤ maxNsCandidates := by
  refine ⟨?_, ?_, ?_, dnsParseQueryChecked_eq whole, ?_⟩
  · exact fun off outCap => ⟨dnsNameDecodeChecked_eq whole off outCap,
      fun _ _ decoded => dnsNameDecode_advances whole decoded⟩
  · exact fun off => ⟨dnsSkipQuestionChecked_eq whole off,
      fun _ skipped => dnsSkipQuestion_advances whole skipped⟩
  · intro off
    refine ⟨dnsParseRrChecked_eq whole off, fun rr next parsed => ?_⟩
    obtain ⟨behind, inside, _⟩ := dnsParseRr_advances whole parsed
    exact ⟨behind, inside⟩
  · intro qname zone ansCap
    refine ⟨dissectChecked_eq whole qname zone ansCap, length_answerPasses_chain_le, ?_⟩
    intro d dissected
    refine ⟨?_, dissect_few_servers dissected⟩
    rw [(dissect_answers dissected).1, List.length_take]
    exact Nat.min_le_left _ _

/-- A reply with two CNAMEs, and what stands at its end. -/
theorem parsers_stay_inside_alias :
    dissectChecked (aliasReply false) 50 (DnsName.ofText [110]) DnsName.root 2 =
        .ok (dissect (aliasReply false) 50 (DnsName.ofText [110]) DnsName.root 2) ∧
      dnsParseRrChecked (aliasReply false) 50 48 = .ok (dnsParseRr (aliasReply false) 50 48) := by
  obtain ⟨_, _, records, _, dissects⟩ :=
    @parsers_stay_inside (aliasReply false) 50 (by decide)
  exact ⟨(dissects _ _ 2).1, (records 48).1⟩

end FizzDns
