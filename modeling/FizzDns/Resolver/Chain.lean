import FizzDns.Resolver.Dissect
import Mathlib.Logic.Relation

/-!
# What a response is believed

The passes over the answer section end with a chain of names that the last pass did not
change (`answerPasses_last`), so its answers are simply those of the records in scope whose
owner is on that chain (`answerPasses_eq`). Every name on the chain is reached from the name
asked for along CNAMEs that the last pass accepted as well.

`acceptedRecords` is what `dissect` accepts when it never runs out of room. How much room
there is only cuts the list (`dissect_room`), and `dissect_accepts` says what is known of its
members.
-/

namespace FizzDns

/-! ## Reaching a name along CNAMEs -/

/-- A CNAME among some answers leads from one name to another, in lower case. -/
def CnameLink (answers : List DnsAnswer) (source target : Bytes) : Prop :=
  ∃ answer ∈ answers, ∃ cname, answer.rdata = .cname cname ∧
    foldCase answer.owner.chars = source ∧ foldCase cname.chars = target

/-- A path of CNAMEs among some answers leads from one name to another. -/
def Reaches (answers : List DnsAnswer) (source target : Bytes) : Prop :=
  Relation.ReflTransGen (CnameLink answers) (foldCase source) (foldCase target)

/-- More answers reach no less. -/
theorem Reaches.mono {fewer more : List DnsAnswer} {source target : Bytes}
    (reaches : Reaches fewer source target) (subset : fewer ⊆ more) :
    Reaches more source target := by
  refine Relation.ReflTransGen.mono ?_ _ _ reaches
  rintro first second ⟨answer, member, link⟩
  exact ⟨answer, subset member, link⟩

/-- A name reaches itself. -/
theorem Reaches.of_equal {answers : List DnsAnswer} {source target : Bytes}
    (same : dnsNameEqual target source = true) : Reaches answers source target := by
  rw [Reaches, (dnsNameEqual_iff _ _).mp same]

/-- One more CNAME. -/
theorem Reaches.cname {answers : List DnsAnswer} {source : Bytes} {answer : DnsAnswer}
    {cname : DnsName} (reaches : Reaches answers source answer.owner.chars)
    (member : answer ∈ answers) (kind : answer.rdata = .cname cname) :
    Reaches answers source cname.chars :=
  Relation.ReflTransGen.tail reaches ⟨answer, member, cname, kind, rfl, rfl⟩

/-- A name is on the chain if it is equal to one of its links. -/
theorem onChain_iff {chain : List DnsName} {name : DnsName} :
    onChain chain name = true ↔ ∃ link ∈ chain, dnsNameEqual name.chars link.chars = true := by
  simp [onChain]

/-- A longer chain has more names on it. -/
theorem onChain_mono {chain longer : List DnsName} (subset : chain ⊆ longer) {name : DnsName}
    (on : onChain chain name = true) : onChain longer name = true := by
  rw [onChain_iff] at on ⊢
  obtain ⟨link, member, same⟩ := on
  exact ⟨link, subset member, same⟩

/-! ## One pass -/

/-- The chain only grows at its end. -/
theorem extendChain_extends (chain : List DnsName) (target : DnsName) :
    chain <+: extendChain chain target := by
  unfold extendChain
  split
  · exact List.prefix_append _ _
  · exact List.prefix_rfl

/-- The chain has at most `MAX_CNAME_HOPS + 1` names. -/
theorem length_extendChain_le {chain : List DnsName} (target : DnsName)
    (small : chain.length ≤ maxCnameHops + 1) :
    (extendChain chain target).length ≤ maxCnameHops + 1 := by
  unfold extendChain
  split
  · next room =>
      rw [List.length_append, List.length_singleton]
      omega
  · exact small

/-- The chain after an answer was stored. -/
def chainAfter (chain : List DnsName) (answer : DnsAnswer) : List DnsName :=
  match answer.rdata with
  | .cname target => extendChain chain target
  | _ => chain

/-- The CNAME to chase after an answer was stored. -/
def cnameAfter (qname cname : DnsName) (answer : DnsAnswer) : DnsName :=
  match answer.rdata with
  | .cname target => if dnsNameEqual answer.owner.chars qname.chars then target else cname
  | _ => cname

section

variable (qname : DnsName) (ansCap : Nat) (pass : AnswerPass) (answer : DnsAnswer)

@[simp] theorem storeAnswer_chain :
    (storeAnswer qname ansCap pass answer).chain = chainAfter pass.chain answer := by
  unfold storeAnswer chainAfter
  cases answer.rdata <;> rfl

@[simp] theorem storeAnswer_answers :
    (storeAnswer qname ansCap pass answer).answers =
      if pass.answers.length < ansCap then pass.answers ++ [answer] else pass.answers := by
  unfold storeAnswer
  cases answer.rdata <;> rfl

@[simp] theorem storeAnswer_cname :
    (storeAnswer qname ansCap pass answer).cname = cnameAfter qname pass.cname answer := by
  unfold storeAnswer cnameAfter
  cases answer.rdata <;> rfl

end

/-- The chain only grows at its end. -/
theorem chainAfter_extends (chain : List DnsName) (answer : DnsAnswer) :
    chain <+: chainAfter chain answer := by
  unfold chainAfter
  split
  · exact extendChain_extends chain _
  · exact List.prefix_rfl

/-- And stays within its array. -/
theorem length_chainAfter_le {chain : List DnsName} (answer : DnsAnswer)
    (small : chain.length ≤ maxCnameHops + 1) :
    (chainAfter chain answer).length ≤ maxCnameHops + 1 := by
  unfold chainAfter
  split
  · exact length_extendChain_le _ small
  · exact small

/-- The answer of a record in scope whose owner is on the chain. -/
def candidate (msg : Bytes) (len : Nat) (zone : DnsName) (chain : List DnsName) (rr : DnsRr) :
    Option DnsAnswer :=
  if inScope zone rr && onChain chain rr.name then readAnswer msg len rr else none

/-- An answer is owned by the name of its record. -/
theorem readAnswer_owner {msg : Bytes} {len : Nat} {rr : DnsRr} {answer : DnsAnswer}
    (read : readAnswer msg len rr = some answer) : answer.owner = rr.name := by
  unfold readAnswer at read
  split at read
  · cases read
    rfl
  split at read
  · cases read
    rfl
  split at read
  · obtain ⟨_, _, rfl⟩ := Option.map_eq_some_iff.mp read
    rfl
  · cases read

section

variable {msg : Bytes} {len : Nat} {qname zone : DnsName} {ansCap : Nat}
  {records : List DnsRr} {chain : List DnsName}

/-- A record is a candidate if it is in scope, on the chain and of a type that can be read. -/
theorem candidate_iff {rr : DnsRr} {answer : DnsAnswer} :
    candidate msg len zone chain rr = some answer ↔
      inScope zone rr = true ∧ onChain chain rr.name = true ∧
        readAnswer msg len rr = some answer := by
  unfold candidate
  cases inScope zone rr <;> cases onChain chain rr.name <;> simp

/-- A turn of the loop stores the candidate, if there is one. -/
theorem acceptRecord_eq (pass : AnswerPass) (rr : DnsRr) :
    acceptRecord msg len qname zone ansCap pass rr =
      match candidate msg len zone pass.chain rr with
      | none => pass
      | some answer => storeAnswer qname ansCap pass answer := by
  unfold acceptRecord candidate
  cases inScope zone rr <;> cases onChain pass.chain rr.name <;> rfl

/-- What one turn does to the chain. -/
def chainStep (msg : Bytes) (len : Nat) (zone : DnsName) (chain : List DnsName) (rr : DnsRr) :
    List DnsName :=
  match candidate msg len zone chain rr with
  | none => chain
  | some answer => chainAfter chain answer

/-- What a turn does to the chain does not depend on the room for answers. -/
theorem acceptRecord_chain (pass : AnswerPass) (rr : DnsRr) :
    (acceptRecord msg len qname zone ansCap pass rr).chain =
      chainStep msg len zone pass.chain rr := by
  rw [acceptRecord_eq, chainStep]
  cases candidate msg len zone pass.chain rr <;> simp

/-- What a pass does to the chain does not depend on the room for answers. -/
theorem foldl_acceptRecord_chain (pass : AnswerPass) :
    (records.foldl (acceptRecord msg len qname zone ansCap) pass).chain =
      records.foldl (chainStep msg len zone) pass.chain := by
  induction records generalizing pass with
  | nil => rfl
  | cons rr rest ih => rw [List.foldl_cons, ih, acceptRecord_chain, List.foldl_cons]

/-- A fact about the chain that storing a candidate preserves holds after any turns. -/
theorem foldl_chainStep {holds : List DnsName → Prop}
    (step : ∀ chain, holds chain → ∀ rr ∈ records, ∀ answer,
      candidate msg len zone chain rr = some answer → holds (chainAfter chain answer))
    (first : holds chain) : holds (records.foldl (chainStep msg len zone) chain) := by
  induction records generalizing chain with
  | nil => exact first
  | cons rr rest ih =>
      refine ih (fun chain now other member =>
        step chain now other (List.mem_cons_of_mem _ member)) ?_
      rw [chainStep]
      cases chosen : candidate msg len zone chain rr with
      | none => exact first
      | some answer => exact step _ first rr List.mem_cons_self answer chosen

/-- A pass only extends the chain. -/
theorem foldl_chainStep_extends (records : List DnsRr) (chain : List DnsName) :
    chain <+: records.foldl (chainStep msg len zone) chain :=
  foldl_chainStep (fun longer (before : chain <+: longer) _ _ answer _ =>
    before.trans (chainAfter_extends longer answer)) List.prefix_rfl

/-- A pass stays within the array. -/
theorem length_foldl_chainStep_le (small : chain.length ≤ maxCnameHops + 1) :
    (records.foldl (chainStep msg len zone) chain).length ≤ maxCnameHops + 1 :=
  @foldl_chainStep msg len zone records chain (fun chain => chain.length ≤ maxCnameHops + 1)
    (fun _ now _ _ answer _ => length_chainAfter_le answer now) small

/-- The answers of all records in scope on a chain. -/
def candidates (msg : Bytes) (len : Nat) (zone : DnsName) (records : List DnsRr)
    (chain : List DnsName) : List DnsAnswer :=
  records.filterMap (candidate msg len zone chain)

/-- A pass that leaves the chain as it was stores the candidates, as far as there is room. -/
theorem foldl_stable (pass : AnswerPass) (room : pass.answers.length ≤ ansCap)
    (stable : records.foldl (chainStep msg len zone) pass.chain = pass.chain) :
    (records.foldl (acceptRecord msg len qname zone ansCap) pass).answers =
        (pass.answers ++ candidates msg len zone records pass.chain).take ansCap ∧
      (records.foldl (acceptRecord msg len qname zone ansCap) pass).cname =
        (candidates msg len zone records pass.chain).foldl (cnameAfter qname) pass.cname := by
  induction records generalizing pass with
  | nil => simpa [candidates] using room
  | cons rr rest ih =>
      rw [List.foldl_cons, chainStep] at stable
      rw [List.foldl_cons, acceptRecord_eq]
      cases chosen : candidate msg len zone pass.chain rr with
      | none =>
          rw [chosen] at stable
          rw [candidates, List.filterMap_cons_none chosen]
          exact ih pass room stable
      | some answer =>
          rw [chosen] at stable
          simp only at stable ⊢
          -- the chain can only grow, so it did not grow here either
          have unchanged : chainAfter pass.chain answer = pass.chain := by
            have later := @foldl_chainStep_extends msg len zone rest (chainAfter pass.chain answer)
            rw [stable] at later
            exact ((chainAfter_extends pass.chain answer).eq_of_length_le later.length_le).symm
          have roomy : (storeAnswer qname ansCap pass answer).answers.length ≤ ansCap := by
            rw [storeAnswer_answers]
            split
            · simpa using ‹_›
            · exact room
          obtain ⟨answers, cname⟩ := ih (storeAnswer qname ansCap pass answer) roomy
            (by rw [storeAnswer_chain, stable, unchanged])
          have listed : candidates msg len zone (rr :: rest) pass.chain =
              answer :: candidates msg len zone rest pass.chain :=
            List.filterMap_cons_some chosen
          rw [answers, cname, storeAnswer_chain, unchanged, listed, storeAnswer_answers,
            storeAnswer_cname]
          refine ⟨?_, rfl⟩
          split
          · simp
          · next full =>
              rw [List.take_append_of_le_length (by omega),
                List.take_append_of_le_length (by omega)]

/-! ## All passes -/

/-- A longer chain has more candidates. -/
theorem candidates_mono {longer : List DnsName} (subset : chain ⊆ longer) :
    candidates msg len zone records chain ⊆ candidates msg len zone records longer := by
  intro answer member
  obtain ⟨rr, inside, chosen⟩ := List.mem_filterMap.mp member
  obtain ⟨scope, on, read⟩ := candidate_iff.mp chosen
  exact List.mem_filterMap.mpr
    ⟨rr, inside, candidate_iff.mpr ⟨scope, onChain_mono subset on, read⟩⟩

/-- Every name on the chain is reached from the name asked for. -/
def Supported (msg : Bytes) (len : Nat) (qname zone : DnsName) (records : List DnsRr)
    (chain : List DnsName) : Prop :=
  ∀ link ∈ chain, Reaches (candidates msg len zone records chain) qname.chars link.chars

/-- The owner of a candidate is reached from the name asked for. -/
theorem Supported.owner (supported : Supported msg len qname zone records chain) {rr : DnsRr}
    {answer : DnsAnswer} (chosen : candidate msg len zone chain rr = some answer) :
    Reaches (candidates msg len zone records chain) qname.chars answer.owner.chars := by
  obtain ⟨_, on, read⟩ := candidate_iff.mp chosen
  obtain ⟨link, member, same⟩ := onChain_iff.mp on
  have reached := supported link member
  rwa [Reaches, ← (dnsNameEqual_iff _ _).mp same, ← readAnswer_owner read] at reached

/-- Accepting a candidate keeps every name of the chain reached. -/
theorem Supported.step (supported : Supported msg len qname zone records chain) {rr : DnsRr}
    (inside : rr ∈ records) {answer : DnsAnswer}
    (chosen : candidate msg len zone chain rr = some answer) :
    Supported msg len qname zone records (chainAfter chain answer) := by
  have grows :=
    @candidates_mono msg len zone records chain _ (chainAfter_extends chain answer).subset
  have owner := (supported.owner chosen).mono grows
  have accepted := grows (List.mem_filterMap.mpr ⟨rr, inside, chosen⟩)
  have old : ∀ link ∈ chain, Reaches (candidates msg len zone records (chainAfter chain answer))
      qname.chars link.chars := fun link member => (supported link member).mono grows
  intro link member
  unfold chainAfter at member
  split at member
  · next target kind =>
      unfold extendChain at member
      split at member
      · rcases List.mem_append.mp member with before | last
        · exact old link before
        · cases List.mem_singleton.mp last
          exact owner.cname accepted kind
      · exact old link member
  · exact old link member

end

/-- The chain that the last pass starts with. -/
def finalChain (msg : Bytes) (len : Nat) (qname zone : DnsName) (records : List DnsRr) :
    List DnsName :=
  Saturation.settle (fun chain => records.foldl (chainStep msg len zone) chain) maxCnameHops [qname]

section

variable (msg : Bytes) (len : Nat) (qname zone : DnsName) (records : List DnsRr)

/-- A further pass does not extend the final chain. -/
theorem finalChain_stable :
    records.foldl (chainStep msg len zone) (finalChain msg len qname zone records) =
      finalChain msg len qname zone records :=
  Saturation.settle_stable (fun chain => foldl_chainStep_extends records chain)
    (fun _ small => length_foldl_chainStep_le small) (by simp) (by simp [Nat.add_comm])

/-- Every name of the final chain is reached from the name asked for. -/
theorem finalChain_supported :
    Supported msg len qname zone records (finalChain msg len qname zone records) := by
  refine Saturation.settle_holds (fun chain supported => ?_) _ ?_
  · exact foldl_chainStep (fun _ now _ inside _ chosen => now.step inside chosen) supported
  · intro link member
    cases List.mem_singleton.mp member
    exact Reaches.of_equal (dnsNameEqual_self _)

/-- The passes end with one from the final chain. -/
theorem answerPasses_last (ansCap : Nat) :
    answerPasses msg len qname zone ansCap records =
      answerPass msg len qname zone ansCap records (finalChain msg len qname zone records) :=
  Saturation.saturate_eq (fun chain => foldl_acceptRecord_chain ⟨chain, [], DnsName.root⟩) _ _

/-- The passes leave the answers of the records in scope on the final chain, and of the
CNAMEs of the name asked for the last one. -/
theorem answerPasses_eq (ansCap : Nat) :
    (answerPasses msg len qname zone ansCap records).answers =
        (candidates msg len zone records (finalChain msg len qname zone records)).take ansCap ∧
      (answerPasses msg len qname zone ansCap records).cname =
        (candidates msg len zone records (finalChain msg len qname zone records)).foldl
          (cnameAfter qname) DnsName.root := by
  rw [answerPasses_last]
  exact foldl_stable ⟨_, [], DnsName.root⟩ (Nat.zero_le _)
    (finalChain_stable msg len qname zone records)

end

/-! ## The whole response -/

/-- As many records are parsed as the header says. -/
theorem length_parseRecords {msg : Bytes} {len count off : Nat} {records : List DnsRr} {next : Nat}
    (parsed : parseRecords msg len count off = some (records, next)) : records.length = count := by
  induction count generalizing off records with
  | zero =>
      cases parsed
      rfl
  | succ count ih =>
      simp only [parseRecords, Option.bind_eq_bind, Option.bind_eq_some_iff] at parsed
      obtain ⟨_, _, _, rest, same⟩ := parsed
      cases same
      rw [List.length_cons, ih rest]

/-- The answer section of a message that can be dissected. -/
def answerSection (msg : Bytes) (len : Nat) : List DnsRr :=
  ((do
    let h ← dnsParseHeader msg len
    let ansStart ← skipQuestions msg len h.qdcount.toNat dnsHdrLen
    parseRecords msg len h.ancount.toNat ansStart).map Prod.fst).getD []

/-- What `dissect` accepts, whether or not there is room to store it: the header cannot
announce more records than this. -/
def acceptedRecords (msg : Bytes) (qname zone : DnsName) : List DnsAnswer :=
  ((dissect msg msg.length qname zone 65535).map Dissection.answers).getD []

section

variable {msg : Bytes} {len : Nat} {qname zone : DnsName} {ansCap : Nat} {d : Dissection}

/-- What a dissection holds of the answer section. -/
theorem dissect_answers (dissected : dissect msg len qname zone ansCap = some d) :
    d.answers = (candidates msg len zone (answerSection msg len)
        (finalChain msg len qname zone (answerSection msg len))).take ansCap ∧
      d.cname = (candidates msg len zone (answerSection msg len)
        (finalChain msg len qname zone (answerSection msg len))).foldl (cnameAfter qname)
          DnsName.root ∧
      (answerSection msg len).length ≤ 65535 := by
  obtain ⟨h, start, records, next, _, _, header, _, skipped, parsed, _, rfl⟩ :=
    dissect_eq_some_iff.mp dissected
  have section_ : answerSection msg len = records := by
    simp [answerSection, header, skipped, parsed]
  rw [section_]
  obtain ⟨answers, cname⟩ := answerPasses_eq msg len qname zone records ansCap
  refine ⟨answers, cname, ?_⟩
  rw [length_parseRecords parsed]
  exact Nat.le_of_lt_succ h.ancount.toNat_lt

/-- Room does not decide whether a message can be dissected, nor the referral and the rcode. -/
theorem dissect_room (dissected : dissect msg len qname zone ansCap = some d) (room : Nat) :
    ∃ other, dissect msg len qname zone room = some other ∧ other.ref = d.ref ∧
      other.rcode = d.rcode := by
  obtain ⟨h, start, records, next, authority, arStart, header, whole, skipped, parsed, later,
    rfl⟩ := dissect_eq_some_iff.mp dissected
  exact ⟨_, dissect_eq_some_iff.mpr ⟨h, start, records, next, authority, arStart, header, whole,
    skipped, parsed, later, rfl⟩, rfl, rfl⟩

/-- What is accepted is what is in scope on the final chain. -/
theorem acceptedRecords_eq (dissected : dissect msg msg.length qname zone ansCap = some d) :
    acceptedRecords msg qname zone = candidates msg msg.length zone (answerSection msg msg.length)
      (finalChain msg msg.length qname zone (answerSection msg msg.length)) := by
  obtain ⟨all, roomy, _⟩ := dissect_room dissected 65535
  obtain ⟨answers, _, few⟩ := dissect_answers roomy
  rw [acceptedRecords, roomy, Option.map_some, Option.getD_some, answers]
  exact List.take_of_length_le ((List.length_filterMap_le _ _).trans few)

/-- **What a dissection is worth.** The stored answers are the accepted ones, as far as there
is room; each of them is about a name that the zone covers and that accepted CNAMEs lead to. -/
theorem dissect_accepts (dissected : dissect msg msg.length qname zone ansCap = some d) :
    d.answers = (acceptedRecords msg qname zone).take ansCap ∧
      d.cname = (acceptedRecords msg qname zone).foldl (cnameAfter qname) DnsName.root ∧
      ∀ answer ∈ acceptedRecords msg qname zone,
        dnsNameInBailiwick answer.owner.chars zone.chars = true ∧
          Reaches (acceptedRecords msg qname zone) qname.chars answer.owner.chars := by
  obtain ⟨answers, cname, _⟩ := dissect_answers dissected
  rw [acceptedRecords_eq dissected]
  refine ⟨answers, cname, fun answer member => ?_⟩
  obtain ⟨rr, _, chosen⟩ := List.mem_filterMap.mp member
  obtain ⟨scope, _, read⟩ := candidate_iff.mp chosen
  refine ⟨?_, (finalChain_supported _ _ _ _ _).owner chosen⟩
  rw [readAnswer_owner read]
  exact (Bool.and_eq_true_iff.mp scope).2

end

/-! ## The CNAME to chase -/

/-- Some answer is a CNAME of the name. -/
def HoldsCname (name : DnsName) (answers : List DnsAnswer) : Prop :=
  ∃ answer ∈ answers, dnsNameEqual answer.owner.chars name.chars = true ∧
    ∃ target, answer.rdata = .cname target

section

variable {qname cname : DnsName} {answers : List DnsAnswer}

/-- A CNAME of the name is the first answer or a later one. -/
theorem holdsCname_cons {answer : DnsAnswer} :
    HoldsCname qname (answer :: answers) ↔
      (dnsNameEqual answer.owner.chars qname.chars = true ∧
        ∃ target, answer.rdata = .cname target) ∨ HoldsCname qname answers := by
  simp only [HoldsCname, List.exists_mem_cons_iff]

/-- Without a CNAME of the name there is nothing to chase. -/
theorem foldl_cnameAfter_of_none (absent : ¬ HoldsCname qname answers) :
    answers.foldl (cnameAfter qname) cname = cname := by
  induction answers generalizing cname with
  | nil => rfl
  | cons answer rest ih =>
      rw [holdsCname_cons, not_or] at absent
      rw [List.foldl_cons, ih absent.2]
      unfold cnameAfter
      split
      · next target kind => exact if_neg fun owned => absent.1 ⟨owned, target, kind⟩
      · rfl

/-- The CNAME to chase is the target of one of the name's CNAMEs, if there is any. -/
theorem foldl_cnameAfter (holds : HoldsCname qname answers) :
    ∃ answer ∈ answers, dnsNameEqual answer.owner.chars qname.chars = true ∧
      answer.rdata = .cname (answers.foldl (cnameAfter qname) cname) := by
  induction answers generalizing cname with
  | nil =>
      obtain ⟨_, member, _⟩ := holds
      cases member
  | cons answer rest ih =>
      rw [List.foldl_cons]
      by_cases later : HoldsCname qname rest
      · obtain ⟨last, member, found⟩ := @ih (cnameAfter qname cname answer) later
        exact ⟨last, List.mem_cons_of_mem _ member, found⟩
      · obtain ⟨owned, target, kind⟩ := (holdsCname_cons.mp holds).resolve_right later
        refine ⟨answer, List.mem_cons_self, owned, ?_⟩
        rw [foldl_cnameAfter_of_none later, cnameAfter, kind]
        simp only [owned, ↓reduceIte]

end

end FizzDns
