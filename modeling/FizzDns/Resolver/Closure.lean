import FizzDns.Resolver.Chain

/-!
# The CNAME closure of an answer section

What the passes over the answer section compute, without passes: the least set of names that
holds the name asked for and is closed under the CNAMEs the server may speak for
(`CnameClosure`). As long as the closure fits in the chain, the final chain consists of just its
names, so `dissect` stores the records with an owner in it, in the order of the section
(`dissect_closure`).

The closure and the records with an owner in it are read off a list of `SaidRecord`s, where the
order shows only in the order of the result. So a message with the same records in another
order gives the same answers in another order, and records that are out of scope or off the
chain can come and go.
-/

namespace FizzDns

/-- A record of the answer section as `dissect` reads it: the owner, the class and what it can
be stored as. -/
structure SaidRecord where
  owner : DnsName
  rclass : UInt16
  answer : Option DnsAnswer
  deriving DecidableEq

/-- The answer section of a message that can be dissected, as it is read. -/
def saidRecords (msg : Bytes) (len : Nat) : List SaidRecord :=
  (answerSection msg len).map fun rr => ⟨rr.name, rr.rclass, readAnswer msg len rr⟩

/-- The record is of class IN, and the zone covers its owner. -/
def SaidRecord.InScope (zone : DnsName) (record : SaidRecord) : Prop :=
  record.rclass = dnsClassIn ∧ dnsNameInBailiwick record.owner.chars zone.chars = true

/-- The least set of names, in lower case, that holds the name asked for and the target of every
CNAME in scope with an owner in the set. -/
inductive CnameClosure (said : List SaidRecord) (qname zone : DnsName) : Bytes → Prop
  | asked : CnameClosure said qname zone (foldCase qname.chars)
  | target {record : SaidRecord} {answer : DnsAnswer} {cname : DnsName} (listed : record ∈ said)
      (scope : record.InScope zone)
      (owned : CnameClosure said qname zone (foldCase record.owner.chars))
      (read : record.answer = some answer) (kind : answer.rdata = .cname cname) :
      CnameClosure said qname zone (foldCase cname.chars)

/-- The record is in scope and its owner is in a set of names. -/
def SaidRecord.Relevant (zone : DnsName) (names : Bytes → Prop) (record : SaidRecord) : Prop :=
  record.InScope zone ∧ names (foldCase record.owner.chars)

open Classical in
/-- The answers of the relevant records, in the order of the section. -/
noncomputable def relevantAnswers (said : List SaidRecord) (zone : DnsName)
    (names : Bytes → Prop) : List DnsAnswer :=
  (said.filter (·.Relevant zone names)).filterMap SaidRecord.answer

/-! ## The final chain is the closure -/

section

variable {msg : Bytes} {len : Nat} {qname zone : DnsName} {records : List DnsRr}
  {chain : List DnsName}

/-- The names of a chain, in lower case. -/
def chainNames (chain : List DnsName) : List Bytes :=
  chain.map fun link => foldCase link.chars

/-- A name is on the chain if its lower case is. -/
theorem onChain_iff_mem {name : DnsName} :
    onChain chain name = true ↔ foldCase name.chars ∈ chainNames chain := by
  simp only [onChain_iff, chainNames, List.mem_map, dnsNameEqual_iff,
    @eq_comm _ (foldCase name.chars)]

/-- What holds for the name asked for, and for a chain with the target of one of its CNAMEs if it
holds for the chain, holds for the final chain. -/
theorem finalChain_induction {motive : List DnsName → Prop} (asked : motive [qname])
    (target : ∀ chain, motive chain → ∀ rr ∈ records, ∀ answer,
      candidate msg len zone chain rr = some answer → ∀ cname, answer.rdata = .cname cname →
        onChain chain cname = false → motive (chain ++ [cname])) :
    motive (finalChain msg len qname zone records) := by
  refine Saturation.settle_holds (fun chain before => ?_) _ asked
  refine foldl_chainStep (fun chain before rr listed answer chosen => ?_) before
  unfold chainAfter
  split
  · next cname kind =>
      unfold extendChain
      split
      · next room => exact target chain before rr listed answer chosen cname kind room.1
      · exact before
  · exact before

/-- No name is twice on the final chain. -/
theorem finalChain_nodup : (chainNames (finalChain msg len qname zone records)).Nodup := by
  apply finalChain_induction (motive := fun chain => (chainNames chain).Nodup)
  · exact List.nodup_singleton _
  · intro chain nodup _ _ _ _ cname _ fresh
    have absent : foldCase cname.chars ∉ chainNames chain := by
      rw [← onChain_iff_mem, fresh]
      exact Bool.false_ne_true
    rw [chainNames, List.map_append, List.map_singleton, ← List.concat_eq_append]
    exact nodup.concat absent

/-- The name asked for is on the final chain. -/
theorem mem_finalChain_asked :
    foldCase qname.chars ∈ chainNames (finalChain msg len qname zone records) := by
  apply finalChain_induction (motive := fun chain => foldCase qname.chars ∈ chainNames chain)
  · exact List.mem_singleton_self _
  · intro chain before _ _ _ _ cname _ _
    rw [chainNames, List.map_append]
    exact List.mem_append_left _ before

/-- A chain that a pass leaves as it is has the targets of all its CNAMEs, or no room. -/
theorem foldl_chainStep_closed (stable : records.foldl (chainStep msg len zone) chain = chain)
    {rr : DnsRr} (listed : rr ∈ records) {answer : DnsAnswer}
    (chosen : candidate msg len zone chain rr = some answer) {cname : DnsName}
    (kind : answer.rdata = .cname cname) :
    onChain chain cname = true ∨ maxCnameHops < chain.length := by
  induction records with
  | nil => cases listed
  | cons first rest ih =>
      rw [List.foldl_cons] at stable
      -- the chain can only grow, so no turn changed it
      have unchanged : chainStep msg len zone chain first = chain := by
        have later :=
          @foldl_chainStep_extends msg len zone rest (chainStep msg len zone chain first)
        rw [stable] at later
        have before := @foldl_chainStep_extends msg len zone [first] chain
        exact (before.eq_of_length_le later.length_le).symm
      rcases List.mem_cons.mp listed with rfl | later
      · rw [chainStep, chosen] at unchanged
        simp only [chainAfter, kind, extendChain] at unchanged
        split at unchanged
        · simp at unchanged
        · next full =>
            rw [not_and_or, Bool.not_eq_false, Nat.not_le] at full
            exact full
      · rw [unchanged] at stable
        exact ih stable later

end

section

variable {msg : Bytes} {len : Nat} {qname zone : DnsName}

/-- The names that the answer section of a message leads to. -/
def closureNames (msg : Bytes) (len : Nat) (qname zone : DnsName) : Set Bytes :=
  {name | CnameClosure (saidRecords msg len) qname zone name}

/-- The scope of a record is that of what it says. -/
theorem inScope_iff {rr : DnsRr} {answer : Option DnsAnswer} :
    inScope zone rr = true ↔ (SaidRecord.mk rr.name rr.rclass answer).InScope zone := by
  simp [inScope, SaidRecord.InScope]

/-- A candidate is a record in scope. -/
theorem candidate_said {chain : List DnsName} {rr : DnsRr} (listed : rr ∈ answerSection msg len)
    {answer : DnsAnswer} (chosen : candidate msg len zone chain rr = some answer) :
    ∃ record ∈ saidRecords msg len, record.InScope zone ∧ record.owner = rr.name ∧
      record.answer = some answer := by
  obtain ⟨scope, _, read⟩ := candidate_iff.mp chosen
  exact ⟨_, List.mem_map_of_mem listed, inScope_iff.mp scope, rfl, read⟩

/-- The final chain stays inside the closure. -/
theorem finalChain_within :
    ∀ name ∈ chainNames (finalChain msg len qname zone (answerSection msg len)),
      name ∈ closureNames msg len qname zone := by
  apply finalChain_induction (motive := fun chain =>
    ∀ name ∈ chainNames chain, name ∈ closureNames msg len qname zone)
  · intro name member
    cases List.mem_singleton.mp member
    exact .asked
  · intro chain before rr listed answer chosen cname kind _ name member
    rw [chainNames, List.map_append] at member
    rcases List.mem_append.mp member with old | new
    · exact before name old
    · cases List.mem_singleton.mp new
      obtain ⟨record, said, scope, owner, read⟩ := candidate_said listed chosen
      have owned := before _ (onChain_iff_mem.mp (candidate_iff.mp chosen).2.1)
      rw [← owner] at owned
      exact .target said scope owned read kind

/-- If the closure fits in the chain, all of it is on the final chain. -/
theorem mem_finalChain_iff (few : (closureNames msg len qname zone).encard ≤ maxCnameHops + 1)
    {name : Bytes} :
    name ∈ chainNames (finalChain msg len qname zone (answerSection msg len)) ↔
      name ∈ closureNames msg len qname zone := by
  refine ⟨finalChain_within name, fun member => ?_⟩
  induction member with
  | asked => exact mem_finalChain_asked
  | @target record answer cname said scope owned read kind ih =>
      obtain ⟨rr, listed, rfl⟩ := List.mem_map.mp said
      have chosen : candidate msg len zone
          (finalChain msg len qname zone (answerSection msg len)) rr = some answer :=
        candidate_iff.mpr ⟨inScope_iff.mpr scope, onChain_iff_mem.mpr ih, read⟩
      rcases foldl_chainStep_closed (finalChain_stable ..) listed chosen kind with known | full
      · exact onChain_iff_mem.mp known
      · apply Saturation.mem_of_encard_le_length finalChain_nodup finalChain_within (few.trans _)
          (.target said scope owned read kind)
        rw [chainNames, List.length_map]
        exact_mod_cast full

/-- The candidates of the final chain are the answers of the relevant records. -/
theorem candidates_finalChain
    (few : (closureNames msg len qname zone).encard ≤ maxCnameHops + 1) :
    candidates msg len zone (answerSection msg len)
        (finalChain msg len qname zone (answerSection msg len)) =
      relevantAnswers (saidRecords msg len) zone (· ∈ closureNames msg len qname zone) := by
  classical
  rw [relevantAnswers, saidRecords, List.filter_map, List.filterMap_map, List.filterMap_filter,
    candidates]
  congr 1
  funext rr
  simp only [candidate, Bool.and_eq_true, @inScope_iff zone rr (readAnswer msg len rr),
    onChain_iff_mem, mem_finalChain_iff few, Function.comp_apply]
  by_cases relevant : SaidRecord.Relevant zone (· ∈ closureNames msg len qname zone)
    ⟨rr.name, rr.rclass, readAnswer msg len rr⟩
  · exact (if_pos relevant).trans (if_pos (decide_eq_true relevant)).symm
  · exact (if_neg relevant).trans (if_neg (mt of_decide_eq_true relevant)).symm

/-- One more pass would change nothing. -/
theorem answerPass_answerPasses (ansCap : Nat) (records : List DnsRr) :
    answerPass msg len qname zone ansCap records
        (answerPasses msg len qname zone ansCap records).chain =
      answerPasses msg len qname zone ansCap records := by
  have settled : (answerPasses msg len qname zone ansCap records).chain =
      finalChain msg len qname zone records := by
    rw [answerPasses_last, answerPass, foldl_acceptRecord_chain]
    exact finalChain_stable ..
  rw [settled, answerPasses_last]

end

/-- The target of a CNAME, in lower case. -/
def SaidRecord.target (record : SaidRecord) : Option Bytes :=
  record.answer.bind fun answer =>
    match answer.rdata with
    | .cname cname => some (foldCase cname.chars)
    | _ => none

/-- The closure has at most one name more than the section has records. -/
theorem encard_closureNames_le (msg : Bytes) (len : Nat) (qname zone : DnsName) :
    (closureNames msg len qname zone).encard ≤ (saidRecords msg len).length + 1 := by
  let names := foldCase qname.chars :: (saidRecords msg len).filterMap SaidRecord.target
  have within : closureNames msg len qname zone ⊆ (names.toFinset : Set Bytes) := by
    intro name member
    rw [Finset.mem_coe, List.mem_toFinset]
    cases member with
    | asked => exact List.mem_cons_self
    | target listed scope owned read kind =>
        apply List.mem_cons_of_mem
        refine List.mem_filterMap.mpr ⟨_, listed, ?_⟩
        simp only [SaidRecord.target, read, Option.bind_some, kind]
  calc (closureNames msg len qname zone).encard
      ≤ (names.toFinset : Set Bytes).encard := Set.encard_le_encard within
    _ = names.toFinset.card := Set.encard_coe_eq_coe_finsetCard _
    _ ≤ names.length := by exact_mod_cast List.toFinset_card_le names
    _ ≤ (saidRecords msg len).length + 1 := by
        exact_mod_cast Nat.succ_le_succ (List.length_filterMap_le _ _)

/-! ## Other orders and other records -/

section

variable {said other : List SaidRecord} {qname zone : DnsName}

/-- The order of the section does not matter to what is relevant. -/
theorem relevantAnswers_perm (same : said.Perm other) (names : Bytes → Prop) :
    (relevantAnswers said zone names).Perm (relevantAnswers other zone names) := by
  classical exact (same.filter _).filterMap _

/-- A list that has the relevant records leads to all names of the closure. -/
theorem CnameClosure.of_relevant
    (has : ∀ record ∈ said, record.Relevant zone (CnameClosure said qname zone) → record ∈ other)
    {name : Bytes} (closure : CnameClosure said qname zone name) :
    CnameClosure other qname zone name := by
  induction closure with
  | asked => exact .asked
  | target listed scope owned read kind ih =>
      exact .target (has _ listed ⟨scope, owned⟩) scope ih read kind

/-- A list that has no other relevant records leads to no other names. -/
theorem CnameClosure.of_only_relevant
    (only : ∀ record ∈ other, record.Relevant zone (CnameClosure said qname zone) → record ∈ said)
    {name : Bytes} (closure : CnameClosure other qname zone name) :
    CnameClosure said qname zone name := by
  induction closure with
  | asked => exact .asked
  | target listed scope _ read kind ih =>
      exact .target (only _ listed ⟨scope, ih⟩) scope ih read kind

end

section

variable {msg other : Bytes} {len size : Nat} {qname zone : DnsName}

/-- Nor to the closure. -/
theorem closureNames_of_perm (same : (saidRecords other size).Perm (saidRecords msg len)) :
    closureNames other size qname zone = closureNames msg len qname zone := by
  ext name
  constructor
  · exact CnameClosure.of_relevant fun record listed _ => same.subset listed
  · exact CnameClosure.of_relevant fun record listed _ => same.symm.subset listed

open Classical in
/-- The two messages have the same relevant records, in the same order. -/
def SameRelevant (msg : Bytes) (len : Nat) (other : Bytes) (size : Nat) (qname zone : DnsName) :
    Prop :=
  (saidRecords other size).filter (·.Relevant zone (· ∈ closureNames msg len qname zone)) =
    (saidRecords msg len).filter (·.Relevant zone (· ∈ closureNames msg len qname zone))

/-- Messages with the same relevant records have the same closure. -/
theorem SameRelevant.closureNames_eq (same : SameRelevant msg len other size qname zone) :
    closureNames other size qname zone = closureNames msg len qname zone := by
  classical
  have iff : ∀ record, record.Relevant zone (· ∈ closureNames msg len qname zone) →
      (record ∈ saidRecords other size ↔ record ∈ saidRecords msg len) := by
    intro record relevant
    have members := congrArg (record ∈ ·) same
    simpa [relevant] using members
  ext name
  constructor
  · exact CnameClosure.of_only_relevant fun record listed relevant =>
      (iff record relevant).mp listed
  · exact CnameClosure.of_relevant fun record listed relevant =>
      (iff record relevant).mpr listed

/-- **The CNAME closure.** If the names that the CNAMEs of a response lead to are at most
`MAX_CNAME_HOPS + 1`, `dissect` stores the records that are relevant to them, in the order of
the section and as far as there is room; a further pass would change nothing. A response with
the same records in another order gives the same answers if there is room for them, and one
that has other irrelevant records gives the same answers in the same order, and the same CNAME
to chase. -/
theorem dissect_closure {ansCap : Nat} {d : Dissection}
    (dissected : dissect msg len qname zone ansCap = some d)
    (few : (closureNames msg len qname zone).encard ≤ maxCnameHops + 1) :
    d.answers = (relevantAnswers (saidRecords msg len) zone
      (· ∈ closureNames msg len qname zone)).take ansCap ∧
    answerPass msg len qname zone ansCap (answerSection msg len)
        (answerPasses msg len qname zone ansCap (answerSection msg len)).chain =
      answerPasses msg len qname zone ansCap (answerSection msg len) ∧
    (∀ other size d', dissect other size qname zone ansCap = some d' →
      (saidRecords other size).Perm (saidRecords msg len) →
      (relevantAnswers (saidRecords msg len) zone
        (· ∈ closureNames msg len qname zone)).length ≤ ansCap →
      d'.answers.Perm d.answers) ∧
    ∀ other size d', dissect other size qname zone ansCap = some d' →
      SameRelevant msg len other size qname zone →
      d'.answers = d.answers ∧ d'.cname = d.cname := by
  classical
  obtain ⟨answers, cname, _⟩ := dissect_answers dissected
  rw [candidates_finalChain few] at answers cname
  refine ⟨answers, answerPass_answerPasses _ _, ?_, ?_⟩
  · intro other size d' dissected' same fits
    have names := @closureNames_of_perm _ _ _ _ qname zone same
    obtain ⟨answers', _, _⟩ := dissect_answers dissected'
    rw [candidates_finalChain (names ▸ few), names] at answers'
    have permuted := @relevantAnswers_perm _ _ zone same (· ∈ closureNames msg len qname zone)
    rw [answers, answers', List.take_of_length_le fits,
      List.take_of_length_le (permuted.length_eq.trans_le fits)]
    exact permuted
  · intro other size d' dissected' same
    have names := same.closureNames_eq
    obtain ⟨answers', cname', _⟩ := dissect_answers dissected'
    rw [candidates_finalChain (names ▸ few), names, relevantAnswers, same] at answers' cname'
    exact ⟨answers'.trans answers.symm, cname'.trans cname.symm⟩

end

/-- A reply for the name "n", an alias of "t", which is an alias of "u", with the CNAMEs in this
order or in the other. -/
def aliasReply (inOrder : Bool) : Bytes :=
  let first := [0xC0, 0x0C, 0, 5, 0, 1, 0, 0, 1, 44, 0, 3, 1, 116, 0]
  let second := [1, 116, 0, 0, 5, 0, 1, 0, 0, 1, 44, 0, 3, 1, 117, 0]
  [0, 7, 0x80, 0, 0, 1, 0, 2, 0, 0, 0, 0, 1, 110, 0, 0, 1, 0, 1] ++
    if inOrder then first ++ second else second ++ first

/-- Both orders give the same answers. -/
theorem dissect_closure_alias :
    ∃ d d', dissect (aliasReply true) 50 (DnsName.ofText [110]) DnsName.root 2 = some d ∧
      dissect (aliasReply false) 50 (DnsName.ofText [110]) DnsName.root 2 = some d' ∧
      d.answers.length = 2 ∧ d'.answers.Perm d.answers := by
  have outcome : (dissect (aliasReply true) 50 (DnsName.ofText [110]) DnsName.root 2).map
      (·.answers.length) = some 2 := by decide +kernel
  have outcome' : (dissect (aliasReply false) 50 (DnsName.ofText [110]) DnsName.root 2).isSome := by
    decide +kernel
  have said : (saidRecords (aliasReply true) 50).length = 2 := by decide +kernel
  have reversed : saidRecords (aliasReply false) 50 =
      (saidRecords (aliasReply true) 50).reverse := by decide +kernel
  have same := reversed ▸ (saidRecords (aliasReply true) 50).reverse_perm
  obtain ⟨d, dissected, two⟩ := Option.map_eq_some_iff.mp outcome
  obtain ⟨d', dissected'⟩ := Option.isSome_iff_exists.mp outcome'
  have few : (closureNames (aliasReply true) 50 (DnsName.ofText [110]) DnsName.root).encard ≤
      maxCnameHops + 1 := by
    apply (encard_closureNames_le ..).trans
    rw [said]
    decide
  obtain ⟨_, _, permuted, _⟩ := dissect_closure dissected few
  refine ⟨d, d', dissected, dissected', two, permuted _ _ d' dissected' same ?_⟩
  exact (List.length_filterMap_le _ _).trans ((List.length_filter_le _ _).trans said.le)

end FizzDns
