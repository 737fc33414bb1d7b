import FizzDns.Resolver.Provenance

/-!
# The chain, once and in order

A client should get every record of the chain once, and every CNAME before what its target
owns. `dissect` keeps all records of a reply that are on the chain, in the order of the
section, while `resolve_from` resolves the target of the first CNAME again and appends what
comes back, without merging the two.

Records of the name that a server was asked for do no harm: unless a name is revisited, they
come from one reply only. So the list is the chain, once and in order, exactly when the records
that a reply carries along for other names are neither repeated nor followed by a CNAME to their
owner (`Follows.chainOnce_iff`). A reply that carries the CNAME together with the address of its
target is enough to break it (`carried_target_repeats`).
-/

namespace FizzDns

/-- What makes a record the same as another: owner, type and data, but not the TTL. -/
def DnsAnswer.identity (answer : DnsAnswer) : Bytes × UInt16 × Bytes :=
  (foldCase answer.owner.chars, answer.type,
    match answer.rdata with
    | .a octets => List.ofFn octets
    | .aaaa octets => List.ofFn octets
    | .cname target => foldCase target.chars
    | .other _ _ => [])

/-- The record is a CNAME to the name. -/
def DnsAnswer.isCnameTo (answer : DnsAnswer) (name : DnsName) : Bool :=
  match answer.rdata with
  | .cname target => dnsNameEqual name.chars target.chars
  | _ => false

/-- A record may stand before another one, unless that is a CNAME to its owner. -/
def MayPrecede (earlier later : DnsAnswer) : Prop :=
  later.isCnameTo earlier.owner = false

/-- The chain, once and in order: no record twice, and every CNAME before every record that its
target owns. -/
structure ChainOnce (ans : List DnsAnswer) : Prop where
  once : (ans.map DnsAnswer.identity).Nodup
  ordered : ans.Pairwise MayPrecede
  loopless : ∀ answer ∈ ans, MayPrecede answer answer

instance (earlier later : DnsAnswer) : Decidable (MayPrecede earlier later) :=
  inferInstanceAs (Decidable (_ = _))

/-- Two different records in an order they may have. -/
def Compatible (earlier later : DnsAnswer) : Prop :=
  earlier.identity ≠ later.identity ∧ MayPrecede earlier later

/-- The condition on a list of answers as one on pairs of them. -/
theorem chainOnce_iff (ans : List DnsAnswer) :
    ChainOnce ans ↔ ans.Pairwise Compatible ∧ ∀ answer ∈ ans, MayPrecede answer answer := by
  have pairs : ans.Pairwise Compatible ↔
      (ans.map DnsAnswer.identity).Nodup ∧ ans.Pairwise MayPrecede := by
    rw [List.Nodup, List.pairwise_map]
    exact List.pairwise_and_iff
  rw [pairs]
  exact ⟨fun ⟨once, ordered, loopless⟩ => ⟨⟨once, ordered⟩, loopless⟩,
    fun ⟨⟨once, ordered⟩, loopless⟩ => ⟨once, ordered, loopless⟩⟩

/-! ## Cutting a list and changing its TTLs -/

/-- Some of the answers keep the order of all. -/
theorem ChainOnce.sublist {ans whole : List DnsAnswer} (once : ChainOnce whole)
    (part : ans.Sublist whole) : ChainOnce ans :=
  ⟨once.once.sublist (part.map _), once.ordered.sublist part,
    fun answer member => once.loopless answer (part.subset member)⟩

/-- A record with no TTL to speak of. -/
def ofUntimed (record : DnsName × AnswerData) : DnsAnswer :=
  ⟨record.1, 0, record.2⟩

/-- TTLs do not matter for the order. -/
theorem chainOnce_untimed_iff (ans : List DnsAnswer) :
    ChainOnce ((ans.map DnsAnswer.untimed).map ofUntimed) ↔ ChainOnce ans := by
  simp only [chainOnce_iff, List.map_map, List.pairwise_map, List.forall_mem_map]
  rfl

/-- A list that starts as another one, up to TTLs, is in order if that one is. -/
theorem ChainOnce.of_untimed_start {ans whole : List DnsAnswer} (once : ChainOnce whole)
    (start : ans.map DnsAnswer.untimed <+: whole.map DnsAnswer.untimed) : ChainOnce ans :=
  (chainOnce_untimed_iff ans).mp
    (((chainOnce_untimed_iff whole).mpr once).sublist (start.map _).sublist)

/-! ## What one reply contributes -/

/-- The records of the answer section that are read as answers. -/
def sectionAnswers (msg : Bytes) : List DnsAnswer :=
  (answerSection msg msg.length).filterMap (readAnswer msg msg.length)

/-- No record stands twice in the answer section. -/
def SectionOnce (msg : Bytes) : Prop :=
  ((sectionAnswers msg).map DnsAnswer.identity).Nodup

instance (msg : Bytes) : Decidable (SectionOnce msg) :=
  inferInstanceAs (Decidable (List.Nodup _))

/-- What is accepted of a reply is part of its answer section, in the same order. -/
theorem candidates_sublist (msg : Bytes) (len : Nat) (zone : DnsName) (records : List DnsRr)
    (chain : List DnsName) :
    (candidates msg len zone records chain).Sublist (records.filterMap (readAnswer msg len)) := by
  induction records with
  | nil => exact List.Sublist.slnil
  | cons rr rest ih =>
      unfold candidates at ih ⊢
      cases chosen : candidate msg len zone chain rr with
      | none =>
          rw [List.filterMap_cons_none chosen, List.filterMap_cons]
          split
          · exact ih
          · exact ih.cons _
      | some answer =>
          rw [List.filterMap_cons_some chosen,
            List.filterMap_cons_some (candidate_iff.mp chosen).2.2]
          exact ih.cons_cons _

section

variable {σ : Type} {ask : Ask σ} {qtype : UInt16} {name : DnsName} {hops ansCap : Nat}
  {resolution : Resolution}

/-- A reply without repeated records contributes none. -/
theorem Visit.Read.accepted_nodup {visit : Visit} {d : Dissection}
    (read : visit.Read ask qtype ansCap d) (once : SectionOnce visit.reply) :
    (visit.accepted.map DnsAnswer.identity).Nodup := by
  rw [Visit.accepted, acceptedRecords_eq read.dissected]
  exact once.sublist ((candidates_sublist _ _ _ _ _).map _)

/-- Every visit of a trail was dissected. -/
theorem Follows.reads (follows : Follows ask qtype hops ansCap name resolution) :
    ∀ visit ∈ resolution.trail, ∃ room d, visit.Read ask qtype room d := by
  induction follows using Follows.unwind with
  | last read _ => simpa using ⟨_, _, read⟩
  | chased read _ _ _ ih => exact List.forall_mem_cons.mpr ⟨⟨_, _, read⟩, ih⟩

/-! ## Records that are carried along -/

/-- A reply carries the record along: it is not about the name that was asked for. -/
def Carried (item : Visit × DnsAnswer) : Prop :=
  dnsNameEqual item.2.owner.chars item.1.name.chars = false

/-- Records that are carried along are not repeated, and no CNAME to their owner comes after
them. -/
structure CarriedOnce (items : List (Visit × DnsAnswer)) : Prop where
  pairs : items.Pairwise fun first second => Carried first → Compatible first.2 second.2
  alone : ∀ item ∈ items, Carried item → MayPrecede item.2 item.2

/-- Some answer is a CNAME to the name. -/
def LeadsTo (answers : List DnsAnswer) (name : DnsName) : Prop :=
  ∃ answer ∈ answers, answer.isCnameTo name = true

/-- A link to a name is a CNAME that leads there. -/
theorem CnameLink.leadsTo {answers : List DnsAnswer} {source : Bytes} {name : DnsName}
    (link : CnameLink answers source (foldCase name.chars)) : LeadsTo answers name := by
  obtain ⟨answer, member, target, kind, _, same⟩ := link
  refine ⟨answer, member, ?_⟩
  rw [DnsAnswer.isCnameTo, kind]
  exact (dnsNameEqual_iff _ _).mpr same.symm

/-- Case does not matter to where a CNAME leads. -/
theorem isCnameTo_congr (answer : DnsAnswer) {name other : DnsName}
    (same : dnsNameEqual name.chars other.chars = true) :
    answer.isCnameTo name = answer.isCnameTo other := by
  rw [dnsNameEqual_iff] at same
  unfold DnsAnswer.isCnameTo
  split
  · rw [Bool.eq_iff_iff, dnsNameEqual_iff, dnsNameEqual_iff, same]
  · rfl

/-- Nor to whether some CNAME leads there. -/
theorem LeadsTo.congr {answers : List DnsAnswer} {name other : DnsName}
    (leads : LeadsTo answers other) (same : dnsNameEqual name.chars other.chars = true) :
    LeadsTo answers name := by
  obtain ⟨answer, member, found⟩ := leads
  exact ⟨answer, member, (isCnameTo_congr answer same).trans found⟩

/-- No name is revisited: no CNAME leads to a name that was already asked for. -/
structure NoRevisit (trail : List Visit) : Prop where
  own : ∀ visit ∈ trail, ¬ LeadsTo visit.accepted visit.name
  earlier : trail.Pairwise fun first second => ¬ LeadsTo second.accepted first.name

/-- The replies on the trail have no record twice in their answer sections. -/
def SectionsOnce (trail : List Visit) : Prop :=
  ∀ visit ∈ trail, SectionOnce visit.reply

instance (answers : List DnsAnswer) (name : DnsName) : Decidable (LeadsTo answers name) :=
  inferInstanceAs (Decidable (∃ answer ∈ answers, answer.isCnameTo name = true))

instance (trail : List Visit) : Decidable (NoRevisit trail) :=
  decidable_of_iff ((∀ visit ∈ trail, ¬ LeadsTo visit.accepted visit.name) ∧
    trail.Pairwise fun first second => ¬ LeadsTo second.accepted first.name)
    ⟨fun ⟨own, earlier⟩ => ⟨own, earlier⟩, fun fresh => ⟨fresh.own, fresh.earlier⟩⟩

instance (trail : List Visit) : Decidable (SectionsOnce trail) :=
  inferInstanceAs (Decidable (∀ visit ∈ trail, SectionOnce visit.reply))

/-- A record of the name that was asked for may precede everything that does not lead there. -/
theorem mayPrecede_of_not_carried {visit : Visit} {first second : DnsAnswer}
    {answers : List DnsAnswer} (owned : ¬ Carried (visit, first))
    (away : ¬ LeadsTo answers visit.name) (member : second ∈ answers) :
    MayPrecede first second := by
  rw [Carried, Bool.not_eq_false] at owned
  rw [MayPrecede, isCnameTo_congr second owned, Bool.eq_false_iff]
  exact fun leads => away ⟨second, member, leads⟩

/-- Every name on the trail but the first is where an accepted CNAME leads. -/
theorem Follows.led (follows : Follows ask qtype hops ansCap name resolution) :
    ∀ visit ∈ resolution.trail,
      visit.name = name ∨ ∃ source ∈ resolution.trail, LeadsTo source.accepted visit.name := by
  induction follows using Follows.unwind with
  | last _ _ => simp
  | @chased _ _ visit _ _ read cname _ _ ih =>
      refine List.forall_mem_cons.mpr ⟨Or.inl rfl, fun later member => Or.inr ?_⟩
      rcases ih later member with start | ⟨source, inside, leads⟩
      · exact ⟨visit, List.mem_cons_self, start ▸ (read.link cname).leadsTo⟩
      · exact ⟨source, List.mem_cons_of_mem _ inside, leads⟩

/-- Where no name is revisited, the names on the trail differ. -/
theorem Follows.names_differ (follows : Follows ask qtype hops ansCap name resolution)
    (fresh : NoRevisit resolution.trail) :
    resolution.trail.Pairwise fun first second =>
      dnsNameEqual first.name.chars second.name.chars = false := by
  induction follows using Follows.unwind with
  | last _ _ => exact List.pairwise_singleton _ _
  | chased read cname rest _ ih =>
      obtain ⟨ownFirst, ownRest⟩ := List.forall_mem_cons.mp fresh.own
      obtain ⟨away, others⟩ := List.pairwise_cons.mp fresh.earlier
      refine List.pairwise_cons.mpr ⟨fun later member => ?_, ih ⟨ownRest, others⟩⟩
      rw [Bool.eq_false_iff]
      intro same
      rcases rest.led later member with start | ⟨source, inside, leads⟩
      · rw [start] at same
        exact ownFirst ((read.link cname).leadsTo.congr same)
      · exact away source inside (leads.congr same)

/-- Records of the names that were asked for are compatible with all that follows them. -/
theorem Follows.owned_compatible (follows : Follows ask qtype hops ansCap name resolution)
    (sections : SectionsOnce resolution.trail) (fresh : NoRevisit resolution.trail) :
    (resolution.trail.flatMap Visit.sourced).Pairwise fun first second =>
      ¬ Carried first → Compatible first.2 second.2 := by
  refine List.pairwise_flatMap.mpr ⟨fun visit onTrail => ?_, ?_⟩
  · obtain ⟨room, d, read⟩ := follows.reads visit onTrail
    have different := read.accepted_nodup (sections visit onTrail)
    rw [List.Nodup, List.pairwise_map] at different
    rw [Visit.sourced, List.pairwise_map]
    exact different.imp_of_mem fun _ inside apart owned =>
      ⟨apart, mayPrecede_of_not_carried owned (fresh.own visit onTrail) inside⟩
  · have both := (follows.names_differ fresh).and fresh.earlier
    refine both.imp_of_mem fun {earlier later} _ onTrail apart => ?_
    obtain ⟨differ, away⟩ := apart
    intro first fromEarlier second fromLater owned
    obtain ⟨record, _, rfl⟩ := List.mem_map.mp fromEarlier
    obtain ⟨other, inside, rfl⟩ := List.mem_map.mp fromLater
    refine ⟨fun same => ?_, mayPrecede_of_not_carried owned away inside⟩
    -- the later reply would have to lead to the earlier name
    obtain ⟨room, d, read⟩ := follows.reads later onTrail
    have sameOwner : foldCase earlier.name.chars = foldCase other.owner.chars := by
      rw [Carried, Bool.not_eq_false, dnsNameEqual_iff] at owned
      exact owned.symm.trans (congrArg Prod.fst same)
    rcases Relation.ReflTransGen.cases_tail (read.believed inside).2 with start | ⟨_, _, link⟩
    · rw [Bool.eq_false_iff] at differ
      exact differ ((dnsNameEqual_iff _ _).mpr (sameOwner.trans start))
    · rw [← sameOwner] at link
      exact away link.leadsTo

/-- The answers are the chain, once and in order, if and only if the records that are carried
along are neither repeated nor followed by a CNAME to their owner. -/
theorem Follows.chainOnce_iff (follows : Follows ask qtype hops ansCap name resolution)
    (sections : SectionsOnce resolution.trail) (fresh : NoRevisit resolution.trail) :
    ChainOnce resolution.ans ↔ CarriedOnce (contributions ansCap resolution.trail) := by
  have part := contributions_sublist ansCap resolution.trail
  have owned := (follows.owned_compatible sections fresh).sublist part
  rw [follows.ans_eq, FizzDns.chainOnce_iff, List.pairwise_map, List.forall_mem_map]
  constructor
  · rintro ⟨pairs, alone⟩
    refine ⟨?_, fun item member _ => alone item member⟩
    refine pairs.imp ?_
    intro _ _ compatible _
    exact compatible
  · rintro ⟨pairs, alone⟩
    refine ⟨?_, fun item member => ?_⟩
    · refine (pairs.and owned).imp ?_
      rintro _ _ ⟨carried, own⟩
      exact (em _).elim carried own
    · by_cases carried : Carried item
      · exact alone item member carried
      · obtain ⟨visit, onTrail, sourced⟩ := List.mem_flatMap.mp (part.subset member)
        obtain ⟨answer, inside, rfl⟩ := List.mem_map.mp sourced
        exact mayPrecede_of_not_carried carried (fresh.own visit onTrail) inside

end

/-- **The chain, once and in order.** Take any run of `dns_resolve` from an initialised cache in
which, for every resolution with NOERROR, no reply has a record twice in its answer section and
no name is revisited. All lists that are returned with NOERROR, by resolving or from the cache,
are the chain once and in order, if and only if each of these resolutions has the following
property: a record that a reply carries along for another name than the one asked for is not
contributed again, and no CNAME to its owner comes after it. -/
theorem resolveRun_chainOnce_iff {β σ : Type} {bloom : BloomOps β} (law : FilterLaw bloom)
    (ask : Ask σ) (roots : List Bytes) (calls : List ResolveCall) (filter : β) (up : σ) :
    ∃ history s up',
      resolveRun bloom ask roots calls (dnsCacheInit bloom (CacheState.start filter)) up =
        some (history, s, up') ∧
      ((∀ item ∈ history, ∀ resolution, item.2.resolution = some resolution →
          resolution.rcode = dnsRcodeNoerror →
            SectionsOnce resolution.trail ∧ NoRevisit resolution.trail) →
        ((∀ item ∈ history, item.2.rcode = dnsRcodeNoerror → ChainOnce item.2.ans) ↔
          ∀ item ∈ history, ∀ resolution, item.2.resolution = some resolution →
            resolution.rcode = dnsRcodeNoerror →
              CarriedOnce (contributions item.1.cap resolution.trail))) := by
  obtain ⟨history, s, up', _, ran, _, _, served, follows⟩ :=
    @resolveRun_served _ _ bloom law ask roots calls filter up
  refine ⟨history, s, up', ran, fun bounds => ?_⟩
  have one : ∀ item ∈ history, ∀ resolution, item.2.resolution = some resolution →
      resolution.rcode = dnsRcodeNoerror →
      (ChainOnce resolution.ans ↔ CarriedOnce (contributions item.1.cap resolution.trail)) := by
    intro item member resolution made noerror
    obtain ⟨sections, fresh⟩ := bounds item member resolution made noerror
    exact (follows item member resolution made).chainOnce_iff sections fresh
  constructor
  · intro all item member resolution made noerror
    obtain ⟨before, rest, split⟩ := List.append_of_mem member
    obtain ⟨call, resolved⟩ := item
    have returned := all _ member
    cases served before call resolved rest split with
    | upstream _ =>
        cases made
        exact (one _ member resolution rfl noerror).mp (returned noerror)
    | empty _ _ => cases made
    | hit _ _ _ _ => cases made
  · intro carried item member noerror
    obtain ⟨before, rest, split⟩ := List.append_of_mem member
    obtain ⟨call, resolved⟩ := item
    cases served before call resolved rest split with
    | empty _ negative => exact absurd noerror negative
    | upstream _ => exact (one _ member _ rfl noerror).mpr (carried _ member _ rfl noerror)
    | hit earlier _ made start =>
        have inside := split ▸ List.mem_append_left _ earlier
        exact ((one _ inside _ made noerror).mpr
          (carried _ inside _ made noerror)).of_untimed_start start

/-! ## A server that sends the address along -/

/-- The replies to queries for the addresses of "n", a CNAME of "t", and of "t". The first one
carries the address of "t" as well, behind the CNAME or before it. -/
def carryingReply (behind : Bool) (name : DnsName) : Bytes :=
  let cname := [0xC0, 0x0C, 0, 5, 0, 1, 0, 0, 1, 44, 0, 3, 1, 116, 0]
  let address := [1, 116, 0, 0, 1, 0, 1, 0, 0, 1, 44, 0, 4, 192, 0, 2, 1]
  if name.chars = [110] then
    [0, 7, 0x80, 0, 0, 1, 0, 2, 0, 0, 0, 0, 1, 110, 0, 0, 1, 0, 1] ++
      if behind then cname ++ address else address ++ cname
  else [0, 7, 0x80, 0, 0, 1, 0, 1, 0, 0, 0, 0, 1, 116, 0, 0, 1, 0, 1] ++ address

/-- What a call for the address of "n" returns. -/
def carryingCall (behind : Bool) : Option Resolved :=
  (dnsResolve disabledBloom
    (askVia fun _ name _ s => (⟨some 7, true, [.datagram (carryingReply behind name)]⟩, s))
    [inetNtop fun _ => 1] ⟨DnsName.ofText [110], dnsTypeA, dnsMaxAnswers, 0, 0, true⟩
    (CacheState.start ()) ()).map Prod.fst

/-- A call within the bounds of the property that returns these records: it ends with NOERROR,
no answer section it reads has a record twice, and no name is revisited. -/
def ReturnsWithin (resolved : Resolved) (records : List (Bytes × UInt16 × Bytes)) : Prop :=
  resolved.rcode = dnsRcodeNoerror ∧ resolved.ans.map DnsAnswer.identity = records ∧
    resolved.resolution.any (fun resolution =>
      decide (SectionsOnce resolution.trail ∧ NoRevisit resolution.trail)) = true

instance (resolved : Resolved) (records : List (Bytes × UInt16 × Bytes)) :
    Decidable (ReturnsWithin resolved records) :=
  inferInstanceAs (Decidable (_ ∧ _ ∧ _))

/-- The address of "t" is returned twice when the first reply carries it behind the CNAME; when
it comes before the CNAME, the list is out of order as well. -/
theorem carried_target_repeats :
    (∃ resolved ∈ carryingCall true,
      ReturnsWithin resolved [([110], dnsTypeCname, [116]), ([116], dnsTypeA, [192, 0, 2, 1]),
        ([116], dnsTypeA, [192, 0, 2, 1])] ∧ ¬ ChainOnce resolved.ans) ∧
    ∃ resolved ∈ carryingCall false,
      ReturnsWithin resolved [([116], dnsTypeA, [192, 0, 2, 1]), ([110], dnsTypeCname, [116]),
        ([116], dnsTypeA, [192, 0, 2, 1])] ∧ ¬ resolved.ans.Pairwise MayPrecede := by
  constructor
  · have outcome : (carryingCall true).map (fun resolved => decide (ReturnsWithin resolved
        [([110], dnsTypeCname, [116]), ([116], dnsTypeA, [192, 0, 2, 1]),
          ([116], dnsTypeA, [192, 0, 2, 1])])) = some true := by decide +kernel
    obtain ⟨resolved, called, within⟩ := Option.map_eq_some_iff.mp outcome
    have returns := of_decide_eq_true within
    refine ⟨resolved, called, returns, fun chain => ?_⟩
    have once := chain.once
    rw [returns.2.1] at once
    exact absurd once (by decide)
  · have outcome : (carryingCall false).map (fun resolved => decide (ReturnsWithin resolved
        [([116], dnsTypeA, [192, 0, 2, 1]), ([110], dnsTypeCname, [116]),
          ([116], dnsTypeA, [192, 0, 2, 1])] ∧ ¬ resolved.ans.Pairwise MayPrecede)) =
        some true := by decide +kernel
    obtain ⟨resolved, called, within⟩ := Option.map_eq_some_iff.mp outcome
    exact ⟨resolved, called, of_decide_eq_true within⟩

end FizzDns
