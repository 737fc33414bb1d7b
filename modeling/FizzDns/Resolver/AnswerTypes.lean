import FizzDns.Msg.Emission
import FizzDns.Resolver.Provenance

/-!
# The types of the answers

`dissect` stores addresses of both families whatever was asked for, and nothing behind it takes
the other family out. So a resolution returns records of the type that was asked for and CNAMEs
just if no reply on its trail contributes an address of the other family
(`resolveRun_types_iff`). A reply with nothing but such an address is not even taken for NODATA:
it is returned, stored under the type that was asked for, and served again
(`other_family_served`).
-/

namespace FizzDns

/-- A record that answers a question of the type, or leads on to one that does. -/
def DnsAnswer.Answers (qtype : UInt16) (record : DnsAnswer) : Prop :=
  record.type = qtype ∨ record.type = dnsTypeCname

/-- An address of the family that was not asked for. -/
def DnsAnswer.OtherFamily (qtype : UInt16) (record : DnsAnswer) : Prop :=
  qtype = dnsTypeA ∧ record.type = dnsTypeAaaa ∨ qtype = dnsTypeAaaa ∧ record.type = dnsTypeA

/-- A record as `dissect` stores it: an address or a CNAME. -/
def DnsAnswer.Stored (record : DnsAnswer) : Prop :=
  record.type = dnsTypeA ∨ record.type = dnsTypeAaaa ∨ record.type = dnsTypeCname

/-- What is read from a record is of a type that is stored. -/
theorem readAnswer_stored {msg : Bytes} {len : Nat} {rr : DnsRr} {answer : DnsAnswer}
    (read : readAnswer msg len rr = some answer) : answer.Stored := by
  unfold readAnswer at read
  split at read
  · cases read
    exact .inl rfl
  split at read
  · cases read
    exact .inr (.inl rfl)
  split at read
  · obtain ⟨_, _, rfl⟩ := Option.map_eq_some_iff.mp read
    exact .inr (.inr rfl)
  · cases read

/-- So is what a reply contributes. -/
theorem Visit.stored_of_mem_accepted {visit : Visit} {record : DnsAnswer}
    (accepted : record ∈ visit.accepted) : record.Stored := by
  unfold Visit.accepted acceptedRecords at accepted
  cases dissected : dissect visit.reply visit.reply.length visit.name visit.zone 65535 with
  | none =>
      rw [dissected] at accepted
      cases accepted
  | some d =>
      rw [dissected, Option.map_some, Option.getD_some, (dissect_answers dissected).1] at accepted
      obtain ⟨rr, _, chosen⟩ := List.mem_filterMap.mp (List.mem_of_mem_take accepted)
      exact readAnswer_stored (candidate_iff.mp chosen).2.2

/-- Of what is stored, everything answers but the other family. -/
theorem DnsAnswer.Stored.answers_iff {record : DnsAnswer} (stored : record.Stored)
    {qtype : UInt16} (served : ServedType qtype) :
    record.Answers qtype ↔ ¬ record.OtherFamily qtype := by
  unfold Stored at stored
  unfold Answers OtherFamily
  generalize record.type = type at stored ⊢
  rcases served with rfl | rfl <;> rcases stored with rfl | rfl | rfl <;> decide

section

variable {σ : Type} {ask : Ask σ} {qtype : UInt16} {name : DnsName} {hops ansCap : Nat}
  {resolution : Resolution}

/-- The replies on a trail contribute no address of the other family. -/
def OneFamily (qtype : UInt16) (ansCap : Nat) (trail : List Visit) : Prop :=
  ∀ source ∈ contributions ansCap trail, ¬ source.2.OtherFamily qtype

/-- The answers of a resolution are of the type asked for if the replies along its chain stay in one
family. -/
theorem Follows.answers_iff (follows : Follows ask qtype hops ansCap name resolution)
    (served : ServedType qtype) :
    (∀ record ∈ resolution.ans, record.Answers qtype) ↔
      OneFamily qtype ansCap resolution.trail := by
  rw [follows.ans_eq, List.forall_mem_map]
  apply forall₂_congr
  intro source contributed
  have listed := (contributions_sublist ansCap resolution.trail).subset contributed
  obtain ⟨visit, _, sourced⟩ := List.mem_flatMap.mp listed
  obtain ⟨record, accepted, rfl⟩ := List.mem_map.mp sourced
  exact (Visit.stored_of_mem_accepted accepted).answers_iff served

end

/-- The TTL has no part in it. -/
theorem DnsAnswer.answers_of_untimed {left right : DnsAnswer} (same : left.untimed = right.untimed)
    {qtype : UInt16} (answers : left.Answers qtype) : right.Answers qtype := by
  have type : left.type = right.type := congrArg (·.2.type) same
  rwa [Answers, type] at answers

/-- **The answers match the question.** Whatever the servers reply, in every run of `dns_resolve`
from an initialised cache these are equivalent, for questions of type A or AAAA: every record that
is returned, stored in the cache or sent to a client has the type that was asked for or is a
CNAME; and no reply on the trail of a resolution contributes an address of the other family. -/
theorem resolveRun_types_iff {β σ : Type} {bloom : BloomOps β} (law : FilterLaw bloom)
    (ask : Ask σ) (roots : List Bytes) (calls : List ResolveCall) (filter : β) (up : σ) :
    ∃ history s up' cache,
      resolveRun bloom ask roots calls (dnsCacheInit bloom (CacheState.start filter)) up =
        some (history, s, up') ∧
      Refines law s cache ∧
      ((∀ source ∈ history, ServedType source.1.qtype →
          ∀ record ∈ source.2.ans, record.Answers source.1.qtype) ∧
        (∀ entry ∈ cache.entries, ServedType entry.qtype →
          ∀ record ∈ entry.ans, record.Answers entry.qtype) ∧
        (∀ source ∈ history, ServedType source.1.qtype → ∀ q isUdp cap,
          ∀ record ∈ (replyAnswers q source.2.ans source.2.rcode isUdp cap).1,
            record.Answers source.1.qtype) ↔
      ∀ source ∈ history, ServedType source.1.qtype → ∀ resolution,
        source.2.resolution = some resolution →
          OneFamily source.1.qtype source.1.cap resolution.trail) := by
  obtain ⟨history, s, up', cache, ran, refines, backed, served, follows⟩ :=
    @resolveRun_served _ _ bloom law ask roots calls filter up
  refine ⟨history, s, up', cache, ran, refines, ?_, ?_⟩
  · rintro ⟨returned, _, _⟩ source member known resolution made
    have answers := returned source member known
    obtain ⟨before, rest, split⟩ := List.append_of_mem member
    rw [(served before source.1 source.2 rest split).ans_eq made] at answers
    exact ((follows source member resolution made).answers_iff known).mp answers
  · intro condition
    have made : ∀ source ∈ history, ServedType source.1.qtype → ∀ resolution,
        source.2.resolution = some resolution →
          ∀ record ∈ resolution.ans, record.Answers source.1.qtype :=
      fun source member known resolution made =>
        ((follows source member resolution made).answers_iff known).mpr
          (condition source member known resolution made)
    have returned : ∀ source ∈ history, ServedType source.1.qtype →
        ∀ record ∈ source.2.ans, record.Answers source.1.qtype := by
      rintro ⟨call, resolved⟩ member known record inside
      obtain ⟨before, rest, split⟩ := List.append_of_mem member
      cases served before call resolved rest split with
      | empty _ _ => cases inside
      | upstream _ => exact made _ member known _ rfl record inside
      | @hit source resolution ans earlier key resolved start =>
          have qtype : source.1.qtype = call.qtype := congrArg Prod.snd key
          obtain ⟨original, present, same⟩ :=
            List.mem_map.mp (start.subset (List.mem_map_of_mem inside))
          have listed : source ∈ history := split ▸ List.mem_append_left _ earlier
          apply DnsAnswer.answers_of_untimed same
          rw [← qtype] at known ⊢
          exact made source listed known resolution resolved original present
    refine ⟨returned, ?_, ?_⟩
    · intro entry inside known record stored
      obtain ⟨source, listed, key, resolution, resolved, start, _⟩ := backed entry inside
      have qtype : source.1.qtype = entry.qtype := congrArg Prod.snd key
      rw [← qtype] at known ⊢
      exact made source listed known resolution resolved record (start.subset stored)
    · intro source member known q isUdp cap record sent
      exact returned source member known record
        ((replyAnswers_sublist q source.2.ans source.2.rcode isUdp cap).subset sent)

/-- The reply of every server to a query for the address of "a": its address in the other
family. -/
def otherFamilyAsk : Ask Unit :=
  askVia fun _ _ _ _ =>
    (⟨some 7, true, [.datagram ([0, 7, 0x80, 0, 0, 1, 0, 1, 0, 0, 0, 0, 1, 97, 0, 0, 1, 0, 1,
      0xC0, 0x0C, 0, 28, 0, 1, 0, 0, 1, 44, 0, 16] ++ List.replicate 16 1)]⟩, ())

/-- Two calls for the IPv4 address of "a" return an IPv6 address with NOERROR, the second one
from the cache. -/
theorem other_family_served :
    (resolveRun disabledBloom otherFamilyAsk [inetNtop fun _ => 1]
      (List.replicate 2 ⟨DnsName.ofText [97], dnsTypeA, dnsMaxAnswers, 0, 0, true⟩)
      (dnsCacheInit disabledBloom (CacheState.start ())) ()).map
        (fun run => run.1.map fun source =>
          (source.2.rcode, source.2.ans.map DnsAnswer.type, source.2.resolution.isSome)) =
      some [(dnsRcodeNoerror, [dnsTypeAaaa], true), (dnsRcodeNoerror, [dnsTypeAaaa], false)] := by
  decide +kernel

end FizzDns
