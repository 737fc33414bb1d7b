import FizzDns.Resolver.Trail

/-!
# Complete answers

When does a NOERROR answer hold what the name stands for? The last name of the chain is the
one of the last visit on the trail. An answer is complete if it holds a record of the type
asked for, owned by that name; otherwise the last reply should have said that there is none
(`GenuineNodata`).

Three limits interfere: the answers stop at `DNS_MAX_ANSWERS`, a CNAME that comes after
`MAX_CNAME_HOPS` others is not followed, and neither is one to the root, whose name is the
empty string. `resolve_from` takes all of them for "no such record". An upstream answer is
complete or genuinely empty exactly when none of them cuts it off (`dnsResolve_complete_iff`).
-/

namespace FizzDns

section

variable {σ : Type} {ask : Ask σ} {qtype : UInt16} {name : DnsName} {hops ansCap : Nat}
  {resolution : Resolution}

/-- How the last call along the trail ended: denied, answered, or without such a record and
without a CNAME it could follow. -/
theorem Follows.ending (follows : Follows ask qtype hops ansCap name resolution) :
    ∃ last room d, resolution.trail.getLast? = some last ∧ last.Read ask qtype room d ∧
      (resolution.rcode = dnsRcodeNxdomain ∨
        d.answers.any (answersName last.name qtype) = true ∨
        d.rcode = dnsRcodeNoerror ∧ d.ref.ns = [] ∧
          (d.cname.chars = [] ∨ resolution.trail.length = hops + 1)) := by
  induction follows with
  | denied read nxdomain => exact ⟨_, _, _, rfl, read, Or.inl nxdomain⟩
  | answered read found => exact ⟨_, _, _, rfl, read, Or.inr (Or.inl found)⟩
  | nodata read noerror _ unfollowed undelegated =>
      refine ⟨_, _, _, rfl, read, Or.inr (Or.inr ⟨noerror, undelegated, ?_⟩)⟩
      exact unfollowed.imp_right fun used => by rw [used, List.length_singleton]
  | chased read _ _ rest ih =>
      obtain ⟨last, room, d, final, lastRead, ended⟩ := ih
      refine ⟨last, room, d, ?_, lastRead, ?_⟩
      · rw [List.getLast?_cons_of_ne_nil rest.trail_ne_nil]
        exact final
      · rw [List.length_cons, Nat.add_right_cancel_iff]
        exact ended

/-- Some record of the type asked for is owned by the name. -/
def HoldsTerminal (qtype : UInt16) (name : DnsName) (ans : List DnsAnswer) : Prop :=
  ∃ answer ∈ ans, answersName name qtype answer = true

/-- Such a record is accepted along the trail after fewer than `DNS_MAX_ANSWERS` others. -/
def TerminalFits (qtype : UInt16) (name : DnsName) (trail : List Visit) : Prop :=
  ∃ index < dnsMaxAnswers, ∃ answer, (trail.flatMap Visit.accepted)[index]? = some answer ∧
    answersName name qtype answer = true

/-- The last server replied with NOERROR, no record of that type, no CNAME and no referral. -/
structure GenuineNodata (ask : Ask σ) (qtype : UInt16) (last : Visit) : Prop where
  asked : last.Asked ask qtype
  reply : ∃ d, dissect last.reply last.reply.length last.name last.zone dnsMaxAnswers = some d ∧
    d.rcode = dnsRcodeNoerror ∧ d.ref.ns = []
  missing : ¬ HoldsTerminal qtype last.name last.accepted
  final : ¬ HoldsCname last.name last.accepted

/-- The answers have a record of the last name if one is accepted before the array is full. -/
theorem Follows.holdsTerminal_iff
    (follows : Follows ask qtype hops dnsMaxAnswers name resolution) (terminal : DnsName) :
    HoldsTerminal qtype terminal resolution.ans ↔
      TerminalFits qtype terminal resolution.trail := by
  have ans : resolution.ans = (resolution.trail.flatMap Visit.accepted).take dnsMaxAnswers := by
    rw [follows.ans_eq, contributions_maxAnswers, List.map_take, map_snd_flatMap_sourced]
  rw [ans]
  constructor
  · rintro ⟨answer, member, owned⟩
    obtain ⟨index, found⟩ := List.mem_iff_getElem?.mp member
    rw [List.getElem?_take] at found
    obtain ⟨fits, found⟩ := (Option.ite_none_right_eq_some).mp found
    exact ⟨index, fits, answer, found, owned⟩
  · rintro ⟨index, fits, answer, found, owned⟩
    refine ⟨answer, List.mem_iff_getElem?.mpr ⟨index, ?_⟩, owned⟩
    rw [List.getElem?_take, if_pos fits, found]

/-- A resolution with NOERROR for a caller with the usual room. -/
theorem Follows.complete_iff (follows : Follows ask qtype hops dnsMaxAnswers name resolution)
    (noerror : resolution.rcode = dnsRcodeNoerror) :
    ∃ last, resolution.trail.getLast? = some last ∧
      (HoldsTerminal qtype last.name resolution.ans ∨ GenuineNodata ask qtype last ↔
        TerminalFits qtype last.name resolution.trail ∨
          ¬ HoldsTerminal qtype last.name last.accepted ∧ ¬ HoldsCname last.name last.accepted) ∧
      (¬ HoldsTerminal qtype last.name last.accepted → HoldsCname last.name last.accepted →
        resolution.trail.length = hops + 1 ∨
          ∃ answer ∈ last.accepted, answer.rdata = .cname DnsName.root) := by
  obtain ⟨last, room, d, final, read, ended⟩ := follows.ending
  have unanswered : ¬ HoldsTerminal qtype last.name last.accepted →
      d.rcode = dnsRcodeNoerror ∧ d.ref.ns = [] ∧
        (d.cname.chars = [] ∨ resolution.trail.length = hops + 1) := by
    intro missing
    rcases ended with nxdomain | found | empty
    · rw [noerror] at nxdomain
      cases nxdomain
    · obtain ⟨answer, member, owned⟩ := List.any_eq_true.mp found
      rw [read.answers] at member
      exact absurd ⟨answer, List.mem_of_mem_take member, owned⟩ missing
    · exact empty
  refine ⟨last, final, ?_, fun missing holds => ?_⟩
  · rw [follows.holdsTerminal_iff]
    refine or_congr Iff.rfl ⟨fun nodata => ⟨nodata.missing, nodata.final⟩, ?_⟩
    rintro ⟨missing, unfollowed⟩
    obtain ⟨empty, undelegated, _⟩ := unanswered missing
    obtain ⟨other, dissected, sameRef, sameRcode⟩ := dissect_room read.dissected dnsMaxAnswers
    exact ⟨read.asked, ⟨other, dissected, sameRcode.trans empty, by rw [sameRef, undelegated]⟩,
      missing, unfollowed⟩
  · obtain ⟨_, _, unfollowed⟩ := unanswered missing
    refine unfollowed.symm.imp_right fun empty => ?_
    obtain ⟨answer, member, _, kind⟩ := @foldl_cnameAfter _ DnsName.root _ holds
    rw [← read.cname] at kind
    have root : d.cname = DnsName.root := DnsName.ext empty
    exact ⟨answer, member, root ▸ kind⟩

end

/-- A call that resolved upstream hands back what it resolved. -/
theorem dnsResolve_resolution {β σ : Type} {bloom : BloomOps β} {ask : Ask σ} {roots : List Bytes}
    {call : ResolveCall} {cache next : CacheState β} {before after : σ} {resolved : Resolved}
    {resolution : Resolution}
    (called : dnsResolve bloom ask roots call cache before = some (resolved, next, after))
    (upstream : resolved.resolution = some resolution) :
    resolved = ⟨true, resolution.ans, resolution.rcode, some resolution⟩ ∧
      resolveFrom ask roots call.name call.qtype roots call.cap 0 0 before =
        (some resolution, after) := by
  unfold dnsResolve at called
  split at called
  · cases called
    cases upstream
  simp only [Option.bind_eq_bind, Option.bind_eq_some_iff] at called
  obtain ⟨⟨found, read⟩, _, called⟩ := called
  cases found with
  | some hit =>
      cases called
      cases upstream
  | none =>
      simp only at called
      split at called
      · cases called
        cases upstream
      · next made up made_eq =>
          obtain ⟨stored, _, same⟩ := Option.bind_eq_some_iff.mp called
          cases same
          cases upstream
          exact ⟨rfl, made_eq⟩

/-- **A positive answer is complete.** Whatever the servers reply, let `dns_resolve` with room for
`DNS_MAX_ANSWERS` records resolve upstream and return NOERROR. Then the answers hold a record of
the type asked for of the last name on the chain, or the last reply was a genuine NODATA, if
and only if such a record is accepted along the chain after fewer than `DNS_MAX_ANSWERS` others,
or the last reply has neither such a record nor a CNAME of the last name. A CNAME is left over
in the last reply only behind `MAX_CNAME_HOPS` others, or if it leads to the root. -/
theorem dnsResolve_complete_iff {β σ : Type} {bloom : BloomOps β} {ask : Ask σ}
    {roots : List Bytes} {call : ResolveCall} {cache next : CacheState β} {before after : σ}
    {resolved : Resolved} {resolution : Resolution}
    (called : dnsResolve bloom ask roots call cache before = some (resolved, next, after))
    (room : call.cap = dnsMaxAnswers) (upstream : resolved.resolution = some resolution)
    (noerror : resolved.rcode = dnsRcodeNoerror) :
    ∃ last, resolution.trail.getLast? = some last ∧
      (HoldsTerminal call.qtype last.name resolved.ans ∨ GenuineNodata ask call.qtype last ↔
        TerminalFits call.qtype last.name resolution.trail ∨
          ¬ HoldsTerminal call.qtype last.name last.accepted ∧
            ¬ HoldsCname last.name last.accepted) ∧
      (¬ HoldsTerminal call.qtype last.name last.accepted →
        HoldsCname last.name last.accepted →
          resolution.trail.length = maxCnameHops + 1 ∨
            ∃ answer ∈ last.accepted, answer.rdata = .cname DnsName.root) := by
  obtain ⟨rfl, resolves⟩ := dnsResolve_resolution called upstream
  rw [room] at resolves
  exact (resolveFrom_follows resolves).complete_iff noerror

/-! ## Chains of one-letter names -/

/-- The reply to a query for the address of a one-letter name: a CNAME to the next letter up to
`last`, which has an address. -/
def letterReply (last : UInt8) (name : DnsName) : Bytes :=
  match name.chars with
  | [letter] =>
      [0, 7, 0x80, 0, 0, 1, 0, 1, 0, 0, 0, 0, 1, letter, 0, 0, 1, 0, 1] ++
        if letter < last then
          [0xC0, 0x0C, 0, 5, 0, 1, 0, 0, 1, 44, 0, 3, 1, letter + 1, 0]
        else [0xC0, 0x0C, 0, 1, 0, 1, 0, 0, 1, 44, 0, 4, 192, 0, 2, 1]
  | _ => []

/-- Every server gives these replies. -/
def letterAsk (last : UInt8) : Ask Unit :=
  askVia fun _ name _ _ => (⟨some 7, true, [.datagram (letterReply last name)]⟩, ())

/-- A call for the address of "a". -/
def callForA : ResolveCall :=
  ⟨DnsName.ofText [97], dnsTypeA, dnsMaxAnswers, 0, 0, true⟩

/-- Two CNAMEs lead from "a" to "c", and the answer has the address of "c". -/
theorem dnsResolve_complete_iff_example :
    ∃ resolved next resolution last,
      dnsResolve disabledBloom (letterAsk 99) [inetNtop fun _ => 1] callForA
        (CacheState.start ()) () = some (resolved, next, ()) ∧
      resolved.resolution = some resolution ∧ resolution.trail.length = 3 ∧
      resolution.trail.getLast? = some last ∧ HoldsTerminal dnsTypeA last.name resolved.ans ∧
      (HoldsTerminal dnsTypeA last.name resolved.ans ∨ GenuineNodata (letterAsk 99) dnsTypeA last ↔
        TerminalFits dnsTypeA last.name resolution.trail ∨
          ¬ HoldsTerminal dnsTypeA last.name last.accepted ∧
            ¬ HoldsCname last.name last.accepted) := by
  have outcome : (dnsResolve disabledBloom (letterAsk 99) [inetNtop fun _ => 1] callForA
      (CacheState.start ()) ()).map (fun result => (result.1.rcode,
        result.1.resolution.map fun made => (made.trail.length, made.trail.getLast?.any fun last =>
          result.1.ans.any (answersName last.name dnsTypeA)))) =
      some (dnsRcodeNoerror, some (3, true)) := by
    decide +kernel
  obtain ⟨⟨resolved, next, ⟨⟩⟩, called, facts⟩ := Option.map_eq_some_iff.mp outcome
  obtain ⟨noerror, made⟩ := Prod.mk.inj facts
  obtain ⟨resolution, upstream, trail⟩ := Option.map_eq_some_iff.mp made
  obtain ⟨three, holds⟩ := Prod.mk.inj trail
  obtain ⟨last, final, complete, _⟩ := dnsResolve_complete_iff called rfl upstream noerror
  rw [final, Option.any_some] at holds
  exact ⟨resolved, next, resolution, last, called, upstream, three, final,
    List.any_eq_true.mp holds, complete⟩

/-- NOERROR, with neither a record of the last name nor a reply that says there is none. -/
structure Incomplete {σ : Type} (ask : Ask σ) (qtype : UInt16) (resolved : Resolved) : Prop where
  noerror : resolved.rcode = dnsRcodeNoerror
  lacking : ∃ resolution last, resolved.resolution = some resolution ∧
    resolution.trail.getLast? = some last ∧
    ¬ (HoldsTerminal qtype last.name resolved.ans ∨ GenuineNodata ask qtype last)

/-- The last reply holds a record or a CNAME of the last name that the answer lacks. -/
def losesTerminal (qtype : UInt16) (resolved : Resolved) : Bool :=
  match resolved.resolution.bind fun resolution => resolution.trail.getLast? with
  | none => false
  | some last =>
      resolved.rcode = dnsRcodeNoerror && !resolved.ans.any (answersName last.name qtype) &&
        last.accepted.any fun answer =>
          answersName last.name qtype answer || answersName last.name dnsTypeCname answer

/-- What the test finds is an incomplete answer. -/
theorem incomplete_of_losesTerminal {σ : Type} {ask : Ask σ} {qtype : UInt16} {resolved : Resolved}
    (loses : losesTerminal qtype resolved = true) : Incomplete ask qtype resolved := by
  unfold losesTerminal at loses
  split at loses
  · cases loses
  next last found =>
  obtain ⟨resolution, made, final⟩ := Option.bind_eq_some_iff.mp found
  simp only [Bool.and_eq_true, decide_eq_true_eq, Bool.not_eq_true', List.any_eq_false,
    List.any_eq_true, Bool.or_eq_true] at loses
  obtain ⟨⟨noerror, lacks⟩, answer, member, held⟩ := loses
  refine ⟨noerror, resolution, last, made, final, ?_⟩
  rintro (⟨terminal, returned, owned⟩ | nodata)
  · exact lacks terminal returned owned
  · rcases held with owned | cname
    · exact nodata.missing ⟨answer, member, owned⟩
    · obtain ⟨kind, owned⟩ := Bool.and_eq_true_iff.mp cname
      exact nodata.final ⟨answer, member, owned, DnsAnswer.cname_of_type (of_decide_eq_true kind)⟩

/-- What two calls for "a", one after the other, return. -/
def letterRun (last : UInt8) : Option (List Resolved) :=
  (resolveRun disabledBloom (letterAsk last) [inetNtop fun _ => 1] [callForA, callForA]
    (CacheState.start ()) ()).map fun run => run.1.map Prod.snd

/-- The first call returns eight CNAMEs without what they lead to, and the second one gets the
same from the cache. -/
def LosesTwice (last : UInt8) : Prop :=
  ∃ first second, letterRun last = some [first, second] ∧
    Incomplete (letterAsk last) dnsTypeA first ∧
    first.ans.map DnsAnswer.type = List.replicate 8 dnsTypeCname ∧
    second.ans.map DnsAnswer.type = List.replicate 8 dnsTypeCname ∧
    second.rcode = dnsRcodeNoerror ∧ second.resolution = none

/-- The two calls, from what they return. -/
theorem losesTwice_of_outcome {last : UInt8}
    (outcome : (letterRun last).map (List.map fun resolved =>
        (losesTerminal dnsTypeA resolved, resolved.ans.map DnsAnswer.type, resolved.rcode,
          resolved.resolution.isSome)) =
      some [(true, List.replicate 8 dnsTypeCname, dnsRcodeNoerror, true),
        (false, List.replicate 8 dnsTypeCname, dnsRcodeNoerror, false)]) : LosesTwice last := by
  obtain ⟨history, ran, facts⟩ := Option.map_eq_some_iff.mp outcome
  obtain ⟨first, rest, rfl, firstFacts, restFacts⟩ := List.map_eq_cons_iff.mp facts
  obtain ⟨second, nobody, rfl, secondFacts, ended⟩ := List.map_eq_cons_iff.mp restFacts
  cases List.map_eq_nil_iff.mp ended
  simp only [Prod.mk.injEq] at firstFacts secondFacts
  have missed : second.resolution = none := by simpa using secondFacts.2.2.2
  exact ⟨first, second, ran, incomplete_of_losesTerminal firstFacts.1, firstFacts.2.1,
    secondFacts.2.1, secondFacts.2.2.1, missed⟩

/-- Eight CNAMEs from "a" to "i" leave no room for the address of "i", although the last reply
holds it; and nine CNAMEs, one more than are followed, end in the same answer, although the
last reply holds the next CNAME. -/
theorem chain_limits_lose_terminal : LosesTwice 105 ∧ LosesTwice 106 := by
  constructor
  · apply losesTwice_of_outcome
    decide +kernel
  · apply losesTwice_of_outcome
    decide +kernel

end FizzDns
