import FizzDns.Resolver.Chain
import FizzDns.Resolver.Resolve

/-!
# The trail of a resolution

A call of `resolve_from` that returns 0 ends in one of four ways: the name is denied, it is
answered, it is known to have no such record, or a CNAME of it was followed. `Follows` says
so with everything that is known in each case, whatever the servers reply and however the
addresses of name servers were found (`resolveFrom_follows`). What holds of resolutions is
then shown by induction on it.

The answers are those that the replies on the trail were believed, one reply after the
other, as far as there is room (`Follows.ans_eq`).
-/

namespace FizzDns

/-- The records that `dissect` accepted from the reply. -/
def Visit.accepted (visit : Visit) : List DnsAnswer :=
  acceptedRecords visit.reply visit.name visit.zone

section

variable {σ : Type} {ask : Ask σ} {roots : List Bytes} {qtype : UInt16} {name : DnsName}
  {hops ansCap : Nat} {resolution : Resolution} {visit : Visit} {d : Dissection}

/-- The message was the reply of some server to a query for the name. -/
def Visit.Asked (ask : Ask σ) (qtype : UInt16) (visit : Visit) : Prop :=
  ∃ server before after, ask server visit.name qtype before = (some visit.reply, after)

/-- A visit that ended a loop, and what its reply was dissected to. -/
structure Visit.Read (ask : Ask σ) (qtype : UInt16) (ansCap : Nat) (visit : Visit)
    (d : Dissection) : Prop where
  asked : visit.Asked ask qtype
  dissected : dissect visit.reply visit.reply.length visit.name visit.zone ansCap = some d

/-- The answers that are read are the accepted ones, as far as there is room. -/
theorem Visit.Read.answers (read : visit.Read ask qtype ansCap d) :
    d.answers = visit.accepted.take ansCap :=
  (dissect_accepts read.dissected).1

/-- The CNAME that is read is the last one of the name. -/
theorem Visit.Read.cname (read : visit.Read ask qtype ansCap d) :
    d.cname = visit.accepted.foldl (cnameAfter visit.name) DnsName.root :=
  (dissect_accepts read.dissected).2.1

/-- What is accepted is in the zone and reached from the name. -/
theorem Visit.Read.believed (read : visit.Read ask qtype ansCap d) {answer : DnsAnswer}
    (member : answer ∈ visit.accepted) :
    dnsNameInBailiwick answer.owner.chars visit.zone.chars = true ∧
      Reaches visit.accepted visit.name.chars answer.owner.chars :=
  (dissect_accepts read.dissected).2.2 answer member

/-- The CNAME to chase leads from the name that was asked for. -/
theorem Visit.Read.link (read : visit.Read ask qtype ansCap d) (cname : d.cname.chars ≠ []) :
    CnameLink visit.accepted (foldCase visit.name.chars) (foldCase d.cname.chars) := by
  have holds : HoldsCname visit.name visit.accepted := by
    by_contra absent
    rw [read.cname, foldl_cnameAfter_of_none absent] at cname
    exact cname rfl
  obtain ⟨link, inside, owned, kind⟩ := @foldl_cnameAfter _ DnsName.root _ holds
  rw [← read.cname] at kind
  exact ⟨link, inside, d.cname, kind, (dnsNameEqual_iff _ _).mp owned, rfl⟩

/-- How a call of `resolve_from` for a name, with `hops` more CNAMEs to follow, returns 0. -/
inductive Follows (ask : Ask σ) (qtype : UInt16) :
    (hops ansCap : Nat) → (name : DnsName) → Resolution → Prop
  | denied {hops ansCap : Nat} {visit : Visit} {d : Dissection}
      (read : visit.Read ask qtype ansCap d)
      (nxdomain : d.rcode = dnsRcodeNxdomain) :
      Follows ask qtype hops ansCap visit.name ⟨d.answers, d.rcode, [visit]⟩
  | answered {hops ansCap : Nat} {visit : Visit} {d : Dissection}
      (read : visit.Read ask qtype ansCap d)
      (found : d.answers.any (answersName visit.name qtype) = true) :
      Follows ask qtype hops ansCap visit.name ⟨d.answers, dnsRcodeNoerror, [visit]⟩
  | nodata {hops ansCap : Nat} {visit : Visit} {d : Dissection}
      (read : visit.Read ask qtype ansCap d)
      (noerror : d.rcode = dnsRcodeNoerror)
      (missing : d.answers.any (answersName visit.name qtype) = false)
      (unfollowed : d.cname.chars = [] ∨ hops = 0) (undelegated : d.ref.ns = []) :
      Follows ask qtype hops ansCap visit.name ⟨d.answers, d.rcode, [visit]⟩
  | chased {hops ansCap : Nat} {visit : Visit} {d : Dissection} {tail : Resolution}
      (read : visit.Read ask qtype ansCap d)
      (missing : d.answers.any (answersName visit.name qtype) = false)
      (cname : d.cname.chars ≠ []) (rest : Follows ask qtype hops dnsMaxAnswers d.cname tail) :
      Follows ask qtype (hops + 1) ansCap visit.name
        ⟨d.answers ++ tail.ans.take (ansCap - d.answers.length), tail.rcode, visit :: tail.trail⟩

/-- A property of what is handed back that holds after a single visit, and after a CNAME was
followed if it holds of the tail, holds of every call that returns 0. -/
@[elab_as_elim]
theorem Follows.unwind
    {motive : ∀ name hops ansCap resolution, Follows ask qtype hops ansCap name resolution → Prop}
    (follows : Follows ask qtype hops ansCap name resolution)
    (last : ∀ {hops ansCap visit d rcode} (_read : Visit.Read ask qtype ansCap visit d)
      (ended : Follows ask qtype hops ansCap visit.name ⟨d.answers, rcode, [visit]⟩),
      motive visit.name hops ansCap ⟨d.answers, rcode, [visit]⟩ ended)
    (chased : ∀ {hops ansCap visit d tail} (_read : Visit.Read ask qtype ansCap visit d)
      (_cname : d.cname.chars ≠ []) (rest : Follows ask qtype hops dnsMaxAnswers d.cname tail)
      (ended : Follows ask qtype (hops + 1) ansCap visit.name
        ⟨d.answers ++ tail.ans.take (ansCap - d.answers.length), tail.rcode, visit :: tail.trail⟩),
      motive d.cname hops dnsMaxAnswers tail rest →
      motive visit.name (hops + 1) ansCap
        ⟨d.answers ++ tail.ans.take (ansCap - d.answers.length), tail.rcode, visit :: tail.trail⟩
        ended) :
    motive name hops ansCap resolution follows := by
  induction follows with
  | denied read nxdomain => exact last read (.denied read nxdomain)
  | answered read found => exact last read (.answered read found)
  | nodata read noerror missing unfollowed undelegated =>
      exact last read (.nodata read noerror missing unfollowed undelegated)
  | chased read missing cname rest ih =>
      exact chased read cname rest (.chased read missing cname rest) ih

/-- The reply that ends the loop over the servers was read. -/
theorem tryServers_read {zone : DnsName} {servers : List Bytes} {before after : σ} {resp : Bytes}
    (tried : tryServers ask name qtype zone ansCap servers before = (some (d, resp), after)) :
    Visit.Read ask qtype ansCap ⟨name, zone, resp⟩ d := by
  induction servers generalizing before with
  | nil => cases tried
  | cons server rest ih =>
      rw [tryServers] at tried
      split at tried
      · exact ih tried
      · next reply between asked =>
          split at tried
          · exact ih tried
          · next dissection dissected =>
              cases tried
              exact ⟨⟨server, before, after, asked⟩, dissected⟩

/-- Following a referral does not finish a resolution. -/
theorem descend_not_finished {nsAddr : DnsName → σ → Option Bytes × σ} {ref : Referral}
    {before after : σ} : descend nsAddr visit ref before ≠ (.finished resolution, after) := by
  unfold descend
  simp only
  split
  · simp
  · split <;> simp

/-- A turn that ends the loop with 0. -/
theorem levelStep_follows {chase : Option (DnsName → σ → Option Resolution × σ)}
    {nsAddr : DnsName → σ → Option Bytes × σ} {level : Level} {before after : σ}
    (none_left : chase = none → hops = 0)
    (chasing : ∀ follow, chase = some follow → ∃ left, hops = left + 1 ∧
      ∀ cname s tail s', follow cname s = (some tail, s') →
        Follows ask qtype left dnsMaxAnswers cname tail)
    (stepped : levelStep ask chase nsAddr name qtype ansCap level before =
      (.finished resolution, after)) :
    Follows ask qtype hops ansCap name resolution := by
  unfold levelStep at stepped
  split at stepped
  · cases stepped
  next d resp between tried =>
  have read := tryServers_read tried
  simp only at stepped
  split at stepped
  · next nxdomain =>
      cases stepped
      exact .denied read nxdomain
  split at stepped
  · next found =>
      cases stepped
      exact .answered read found
  next missing =>
  rw [Bool.not_eq_true] at missing
  split at stepped
  · next follow followed =>
      obtain ⟨cname, chased⟩ := (Option.ite_none_left_eq_some).mp followed
      obtain ⟨left, rfl, tails⟩ := chasing follow chased
      split at stepped
      · cases stepped
      · next tail last resolved =>
          cases stepped
          exact .chased read missing cname (tails _ _ _ _ resolved)
  · next unfollowed =>
      split at stepped
      · next undelegated =>
          split at stepped
          · next noerror =>
              cases stepped
              refine .nodata read noerror missing ?_ undelegated
              by_cases cname : d.cname.chars = []
              · exact Or.inl cname
              · rw [if_neg cname] at unfollowed
                exact Or.inr (none_left unfollowed)
          · cases stepped
      · exact absurd stepped descend_not_finished

/-- The levels of one name follow its chain, if what they call does. -/
theorem resolveLevels_follows {chase : Option (DnsName → σ → Option Resolution × σ)}
    {nsAddr : DnsName → σ → Option Bytes × σ} {turns : Nat} {level : Level} {before after : σ}
    (none_left : chase = none → hops = 0)
    (chasing : ∀ follow, chase = some follow → ∃ left, hops = left + 1 ∧
      ∀ cname s tail s', follow cname s = (some tail, s') →
        Follows ask qtype left dnsMaxAnswers cname tail)
    (resolved : resolveLevels ask chase nsAddr name qtype ansCap turns level before =
      (some resolution, after)) :
    Follows ask qtype hops ansCap name resolution := by
  induction turns generalizing level before with
  | zero => cases resolved
  | succ turns ih =>
      rw [resolveLevels] at resolved
      split at resolved
      · cases resolved
      · next last between stepped =>
          cases resolved
          exact levelStep_follows none_left chasing stepped
      · exact ih resolved

/-- So do the levels with all the CNAMEs that they follow. -/
theorem resolveHops_follows {nsAddr : DnsName → σ → Option Bytes × σ} {servers : List Bytes}
    {before after : σ}
    (resolved : resolveHops ask roots nsAddr qtype hops servers name ansCap before =
      (some resolution, after)) :
    Follows ask qtype hops ansCap name resolution := by
  induction hops generalizing servers name ansCap before after resolution with
  | zero => exact resolveLevels_follows (fun _ => rfl) (fun _ none => by cases none) resolved
  | succ hops ih =>
      refine resolveLevels_follows (fun none => by cases none) (fun follow same => ?_) resolved
      cases same
      exact ⟨hops, rfl, fun cname s tail s' chased => ih chased⟩

/-- Every call of `resolve_from` that returns 0, at any nesting, ends in one of the ways of
`Follows`. -/
theorem resolveFrom_follows {servers : List Bytes} {nsDepth cnameHops : Nat} {before after : σ}
    (resolved : resolveFrom ask roots name qtype servers ansCap nsDepth cnameHops before =
      (some resolution, after)) :
    Follows ask qtype (maxCnameHops - cnameHops) ansCap name resolution :=
  resolveHops_follows resolved

end

/-! ## The answers along a trail -/

/-- The records accepted from the reply, with where they come from. -/
def Visit.sourced (visit : Visit) : List (Visit × DnsAnswer) :=
  visit.accepted.map fun answer => (visit, answer)

/-- What the replies contribute to the answers: the first one as much as the caller has room
for, the later ones together at most `DNS_MAX_ANSWERS`. -/
def contributions (ansCap : Nat) : List Visit → List (Visit × DnsAnswer)
  | [] => []
  | first :: rest =>
      first.sourced.take ansCap ++
        (rest.flatMap Visit.sourced).take (min dnsMaxAnswers (ansCap - first.accepted.length))

/-- With the usual room, the replies contribute the first `DNS_MAX_ANSWERS` records. -/
theorem contributions_maxAnswers (trail : List Visit) :
    contributions dnsMaxAnswers trail = (trail.flatMap Visit.sourced).take dnsMaxAnswers := by
  cases trail with
  | nil => rfl
  | cons first rest =>
      have length : first.sourced.length = first.accepted.length := List.length_map _
      rw [contributions, Nat.min_eq_right (Nat.sub_le _ _), List.flatMap_cons, List.take_append,
        length]

theorem Visit.map_snd_sourced (visit : Visit) : visit.sourced.map Prod.snd = visit.accepted := by
  rw [Visit.sourced, List.map_map]
  exact List.map_id _

theorem map_snd_flatMap_sourced (trail : List Visit) :
    (trail.flatMap Visit.sourced).map Prod.snd = trail.flatMap Visit.accepted := by
  rw [List.map_flatMap]
  exact List.flatMap_congr fun visit _ => visit.map_snd_sourced

section

variable {σ : Type} {ask : Ask σ} {qtype : UInt16} {name : DnsName} {hops ansCap : Nat}
  {resolution : Resolution}

/-- The answers are what the replies on the trail contribute. -/
theorem Follows.ans_eq (follows : Follows ask qtype hops ansCap name resolution) :
    resolution.ans = (contributions ansCap resolution.trail).map Prod.snd := by
  induction follows using Follows.unwind with
  | last read _ => simpa [contributions, Visit.map_snd_sourced] using read.answers
  | @chased _ ansCap visit d tail read _ _ _ ih =>
      have room : ansCap - d.answers.length = ansCap - visit.accepted.length := by
        rw [read.answers, List.length_take]
        omega
      rw [contributions_maxAnswers] at ih
      rw [contributions, List.map_append, List.map_take, visit.map_snd_sourced, room, read.answers,
        ih, ← List.map_take, List.take_take, Nat.min_comm]

/-- What is contributed keeps the order of the replies. -/
theorem contributions_sublist (ansCap : Nat) (trail : List Visit) :
    (contributions ansCap trail).Sublist (trail.flatMap Visit.sourced) := by
  cases trail with
  | nil => exact List.Sublist.slnil
  | cons first rest =>
      rw [contributions, List.flatMap_cons]
      exact (List.take_sublist _ _).append (List.take_sublist _ _)

/-- No more answers are returned than the caller has room for. -/
theorem Follows.length_le (follows : Follows ask qtype hops ansCap name resolution) :
    resolution.ans.length ≤ ansCap := by
  induction follows using Follows.unwind with
  | last read _ =>
      rw [read.answers, List.length_take]
      exact Nat.min_le_left _ _
  | chased read _ _ _ _ =>
      have own := congrArg List.length read.answers
      simp only [List.length_append, List.length_take] at own ⊢
      omega

/-- Whatever rcodes the servers set, a call that returns 0 reports NOERROR or NXDOMAIN. -/
theorem Follows.rcode_eq (follows : Follows ask qtype hops ansCap name resolution) :
    resolution.rcode = dnsRcodeNoerror ∨ resolution.rcode = dnsRcodeNxdomain := by
  induction follows with
  | denied _ nxdomain => exact Or.inr nxdomain
  | answered _ _ => exact Or.inl rfl
  | nodata _ noerror _ _ _ => exact Or.inl noerror
  | chased _ _ _ _ ih => exact ih

/-- A resolution has read a reply. -/
theorem Follows.trail_ne_nil (follows : Follows ask qtype hops ansCap name resolution) :
    resolution.trail ≠ [] := by
  cases follows <;> simp

end

end FizzDns
