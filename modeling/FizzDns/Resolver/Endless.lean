import FizzDns.Resolver.Work

/-!
# Servers that never stop sending

`SO_RCVTIMEO` limits one call of `recv`. The loop of `query_server` calls it again for every
datagram that is not a reply, so a server that keeps sending such datagrams holds the call for
as long as it likes. A `Session` is what `query_server` meets with a `recv` that may report
something for ever; it settles if one of the reports ends the loop.

The counters of `resolve_from` bound the queries and the nesting whatever the servers do, and
a resolution ends for all names and roots just if every session settles
(`resolveFrom_work_iff`). A `patience` for every query, up to which its reports are read, makes
that a statement about runs: a resolution ends if for some patience no query is left waiting.
-/

namespace FizzDns

/-- What `query_server` meets: the id it draws, whether the socket can be used, and what each
call of `recv` reports, where `none` is a timeout or another error. -/
structure Session where
  txid : Option UInt16
  connected : Bool
  recvs : Nat → Option Received

/-- What a report of `recv` does to the loop of `query_server`: an error or a datagram without a
full header ends the call with -1, a reply ends it with that reply, and after anything else
`recv` is called again. -/
def verdict (txid : UInt16) (name : DnsName) (qtype : UInt16) :
    Option Received → Option (Option Bytes)
  | none => some none
  | some .interrupted => none
  | some (.datagram bytes) =>
      if (bytes.take msgBuf).length < dnsHdrLen then some none
      else if isReply txid name qtype (bytes.take msgBuf) then some (some (bytes.take msgBuf))
      else none

/-- The receive loop of `query_server`, up to a number of calls of `recv`. -/
def receiveWithin (txid : UInt16) (name : DnsName) (qtype : UInt16) :
    (patience : Nat) → (recvs : Nat → Option Received) → Option (Option Bytes)
  | 0, _ => none
  | patience + 1, recvs =>
      (verdict txid name qtype (recvs 0)).or
        (receiveWithin txid name qtype patience fun n => recvs (n + 1))

/-- `query_server` in a session: `none` while it is still waiting. -/
def queryWithin (patience : Nat) (session : Session) (name : DnsName) (qtype : UInt16) :
    Option (Option Bytes) :=
  match session.txid with
  | none => some none
  | some txid =>
      match dnsBuildQuery txid name.chars qtype false dnsEdnsOurUdpPayload msgBuf with
      | none => some none
      | some _ =>
          if session.connected then receiveWithin txid name qtype patience session.recvs
          else some none

/-- Some report ends the loop, if it is entered. -/
def Session.Settles (session : Session) (name : DnsName) (qtype : UInt16) : Prop :=
  ∀ txid, session.txid = some txid →
    (dnsBuildQuery txid name.chars qtype false dnsEdnsOurUdpPayload msgBuf).isSome →
    session.connected = true → ∃ n, (verdict txid name qtype (session.recvs n)).isSome

section

variable {txid qtype : UInt16} {name : DnsName}

/-- The loop has ended once a report ended it. -/
theorem receiveWithin_isSome_iff (patience : Nat) (recvs : Nat → Option Received) :
    (receiveWithin txid name qtype patience recvs).isSome ↔
      ∃ n < patience, (verdict txid name qtype (recvs n)).isSome := by
  induction patience generalizing recvs with
  | zero => simp [receiveWithin]
  | succ patience ih =>
      rw [receiveWithin, Option.isSome_or, Bool.or_eq_true, ih]
      constructor
      · rintro (first | ⟨n, bound, ended⟩)
        · exact ⟨0, Nat.succ_pos _, first⟩
        · exact ⟨n + 1, Nat.succ_lt_succ bound, ended⟩
      · rintro ⟨n, bound, ended⟩
        cases n with
        | zero => exact .inl ended
        | succ n => exact .inr ⟨n, Nat.lt_of_succ_lt_succ bound, ended⟩

/-- What is delivered before a timeout is a session that settles, with the result of the
loop. -/
theorem receiveWithin_delivered (delivered : List Received) :
    receiveWithin txid name qtype (delivered.length + 1) (fun n => delivered[n]?) =
      some (receiveLoop txid name qtype delivered) := by
  induction delivered with
  | nil => rfl
  | cons received rest ih =>
      rw [List.length_cons, receiveWithin]
      simp only [List.getElem?_cons_zero, List.getElem?_cons_succ]
      rw [ih]
      cases received with
      | interrupted => rfl
      | datagram bytes =>
          rw [receiveLoop_datagram, verdict]
          split
          · rfl
          · split <;> rfl

/-- An exchange that ends with a timeout, as a session. -/
def Exchange.session (exchange : Exchange) : Session :=
  ⟨exchange.txid, exchange.connected, fun n => exchange.delivered[n]?⟩

/-- In it, `query_server` returns what the model with a finite delivery returns. -/
theorem queryWithin_session (exchange : Exchange) :
    queryWithin (exchange.delivered.length + 1) exchange.session name qtype =
      some (queryServer exchange.txid exchange.connected name qtype exchange.delivered) := by
  unfold queryWithin queryServer
  simp only [Exchange.session, receiveWithin_delivered]
  cases exchange.txid with
  | none => rfl
  | some txid =>
      simp only
      cases dnsBuildQuery txid name.chars qtype false dnsEdnsOurUdpPayload msgBuf with
      | none => rfl
      | some _ => cases exchange.connected <;> rfl

/-- `query_server` returns just if its session settles. -/
theorem queryWithin_isSome_iff (session : Session) (name : DnsName) (qtype : UInt16) :
    (∃ patience, (queryWithin patience session name qtype).isSome) ↔
      session.Settles name qtype := by
  unfold queryWithin Session.Settles
  cases session.txid with
  | none => simp
  | some txid =>
      simp only [Option.some.injEq, forall_eq']
      cases dnsBuildQuery txid name.chars qtype false dnsEdnsOurUdpPayload msgBuf with
      | none => simp
      | some _ =>
          cases session.connected with
          | false => simp
          | true =>
              simp only [↓reduceIte, receiveWithin_isSome_iff, Option.isSome_some, forall_const]
              constructor
              · rintro ⟨_, n, _, ended⟩
                exact ⟨n, ended⟩
              · rintro ⟨n, ended⟩
                exact ⟨n + 1, n, Nat.lt_succ_self n, ended⟩

end

/-! ## Resolutions that wait -/

/-- An upstream, with the calls of `query_server` counted and whether the last one is still
waiting. -/
structure Watched (σ : Type) where
  upstream : σ
  queries : Nat
  waiting : Bool

section

variable {σ : Type} (meet : Bytes → DnsName → UInt16 → σ → Session × σ)
  (patience : Bytes → DnsName → UInt16 → σ → Nat)

/-- Ask in sessions, each read up to its patience. A query that waits is the last one. -/
def watch : Ask (Watched σ) := fun server name qtype s =>
  if s.waiting then (none, s)
  else
    let (session, upstream) := meet server name qtype s.upstream
    match queryWithin (patience server name qtype s.upstream) session name qtype with
    | none => (none, ⟨s.upstream, s.queries + 1, true⟩)
    | some reply => (reply, ⟨upstream, s.queries + 1, false⟩)

/-- `resolve_from` for a name, from the roots. -/
def watchedFrom (roots : List Bytes) (name : DnsName) (qtype : UInt16) (ansCap : Nat)
    (s : σ) : Option Resolution × Watched σ × Nesting :=
  nestedFrom (watch meet patience) roots name qtype roots ansCap 0 0 (⟨s, 0, false⟩, .none)

variable {meet patience}

/-- The watch counts the queries. -/
theorem watch_counts :
    (Charge.measure Watched.queries).ForAsk (watch meet patience) := by
  intro server name qtype _ s
  change (watch meet patience server name qtype s).2.queries ≤ s.queries + 1
  unfold watch
  split
  · exact Nat.le_succ _
  · simp only
    split <;> exact Nat.le_refl _

/-- No query waits if every session is read for long enough. -/
theorem watch_returns
    (long : ∀ server name qtype s, server.length < inetAddrstrlen →
      (queryWithin (patience server name qtype s) (meet server name qtype s).1 name qtype).isSome) :
    (Charge.keeps fun s => s.waiting = false).ForAsk (watch meet patience) := by
  intro server name qtype short s returned
  have ended := long server name qtype s.upstream short
  unfold watch
  rw [if_neg (by simp [returned])]
  simp only
  split
  · next waiting =>
      rw [waiting] at ended
      cases ended
  · rfl

/-- A server that does not settle holds the resolution that asks it first. -/
theorem watchedFrom_waits {server : Bytes} {name : DnsName} {qtype : UInt16} {s : σ}
    (short : server.length < inetAddrstrlen)
    (endless : ¬ (meet server name qtype s).1.Settles name qtype) (ansCap : Nat) :
    (watchedFrom meet patience [server] name qtype ansCap s).2.1.waiting = true := by
  have waiting : queryWithin (patience server name qtype s) (meet server name qtype s).1 name
      qtype = none := by
    apply Option.not_isSome_iff_eq_none.mp
    intro ended
    exact endless ((queryWithin_isSome_iff _ _ _).mp ⟨_, ended⟩)
  have address : copyAddr server = server := List.take_of_length_le (Nat.le_sub_one_of_lt short)
  have asked : watch meet patience server name qtype ⟨s, 0, false⟩ = (none, ⟨s, 1, true⟩) := by
    simp [watch, waiting]
  rw [watchedFrom, nestedFrom]
  simp only [Nesting.call, maxReferrals, resolveLevels, levelStep, Level.first, maxNsCandidates,
    List.take_succ_cons, List.take_nil, List.map_cons, List.map_nil, address, tryServers,
    Ask.nested, asked]

end

/-- **Bounded work.** Whatever the servers do, `resolve_from` opens no more than
`(MAX_NS_DEPTH + 1) * (MAX_CNAME_HOPS + 1)` activations at a time and calls `query_server` no
more than `queryBound 0 0` times. For all names and roots it returns, if and only if every server
settles every session. -/
theorem resolveFrom_work_iff {σ : Type} (meet : Bytes → DnsName → UInt16 → σ → Session × σ) :
    (∀ patience roots name qtype ansCap s,
      (watchedFrom meet patience roots name qtype ansCap s).2.2.peak ≤
        (maxNsDepth + 1) * (maxCnameHops + 1) ∧
      (watchedFrom meet patience roots name qtype ansCap s).2.1.queries ≤ queryBound 0 0) ∧
    ((∀ roots name qtype ansCap s, ∃ patience,
        (watchedFrom meet patience roots name qtype ansCap s).2.1.waiting = false) ↔
      ∀ server name qtype s, server.length < inetAddrstrlen →
        (meet server name qtype s).1.Settles name qtype) := by
  refine ⟨?_, ?_, ?_⟩
  · intro patience roots name qtype ansCap s
    obtain ⟨queries, _, peak⟩ := @nestedFrom_spends _ _ roots _ (@watch_counts _ meet patience)
      name qtype roots ansCap 0 0 (⟨s, 0, false⟩, .none)
    refine ⟨peak, queries.trans ?_⟩
    rw [Nat.zero_add]
  · intro returns server name qtype s short
    by_contra endless
    obtain ⟨patience, returned⟩ := returns [server] name qtype 0 s
    rw [watchedFrom_waits short endless] at returned
    cases returned
  · intro settles roots name qtype ansCap s
    have ends : ∀ server name qtype s, ∃ patience, server.length < inetAddrstrlen →
        (queryWithin patience (meet server name qtype s).1 name qtype).isSome := by
      intro server name qtype s
      by_cases short : server.length < inetAddrstrlen
      · obtain ⟨patience, ended⟩ :=
          (queryWithin_isSome_iff _ _ _).mpr (settles server name qtype s short)
        exact ⟨patience, fun _ => ended⟩
      · exact ⟨0, fun within => absurd within short⟩
    choose patience long using ends
    refine ⟨patience, ?_⟩
    exact (@nestedFrom_spends _ _ roots _ (watch_returns long) name qtype roots ansCap 0 0
      (⟨s, 0, false⟩, .none)).1 rfl

/-- A server that answers every query with datagrams of twelve zero bytes. -/
def endlessZeros : Bytes → DnsName → UInt16 → Unit → Session × Unit :=
  fun _ _ _ s => (⟨some 7, true, fun _ => some (.datagram (List.replicate 12 0))⟩, s)

/-- A header that is not a reply keeps `query_server` waiting, as often as it comes, so with this
server the resolution of "a" from the root 1.1.1.1 never returns. -/
theorem endless_zeros_hold :
    ¬ ∃ patience, (watchedFrom endlessZeros patience [[49, 46, 49, 46, 49, 46, 49]]
      (DnsName.ofText [97]) dnsTypeA dnsMaxAnswers ()).2.1.waiting = false := by
  have ignored : verdict 7 (DnsName.ofText [97]) dnsTypeA
      (some (.datagram (List.replicate 12 0))) = none := by decide
  rintro ⟨patience, returned⟩
  rw [watchedFrom_waits (by decide)] at returned
  · cases returned
  · intro settles
    obtain ⟨n, ended⟩ := settles 7 rfl (by decide) rfl
    rw [endlessZeros, ignored] at ended
    cases ended

end FizzDns
