import FizzDns.Resolver.Dissect
import FizzDns.Resolver.QueryServer
import FizzDns.Cache.Store

/-!
# Resolution from the roots

`resolve_from`, `resolve_ns_addr` and `dns_resolve`. What a server replies to a query is
decided by `ask`, which carries a state of its own, so that every reply may depend on all
earlier queries; `askVia` is the instance that goes through `query_server`.

`resolve_from` calls itself for a CNAME, with one more hop, and through `resolve_ns_addr` for
the address of a name server, one level deeper and with all hops. Both counters have a limit.
`resolveHops` and `resolveDepth` recurse on what is left of them; `resolveFrom_eq` and
`resolveNsAddr_eq` are the recursion of the source.

Besides the answers and the rcode, a resolution carries its trail (`Visit`): of every call of
`resolve_from` along the CNAMEs that were followed, the name, the zone and the reply that
ended its loop. The trail is for reasoning only; nothing reads it.
-/

namespace FizzDns

/-- `MAX_REFERRALS`. -/
def maxReferrals : Nat := 16

/-- `MAX_NS_DEPTH`. -/
def maxNsDepth : Nat := 3

/-- `INET_ADDRSTRLEN`. -/
def inetAddrstrlen : Nat := 16

/-- `snprintf` of an address into a `char[INET_ADDRSTRLEN]`. -/
def copyAddr (addr : Bytes) : Bytes :=
  addr.take (inetAddrstrlen - 1)

/-- What becomes of a query to a server: the reply, or `none` when `query_server` fails. -/
abbrev Ask (σ : Type) := (server : Bytes) → (name : DnsName) → (qtype : UInt16) → σ →
  Option Bytes × σ

/-- What `query_server` meets: the id it draws, whether the socket can be used, and what is
delivered to it. -/
structure Exchange where
  txid : Option UInt16
  connected : Bool
  delivered : List Received

/-- Ask through `query_server`. -/
def askVia {σ : Type} (meet : Bytes → DnsName → UInt16 → σ → Exchange × σ) : Ask σ :=
  fun server name qtype s =>
    let (exchange, s) := meet server name qtype s
    (queryServer exchange.txid exchange.connected name qtype exchange.delivered, s)

/-- A reply that ended the loop of `resolve_from`: the name asked for, the zone held as
current and the message. -/
structure Visit where
  name : DnsName
  zone : DnsName
  reply : Bytes
  deriving DecidableEq

/-- What `resolve_from` hands back when it returns 0, and its trail. -/
structure Resolution where
  ans : List DnsAnswer
  rcode : Nat
  trail : List Visit
  deriving DecidableEq

/-- The state of the loop of `resolve_from`. -/
structure Level where
  current : List Bytes
  zone : DnsName
  deriving DecidableEq

/-- How a turn of the loop ends: with -1, with 0, or with the next level, to which the referral
of a reply led. -/
inductive LevelEnd where
  | failed
  | finished (resolution : Resolution)
  | down (current : List Bytes) (visit : Visit) (ref : Referral)
  deriving DecidableEq

section

variable {σ : Type} (ask : Ask σ) (roots : List Bytes)

/-- Try the servers of a level until one of them gives a reply that can be dissected. -/
def tryServers (name : DnsName) (qtype : UInt16) (zone : DnsName) (ansCap : Nat) :
    List Bytes → σ → Option (Dissection × Bytes) × σ
  | [], s => (none, s)
  | server :: rest, s =>
      match ask server name qtype s with
      | (none, s) => tryServers name qtype zone ansCap rest s
      | (some resp, s) =>
          match dissect resp resp.length name zone ansCap with
          | none => tryServers name qtype zone ansCap rest s
          | some d => (some (d, resp), s)

/-- Resolve the first of the server names that can be resolved. -/
def firstAddr (nsAddr : DnsName → σ → Option Bytes × σ) : List NsCandidate → σ → Option Bytes × σ
  | [], s => (none, s)
  | candidate :: rest, s =>
      match nsAddr candidate.name s with
      | (none, s) => firstAddr nsAddr rest s
      | (some addr, s) => (some addr, s)

/-- The answer is there: a record of the type asked for, owned by the name. -/
def answersName (name : DnsName) (qtype : UInt16) (answer : DnsAnswer) : Bool :=
  answer.type = qtype && dnsNameEqual answer.owner.chars name.chars

/-- The part of a turn that follows a referral. -/
def descend (nsAddr : DnsName → σ → Option Bytes × σ) (visit : Visit) (ref : Referral) (s : σ) :
    LevelEnd × σ :=
  let glue := (ref.ns.filterMap NsCandidate.addr).take maxNsCandidates
  if glue ≠ [] then (.down (glue.map copyAddr) visit ref, s)
  else
    match firstAddr nsAddr ref.ns s with
    | (none, s) => (.failed, s)
    | (some addr, s) => (.down [copyAddr addr] visit ref, s)

/-- One turn of the loop of `resolve_from`. `chase` resolves the target of a CNAME; it is
absent when the hops are used up. -/
def levelStep (chase : Option (DnsName → σ → Option Resolution × σ))
    (nsAddr : DnsName → σ → Option Bytes × σ) (name : DnsName) (qtype : UInt16) (ansCap : Nat)
    (level : Level) (s : σ) : LevelEnd × σ :=
  match tryServers ask name qtype level.zone ansCap level.current s with
  | (none, s) => (.failed, s)
  | (some (d, resp), s) =>
      let visit : Visit := ⟨name, level.zone, resp⟩
      if d.rcode = dnsRcodeNxdomain then (.finished ⟨d.answers, d.rcode, [visit]⟩, s)
      else if d.answers.any (answersName name qtype) then
        (.finished ⟨d.answers, dnsRcodeNoerror, [visit]⟩, s)
      else
        match if d.cname.chars = [] then none else chase with
        | some follow =>
            match follow d.cname s with
            | (none, s) => (.failed, s)
            | (some tail, s) =>
                (.finished ⟨d.answers ++ tail.ans.take (ansCap - d.answers.length), tail.rcode,
                  visit :: tail.trail⟩, s)
        | none =>
            if d.ref.ns = [] then
              if d.rcode = dnsRcodeNoerror then (.finished ⟨d.answers, d.rcode, [visit]⟩, s)
              else (.failed, s)
            else descend nsAddr visit d.ref s

/-- The loop of `resolve_from`, with the number of turns that are left. -/
def resolveLevels (chase : Option (DnsName → σ → Option Resolution × σ))
    (nsAddr : DnsName → σ → Option Bytes × σ) (name : DnsName) (qtype : UInt16) (ansCap : Nat) :
    (turns : Nat) → Level → σ → Option Resolution × σ
  | 0, _, s => (none, s)
  | turns + 1, level, s =>
      match levelStep ask chase nsAddr name qtype ansCap level s with
      | (.failed, s) => (none, s)
      | (.finished resolution, s) => (some resolution, s)
      | (.down current _ ref, s) =>
          resolveLevels chase nsAddr name qtype ansCap turns ⟨current, ref.zone⟩ s

/-- The first level: the servers that were given, for the root zone. -/
def Level.first (servers : List Bytes) : Level :=
  ⟨(servers.take maxNsCandidates).map copyAddr, DnsName.root⟩

/-- `resolve_from` with `hops` more CNAMEs to follow. -/
def resolveHops (nsAddr : DnsName → σ → Option Bytes × σ) (qtype : UInt16) :
    (hops : Nat) → (servers : List Bytes) → (name : DnsName) → (ansCap : Nat) → σ →
      Option Resolution × σ
  | 0, servers, name, ansCap, s =>
      resolveLevels ask none nsAddr name qtype ansCap maxReferrals (.first servers) s
  | hops + 1, servers, name, ansCap, s =>
      resolveLevels ask
        (some fun cname => resolveHops nsAddr qtype hops roots cname dnsMaxAnswers) nsAddr name
        qtype ansCap maxReferrals (.first servers) s

/-- The first address among some answers. -/
def firstAddress (ans : List DnsAnswer) : Option Bytes :=
  ans.findSome? fun answer =>
    match answer.rdata with
    | .a octets => some (inetNtop octets)
    | _ => none

/-- `resolve_ns_addr` with `depth` more levels of nesting. -/
def resolveDepth : (depth : Nat) → (nsName : DnsName) → σ → Option Bytes × σ
  | 0, _, s => (none, s)
  | depth + 1, nsName, s =>
      match resolveHops ask roots (resolveDepth depth) dnsTypeA maxCnameHops roots nsName
        dnsMaxAnswers s with
      | (none, s) => (none, s)
      | (some resolution, s) => (firstAddress resolution.ans, s)

/-- `resolve_ns_addr`. -/
def resolveNsAddr (nsName : DnsName) (nsDepth : Nat) : σ → Option Bytes × σ :=
  resolveDepth ask roots (maxNsDepth - nsDepth) nsName

/-- `resolve_from`. -/
def resolveFrom (name : DnsName) (qtype : UInt16) (servers : List Bytes) (ansCap : Nat)
    (nsDepth cnameHops : Nat) : σ → Option Resolution × σ :=
  resolveHops ask roots (fun nsName => resolveNsAddr ask roots nsName nsDepth) qtype
    (maxCnameHops - cnameHops) servers name ansCap

/-- `resolve_from` runs its loop; a CNAME is followed by a call with one more hop. -/
theorem resolveFrom_eq (name : DnsName) (qtype : UInt16) (servers : List Bytes) (ansCap : Nat)
    (nsDepth cnameHops : Nat) (s : σ) :
    resolveFrom ask roots name qtype servers ansCap nsDepth cnameHops s =
      resolveLevels ask
        (if cnameHops < maxCnameHops then
          some fun cname =>
            resolveFrom ask roots cname qtype roots dnsMaxAnswers nsDepth (cnameHops + 1)
        else none)
        (fun nsName => resolveNsAddr ask roots nsName nsDepth) name qtype ansCap maxReferrals
        (.first servers) s := by
  split
  · next more =>
      obtain ⟨left, budget⟩ : ∃ left, maxCnameHops - cnameHops = left + 1 :=
        ⟨maxCnameHops - cnameHops - 1, by omega⟩
      have rest : maxCnameHops - (cnameHops + 1) = left := by omega
      simp only [resolveFrom, budget, rest]
      rfl
  · next used =>
      have budget : maxCnameHops - cnameHops = 0 := by omega
      simp only [resolveFrom, budget]
      rfl

/-- `resolve_ns_addr` resolves an address from the roots, one level deeper. -/
theorem resolveNsAddr_eq (nsName : DnsName) (nsDepth : Nat) (s : σ) :
    resolveNsAddr ask roots nsName nsDepth s =
      if nsDepth ≥ maxNsDepth then (none, s)
      else
        match resolveFrom ask roots nsName dnsTypeA roots dnsMaxAnswers (nsDepth + 1) 0 s with
        | (none, s) => (none, s)
        | (some resolution, s) => (firstAddress resolution.ans, s) := by
  unfold resolveNsAddr
  split
  · next deep =>
      have budget : maxNsDepth - nsDepth = 0 := by omega
      rw [budget]
      rfl
  · next shallow =>
      obtain ⟨left, budget⟩ : ∃ left, maxNsDepth - nsDepth = left + 1 :=
        ⟨maxNsDepth - nsDepth - 1, by omega⟩
      have rest : maxNsDepth - (nsDepth + 1) = left := by omega
      simp only [budget, resolveFrom, resolveNsAddr, rest, Nat.sub_zero]
      rfl

end

/-! ## The entry point -/

/-- The arguments of a call of `dns_resolve`, with what it meets: the clock when the cache is
read and when it is written, and whether an allocation succeeds. -/
structure ResolveCall where
  name : DnsName
  qtype : UInt16
  cap : Nat
  readAt : Int
  storedAt : Int
  allocates : Bool

/-- What `dns_resolve` hands back: whether it returned 0, the answers and the rcode, and the
resolution that was made for it, if any. -/
structure Resolved where
  ok : Bool
  ans : List DnsAnswer
  rcode : Nat
  resolution : Option Resolution
  deriving DecidableEq

section

variable {β σ : Type} (bloom : BloomOps β) (ask : Ask σ) (roots : List Bytes)

/-- What `dns_resolve` stores of a resolution. -/
def storeResolution (call : ResolveCall) (resolution : Resolution) (cache : CacheState β) :
    Option (CacheState β) :=
  if resolution.rcode = dnsRcodeNoerror ∧ resolution.ans.length > 0 then
    dnsCachePut bloom call.name.toCString call.qtype resolution.ans resolution.rcode call.storedAt
      call.allocates cache
  else if resolution.rcode = dnsRcodeNxdomain then
    dnsCachePut bloom call.name.toCString call.qtype [] resolution.rcode call.storedAt
      call.allocates cache
  else some cache

/-- `dns_resolve`. -/
def dnsResolve (call : ResolveCall) (cache : CacheState β) (s : σ) :
    Option (Resolved × CacheState β × σ) :=
  if call.qtype ≠ dnsTypeA ∧ call.qtype ≠ dnsTypeAaaa then
    some (⟨true, [], dnsRcodeNotimp, none⟩, cache, s)
  else do
    let (found, cache) ←
      dnsCacheGet bloom call.name.toCString call.qtype call.cap call.readAt cache
    match found with
    | some hit => some (⟨true, hit.ans, hit.rcode, none⟩, cache, s)
    | none =>
        match resolveFrom ask roots call.name call.qtype roots call.cap 0 0 s with
        | (none, s) => some (⟨false, [], dnsRcodeServfail, none⟩, cache, s)
        | (some resolution, s) => do
            let cache ← storeResolution bloom call resolution cache
            some (⟨true, resolution.ans, resolution.rcode, some resolution⟩, cache, s)

/-- Calls one after the other, each with what it handed back. -/
def resolveRun : List ResolveCall → CacheState β → σ →
    Option (List (ResolveCall × Resolved) × CacheState β × σ)
  | [], cache, s => some ([], cache, s)
  | call :: calls, cache, s => do
      let (resolved, cache, s) ← dnsResolve bloom ask roots call cache s
      let (history, cache, s) ← resolveRun calls cache s
      some ((call, resolved) :: history, cache, s)

end

end FizzDns
