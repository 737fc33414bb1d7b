import FizzDns.Backend.ResolveQuery

/-!
# What the transports rely on

The servers call `dns_resolve_query` from many threads. A `Moment` is all that such a call depends
on besides the query and the buffer: what is in the cache when the call looks there, what the
servers out there say, the clock and the allocator. Whatever the moment, a query that
`dns_parse_query` accepts gets a reply, and no other does.
-/

namespace FizzDns

variable {β σ : Type} {bloom : BloomOps β}

/-- The circumstances of a call. The cache in memory is a well-formed one. -/
structure Moment (law : FilterLaw bloom) (σ : Type) where
  state : CacheState β
  cache : LruCache
  refines : Refines law state cache
  up : σ
  readAt : Int
  storedAt : Int
  allocates : Bool

/-- A message is a reply to another one, over a transport with a response buffer. -/
def IsReply (isUdp : Bool) (respCap : Nat) (query reply : Bytes) : Prop :=
  ∃ call q header records, call.query = query ∧ call.isUdp = isUdp ∧ call.respCap = respCap ∧
    dnsParseQuery query query.length = some q ∧ ReplyTo call q reply header records

namespace Moment

variable {law : FilterLaw bloom}

/-- The call at a moment. -/
def call (moment : Moment law σ) (isUdp : Bool) (respCap : Nat) (query : Bytes) : QueryCall :=
  ⟨query, respCap, isUdp, moment.readAt, moment.storedAt, moment.allocates⟩

/-- What `dns_resolve_query` returns at a moment: the response, or `none` for `DNS_DROP`. -/
def resolve (moment : Moment law σ) (ask : Ask σ) (roots : List Bytes) (isUdp : Bool)
    (respCap : Nat) (query : Bytes) : Option Bytes :=
  match dnsResolveQuery bloom ask roots (moment.call isUdp respCap query) moment.state
      moment.up with
  | some (some built, _, _) => some built.bytes
  | _ => none

/-- A query that parses is answered at every moment, one that does not parse at none. -/
theorem resolve_cases (moment : Moment law σ) (ask : Ask σ) (roots : List Bytes) (isUdp : Bool)
    (respCap : Nat) (room : 512 ≤ respCap) (size : respCap < 2 ^ 64) (query : Bytes) :
    (dnsParseQuery query query.length = none ∧
      moment.resolve ask roots isUdp respCap query = none) ∨
    ∃ reply, moment.resolve ask roots isUdp respCap query = some reply ∧
      IsReply isUdp respCap query reply := by
  cases parsed : dnsParseQuery query query.length with
  | none => exact Or.inl ⟨rfl, by simp [resolve, call, dnsResolveQuery, parsed]⟩
  | some q =>
      obtain ⟨resolved, next, up', after, answered, _, few, _⟩ := answerQuestion_outcome ask roots
        (moment.call isUdp respCap query) q moment.up moment.refines
      obtain ⟨built, builds, replies⟩ := @dnsBuildResponse_replyTo
        (moment.call isUdp respCap query) q parsed _ few resolved.rcode room size
      refine Or.inr ⟨built.bytes, ?_, _, q, _, _, rfl, rfl, rfl, parsed, replies⟩
      simp only [resolve, call, dnsResolveQuery, parsed, Option.bind_eq_bind] at answered builds ⊢
      rw [answered, Option.bind_some]
      simp only [builds]

/-- What is returned at a moment is a reply. -/
theorem isReply_of_resolve {moment : Moment law σ} {ask : Ask σ} {roots : List Bytes}
    {isUdp : Bool} {respCap : Nat} {query reply : Bytes} (room : 512 ≤ respCap)
    (size : respCap < 2 ^ 64)
    (returned : moment.resolve ask roots isUdp respCap query = some reply) :
    IsReply isUdp respCap query reply := by
  rcases moment.resolve_cases ask roots isUdp respCap room size query with
    ⟨_, none⟩ | ⟨other, same, isReply⟩
  · cases none.symm.trans returned
  · exact Option.some.inj (same.symm.trans returned) ▸ isReply

end Moment

/-- A reply fits the buffer of its transport. -/
theorem IsReply.length_le {isUdp : Bool} {respCap : Nat} {query reply : Bytes}
    (replies : IsReply isUdp respCap query reply) : reply.length ≤ respCap := by
  obtain ⟨call, _, _, _, _, _, buffer, _, replyTo⟩ := replies
  exact buffer ▸ replyTo.fits

/-- A reply has a header, so it is not empty. -/
theorem IsReply.length_pos {isUdp : Bool} {respCap : Nat} {query reply : Bytes}
    (replies : IsReply isUdp respCap query reply) : 0 < reply.length := by
  obtain ⟨_, _, header, records, _, _, _, _, replyTo⟩ := replies
  rw [replyTo.layout, List.length_append, length_headerBytes]
  exact Nat.lt_of_lt_of_le (by decide) (Nat.le_add_right _ _)

/-- A moment with nothing in the cache. -/
def emptyMoment : Moment disabledLaw Unit where
  state := dnsCacheInit disabledBloom (CacheState.start ())
  cache := .empty
  refines := dnsCacheInit_refines disabledLaw _
  up := ()
  readAt := 0
  storedAt := 0
  allocates := true

end FizzDns
