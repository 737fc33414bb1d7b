import FizzDns.Msg.Query
import FizzDns.Resolver.QueryServer

/-!
# Transaction ids

`next_txid`, and the queries that threads send with it. The ids come from the kernel's random
generator, 64 at a time into a pool that each thread has of its own. A query goes out with a word
that `getrandom` has delivered to its thread and that no other query has had, and a reply is
accepted only with the same word (`upstream_txids_fresh`).
-/

namespace FizzDns

/-! ## The pool -/

/-- The number of words that are drawn at a time. -/
def poolSize : Nat := 64

/-- The pool of a thread. The words below `left` are not used yet. -/
structure TxidPool where
  pool : Fin poolSize → UInt16
  left : Nat
  within : left ≤ poolSize

/-- What `getrandom` would do to the pool: fill it, or return another number of bytes and leave
something there. -/
inductive GetRandom where
  | full (words : Fin poolSize → UInt16)
  | short (words : Fin poolSize → UInt16)

/-- The top of a pool, `pool[--left]`. -/
def TxidPool.pop (p : TxidPool) (some : 0 < p.left) : UInt16 × TxidPool :=
  (p.pool ⟨p.left - 1, Nat.lt_of_lt_of_le (Nat.sub_one_lt_of_lt some) p.within⟩,
    { p with left := p.left - 1, within := (Nat.sub_le _ _).trans p.within })

/-- A pool with all of its words. -/
def TxidPool.filled (words : Fin poolSize → UInt16) : TxidPool :=
  ⟨words, poolSize, Nat.le_refl _⟩

/-- `next_txid`, `none` for -1. -/
def nextTxid (random : GetRandom) (p : TxidPool) : Option UInt16 × TxidPool :=
  if some : 0 < p.left then ((p.pop some).1, (p.pop some).2)
  else
    match random with
    | .short words => (none, { p with pool := words })
    | .full words =>
        let taken := (TxidPool.filled words).pop (Nat.succ_pos _)
        (taken.1, taken.2)

/-- The words of a pool in the order in which they are used. -/
def TxidPool.pending (p : TxidPool) : List UInt16 :=
  ((List.ofFn p.pool).take p.left).reverse

/-- An empty pool has no words left. -/
theorem TxidPool.pending_eq_nil {p : TxidPool} (empty : ¬ 0 < p.left) : p.pending = [] := by
  rw [pending, Nat.eq_zero_of_not_pos empty, List.take_zero, List.reverse_nil]

/-- The top of a pool is its next word. -/
theorem TxidPool.pending_pop (p : TxidPool) (some : 0 < p.left) :
    p.pending = (p.pop some).1 :: (p.pop some).2.pending := by
  have bound : p.left - 1 < (List.ofFn p.pool).length := by
    rw [List.length_ofFn]
    exact Nat.lt_of_lt_of_le (Nat.sub_one_lt_of_lt some) p.within
  have split := List.take_succ_eq_append_getElem bound
  rw [Nat.sub_add_cancel some, List.getElem_ofFn] at split
  rw [pending, split, List.reverse_append]
  rfl

/-- The words that a call of `next_txid` draws. -/
def TxidPool.drawn (random : GetRandom) (p : TxidPool) : List UInt16 :=
  if 0 < p.left then []
  else
    match random with
    | .short _ => []
    | .full words => (TxidPool.filled words).pending

/-- A call of `next_txid` returns the first of the words that are pending or drawn. If there is
none, it fails. -/
theorem nextTxid_pending (random : GetRandom) (p : TxidPool) :
    p.pending ++ p.drawn random =
      (nextTxid random p).1.toList ++ (nextTxid random p).2.pending := by
  unfold nextTxid TxidPool.drawn
  by_cases some : 0 < p.left
  · rw [dif_pos some, if_pos some, List.append_nil]
    exact p.pending_pop some
  · rw [dif_neg some, if_neg some, TxidPool.pending_eq_nil some, List.nil_append]
    cases random with
    | short words => exact (TxidPool.pending_eq_nil (p := { p with pool := words }) some).symm
    | full words => exact (TxidPool.filled words).pending_pop (Nat.succ_pos _)

/-! ## The queries of all threads -/

section

variable {T : Type} [DecidableEq T]

/-- A call of `query_server` by a thread, with what it meets. -/
structure UpstreamCall (T : Type) where
  thread : T
  random : GetRandom
  connected : Bool
  name : DnsName
  qtype : UInt16
  delivered : List Received

/-- A query that was sent, and the reply that was accepted. -/
structure Asked (T : Type) where
  thread : T
  query : Bytes
  reply : Option Bytes

/-- What the threads have drawn from `getrandom`, in the order of use, and what they have asked. -/
structure Upstream (T : Type) where
  pools : T → TxidPool
  drawn : T → List UInt16
  asked : List (Asked T)

/-- The query that a call sends with an id. -/
def UpstreamCall.sends (call : UpstreamCall T) (txid : UInt16) : List (Asked T) :=
  match dnsBuildQuery txid call.name.chars call.qtype false dnsEdnsOurUdpPayload msgBuf with
  | none => []
  | some query =>
      if call.connected = true then
        [⟨call.thread, query,
          queryServer (some txid) call.connected call.name call.qtype call.delivered⟩]
      else []

/-- A call of `query_server`. -/
def Upstream.ask (s : Upstream T) (call : UpstreamCall T) : Upstream T :=
  let pool := s.pools call.thread
  { pools := Function.update s.pools call.thread (nextTxid call.random pool).2
    drawn := Function.update s.drawn call.thread
      (s.drawn call.thread ++ pool.drawn call.random)
    asked := s.asked ++ (nextTxid call.random pool).1.toList.flatMap call.sends }

/-- Before the first call: `left` of each thread is 0. -/
def Upstream.start (pool : T → Fin poolSize → UInt16) : Upstream T where
  pools := fun thread => ⟨pool thread, 0, Nat.zero_le _⟩
  drawn := fun _ => []
  asked := []

/-- The ids of the queries of a thread. -/
def txidsOf (thread : T) (asked : List (Asked T)) : List UInt16 :=
  (asked.filter fun one => one.thread = thread).map fun one => rd16 one.query 0

/-- A query has the id that it was built with. -/
theorem rd16_of_dnsBuildQuery {id qtype ednsUdpPayload : UInt16} {name msg : Bytes} {rd : Bool}
    {cap : Nat} (built : dnsBuildQuery id name qtype rd ednsUdpPayload cap = some msg) :
    rd16 msg 0 = id := by
  obtain ⟨_, _, rfl⟩ := dnsBuildQuery_eq_some_iff.mp built
  simp only [queryBytes, headerBytes, queryHeader, List.append_assoc]
  exact rd16_wr16 _ _

/-- What is accepted has the id of the query. -/
theorem receiveLoop_txid {txid qtype : UInt16} {name : DnsName} {delivered : List Received}
    {reply : Bytes} (accepted : receiveLoop txid name qtype delivered = some reply) :
    rd16 reply 0 = txid := by
  induction delivered with
  | nil => cases accepted
  | cons one rest ih =>
      cases one with
      | interrupted => exact ih accepted
      | datagram bytes =>
          rw [receiveLoop_datagram] at accepted
          split at accepted
          · cases accepted
          split at accepted
          · next replies =>
              cases accepted
              unfold isReply at replies
              split at replies
              · cases replies
              next header parsed =>
              have same := (of_decide_eq_true (Bool.and_eq_true_iff.mp replies).1).1
              unfold dnsParseHeader at parsed
              split at parsed
              · cases parsed
              · cases parsed
                exact same
          · exact ih accepted

/-- A call sends one query at most, and with the id that it was given. -/
theorem txidsOf_sends (call : UpstreamCall T) (txid : UInt16) (thread : T) :
    List.Sublist (txidsOf thread (call.sends txid))
      (if call.thread = thread then [txid] else []) := by
  unfold UpstreamCall.sends
  split
  · exact List.nil_sublist _
  next query built =>
  split
  · by_cases same : call.thread = thread
    · simp [txidsOf, same, rd16_of_dnsBuildQuery built]
    · simp [txidsOf, same]
  · exact List.nil_sublist _

omit [DecidableEq T] in
/-- The reply that a call accepts has the id of its query. -/
theorem reply_of_sends {call : UpstreamCall T} {txid : UInt16} {one : Asked T} {reply : Bytes}
    (sent : one ∈ call.sends txid) (accepted : one.reply = some reply) :
    rd16 reply 0 = rd16 one.query 0 := by
  unfold UpstreamCall.sends at sent
  split at sent
  · cases sent
  next query built =>
  split at sent
  · next connected =>
      obtain rfl := List.mem_singleton.mp sent
      simp only [queryServer, built, connected, if_true] at accepted
      rw [rd16_of_dnsBuildQuery built]
      exact receiveLoop_txid accepted
  · cases sent

theorem txidsOf_append (thread : T) (first second : List (Asked T)) :
    txidsOf thread (first ++ second) = txidsOf thread first ++ txidsOf thread second := by
  rw [txidsOf, List.filter_append, List.map_append]
  rfl

/-- What a thread has drawn is what its queries have used, in that order, and what is pending. A
word that was used may be missing among the queries: the query that it was for was not sent. -/
def Upstream.Fresh (s : Upstream T) (thread : T) : Prop :=
  ∃ used, List.Sublist (txidsOf thread s.asked) used ∧
    used ++ (s.pools thread).pending = s.drawn thread

/-- One call. Only the thread that makes it draws and asks. -/
theorem Upstream.ask_fresh {s : Upstream T} (fresh : ∀ thread, s.Fresh thread)
    (call : UpstreamCall T) (thread : T) : (s.ask call).Fresh thread := by
  obtain ⟨used, sublist, accounted⟩ := fresh thread
  have turn := nextTxid_pending call.random (s.pools call.thread)
  unfold Fresh ask
  simp only [txidsOf_append]
  by_cases same : call.thread = thread
  · subst same
    rw [Function.update_self, Function.update_self, ← accounted]
    refine ⟨used ++ (nextTxid call.random (s.pools call.thread)).1.toList, ?_, ?_⟩
    · refine sublist.append ?_
      cases (nextTxid call.random (s.pools call.thread)).1 with
      | none => exact List.nil_sublist _
      | some txid => simpa using txidsOf_sends call txid call.thread
    · rw [List.append_assoc, List.append_assoc, turn]
  · have other : ¬ thread = call.thread := fun equal => same equal.symm
    rw [Function.update_of_ne other, Function.update_of_ne other]
    refine ⟨used, ?_, accounted⟩
    cases (nextTxid call.random (s.pools call.thread)).1 with
    | none => simpa [txidsOf] using sublist
    | some txid =>
        have silent := txidsOf_sends call txid thread
        rw [if_neg same, List.sublist_nil] at silent
        simpa [silent] using sublist

/-- What holds of all queries. -/
structure Upstream.Sound (s : Upstream T) : Prop where
  fresh : ∀ thread, s.Fresh thread
  replies : ∀ one ∈ s.asked, ∀ reply, one.reply = some reply → rd16 reply 0 = rd16 one.query 0

/-- One call keeps the pools sound. -/
theorem Upstream.ask_sound {s : Upstream T} (sound : s.Sound) (call : UpstreamCall T) :
    (s.ask call).Sound where
  fresh := ask_fresh sound.fresh call
  replies := by
    intro one member reply accepted
    rcases List.mem_append.mp member with before | now
    · exact sound.replies one before reply accepted
    · obtain ⟨txid, _, sent⟩ := List.mem_flatMap.mp now
      exact reply_of_sends sent accepted

/-- So do any number of calls. -/
theorem Upstream.run_sound {s : Upstream T} (sound : s.Sound) (calls : List (UpstreamCall T)) :
    (calls.foldl Upstream.ask s).Sound := by
  induction calls generalizing s with
  | nil => exact sound
  | cons call rest ih => exact ih (ask_sound sound call)

/-- Before the first call. -/
theorem Upstream.start_sound (pool : T → Fin poolSize → UInt16) : (Upstream.start pool).Sound where
  fresh := fun _ => ⟨[], List.nil_sublist _, TxidPool.pending_eq_nil (Nat.lt_irrefl 0)⟩
  replies := by
    intro one member
    cases member

/-- Whatever calls of `query_server` are made, by any threads: the ids of the queries that a thread
sends are words that `getrandom` has delivered to this thread, each used for one query at most, and
every reply that is accepted has the id of its query. -/
theorem upstream_txids_fresh (pool : T → Fin poolSize → UInt16) (calls : List (UpstreamCall T)) :
    let s := calls.foldl Upstream.ask (.start pool)
    (∀ thread, List.Sublist (txidsOf thread s.asked) (s.drawn thread)) ∧
      ∀ one ∈ s.asked, ∀ reply, one.reply = some reply → rd16 reply 0 = rd16 one.query 0 := by
  have sound := Upstream.run_sound (Upstream.start_sound pool) calls
  refine ⟨fun thread => ?_, sound.replies⟩
  obtain ⟨used, sublist, accounted⟩ := sound.fresh thread
  exact sublist.trans (accounted ▸ List.sublist_append_left _ _)

end

end FizzDns
