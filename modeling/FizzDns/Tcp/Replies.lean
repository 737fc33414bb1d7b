import FizzDns.Backend.Contract
import FizzDns.Tcp.Connection

/-!
# What a TCP connection sends

With `dns_resolve_query` as the backend: every query of the stream that parses is answered, in the
order of the queries, and nothing else is sent. If a call of `send` fails, the connection ends, and
what was sent before is the front of that (`connLoop_sends`).
-/

namespace FizzDns

/-! ## When sending fails -/

/-- The front of some bytes is on the wire, and all of them after a success. -/
def SentFront (before after : Socket) (success : Bool) (bytes : Bytes) : Prop :=
  ∃ front, front <+: bytes ∧ after.outgoing = before.outgoing ++ front ∧
    (success = true → front = bytes)

theorem Socket.send_failed_outgoing {socket after : Socket} {buf : Bytes}
    (call : socket.send buf = (.failed, after)) : after.outgoing = socket.outgoing := by
  unfold send at call
  split at call
  · cases call
  · cases call
    rfl
  · cases call
  · cases call

/-- `write_full` sends the whole buffer or, if a send fails, a beginning of it. -/
theorem writeFull_sentFront (socket : Socket) (buf : Bytes) :
    SentFront socket (writeFull socket buf).2 (writeFull socket buf).1 buf := by
  fun_induction writeFull socket buf with
  | case1 socket buf left after call =>
      refine ⟨[], List.nil_prefix, ?_, fun success => by cases success⟩
      rw [List.append_nil, Socket.send_failed_outgoing call]
  | case2 socket buf left after call ih =>
      obtain ⟨wire, _, _, _⟩ := Socket.send_interrupted call
      rw [SentFront, ← wire]
      exact ih
  | case3 socket buf left count after call ih =>
      obtain ⟨wire, _, _, _⟩ := Socket.send_took call
      obtain ⟨front, within, sent, whole⟩ := ih
      refine ⟨buf.take count ++ front, ?_, ?_, fun success => ?_⟩
      · have joined := (List.prefix_append_right_inj (buf.take count)).mpr within
        rwa [List.take_append_drop] at joined
      · rw [sent, wire, List.append_assoc]
      · rw [whole success, List.take_append_drop]
  | case4 socket buf done =>
      obtain rfl : buf = [] := List.eq_nil_of_length_eq_zero (by omega)
      exact ⟨[], List.nil_prefix, (List.append_nil _).symm, fun _ => rfl⟩

/-- So with the frame of a response. -/
theorem sendResponse_sentFront (socket : Socket) (resp : Bytes) :
    SentFront socket (sendResponse socket resp).2 (sendResponse socket resp).1 (frame resp) := by
  have head := writeFull_sentFront socket (wr16 (UInt16.ofNat resp.length))
  unfold sendResponse
  split
  · next after call =>
      rw [call] at head
      obtain ⟨front, within, sent, _⟩ := head
      exact ⟨front, within.trans (List.prefix_append _ _), sent, fun success => by cases success⟩
  · next after call =>
      rw [call] at head
      obtain ⟨_, _, sent, whole⟩ := head
      obtain ⟨front, within, rest, complete⟩ := writeFull_sentFront after resp
      rw [whole rfl] at sent
      refine ⟨wr16 (UInt16.ofNat resp.length) ++ front, ?_, ?_, fun success => ?_⟩
      · exact (List.prefix_append_right_inj _).mpr within
      · rw [rest, sent, List.append_assoc]
      · rw [complete success]
        rfl

section

variable {σ : Type} (backend : Backend σ)

/-- What a connection is to send for some messages. -/
def owedFrames (state : σ) (messages : List Bytes) : Bytes :=
  (sentResponses (backendReplies backend state messages).1).flatMap frame

theorem owedFrames_singleton (state : σ) (message : Bytes) :
    owedFrames backend state [message] =
      if (backend state message).1.Sent then frame (backend state message).1.response else [] := by
  have reply : (backendReplies backend state [message]).1 = [(backend state message).1] := rfl
  rw [owedFrames, reply, sentResponses_cons]
  split
  · exact List.append_nil _
  · rfl

/-- The frames of the replies, one message at a time. -/
theorem owedFrames_cons (state : σ) (message : Bytes) (rest : List Bytes) :
    owedFrames backend state (message :: rest) = owedFrames backend state [message] ++
      owedFrames backend (backend state message).2 rest := by
  have replies : (backendReplies backend state (message :: rest)).1 =
      (backend state message).1 :: (backendReplies backend (backend state message).2 rest).1 := rfl
  rw [owedFrames_singleton, owedFrames, replies, sentResponses_cons, List.flatMap_append]
  split
  · rw [List.flatMap_singleton]
    rfl
  · rfl

/-- A turn sends the front of what it owes for its message, and all of it if there is another turn,
which begins with the rest of the stream. -/
theorem connTurn_sends (conn : Connection σ) :
    (splitFrames conn.socket.incoming = [] ∧ (connTurn backend conn).2 = false ∧
      (connTurn backend conn).1.socket.outgoing = conn.socket.outgoing) ∨
    ∃ message rest, splitFrames conn.socket.incoming = message :: rest ∧
      SentFront conn.socket (connTurn backend conn).1.socket (connTurn backend conn).2
        (owedFrames backend conn.backend [message]) ∧
      (connTurn backend conn).1.backend = (backend conn.backend message).2 ∧
      splitFrames (connTurn backend conn).1.socket.incoming = rest := by
  unfold connTurn
  split
  · next socket read =>
      obtain ⟨none, sending⟩ := readMessage_none read
      exact .inl ⟨none, rfl, sending.1⟩
  next query socket read =>
  obtain ⟨frames, _, wire, _⟩ := readMessage_some read
  refine .inr ⟨query, splitFrames socket.incoming, frames, ?_⟩
  rw [owedFrames_singleton]
  simp only
  by_cases sent : (backend conn.backend query).1.Sent
  · rw [if_neg (not_not.mpr sent), if_pos sent, SentFront, ← wire]
    have front := sendResponse_sentFront socket (backend conn.backend query).1.response
    have stream := (sendResponse_recvsLike socket (backend conn.backend query).1.response).1
    split
    · next after call =>
        rw [call] at front stream
        exact ⟨front, rfl, by rw [stream]⟩
    · next after call =>
        rw [call] at front stream
        exact ⟨front, rfl, by rw [stream]⟩
  · rw [if_pos sent, if_neg sent]
    exact ⟨⟨[], List.nil_prefix, wire.trans (List.append_nil _).symm, fun _ => rfl⟩, rfl, rfl⟩

/-- The loop sends the front of what it owes for the messages of the stream. -/
theorem connLoop_sends (conn : Connection σ) :
    ∃ front, front <+: owedFrames backend conn.backend (splitFrames conn.socket.incoming) ∧
      (connLoop backend conn).socket.outgoing = conn.socket.outgoing ++ front := by
  fun_induction connLoop backend conn with
  | case1 conn again ih =>
      rcases connTurn_sends backend conn with
        ⟨_, last, _⟩ | ⟨message, rest, frames, sent, state, left⟩
      · rw [last] at again
        cases again
      · obtain ⟨front, within, later⟩ := ih
        obtain ⟨_, _, first, whole⟩ := sent
        rw [state, left] at within
        rw [whole again] at first
        rw [frames, owedFrames_cons]
        refine ⟨_, (List.prefix_append_right_inj _).mpr within, ?_⟩
        rw [later, first, List.append_assoc]
  | case2 conn last =>
      rcases connTurn_sends backend conn with ⟨_, _, none⟩ | ⟨message, rest, frames, sent, _, _⟩
      · exact ⟨[], List.nil_prefix, by rw [List.append_nil, none]⟩
      · obtain ⟨front, within, first, _⟩ := sent
        rw [frames, owedFrames_cons]
        exact ⟨front, within.trans (List.prefix_append _ _), first⟩

end

/-! ## The replies -/

section

variable {β σ : Type} {bloom : BloomOps β} {law : FilterLaw bloom}

/-- `dns_resolve_query` as `conn_main` calls it, at one moment after the other. -/
def resolveTcp (law : FilterLaw bloom) (ask : Ask σ) (roots : List Bytes) :
    Backend (Nat → Moment law σ) := fun moments query =>
  (match (moments 0).resolve ask roots false dnsMaxTcpMsgLen query with
    | some response => ⟨true, response⟩
    | none => ⟨false, []⟩,
    fun n => moments (n + 1))

/-- The messages that `dns_parse_query` accepts. -/
def answerable (messages : List Bytes) : List Bytes :=
  messages.filter fun message => (dnsParseQuery message message.length).isSome

/-- A message that parses is replied to, and no other. -/
theorem resolveTcp_cases (ask : Ask σ) (roots : List Bytes) (moments : Nat → Moment law σ)
    (query : Bytes) :
    (dnsParseQuery query query.length).isSome = false ∧
      ¬ (resolveTcp law ask roots moments query).1.Sent ∨
    (dnsParseQuery query query.length).isSome = true ∧
      (resolveTcp law ask roots moments query).1.Sent ∧
      IsReply false dnsMaxTcpMsgLen query (resolveTcp law ask roots moments query).1.response := by
  have outcome := (moments 0).resolve_cases ask roots false dnsMaxTcpMsgLen (by decide) (by decide)
    query
  rcases outcome with ⟨rejected, none⟩ | ⟨reply, returned, replies⟩
  · rw [rejected]
    refine .inl ⟨rfl, ?_⟩
    simp [resolveTcp, none, BackendReply.Sent]
  · have same : (resolveTcp law ask roots moments query).1 = ⟨true, reply⟩ := by
      simp [resolveTcp, returned]
    rw [same]
    refine .inr ⟨?_, ⟨rfl, Nat.ne_of_gt replies.length_pos, replies.length_le⟩, replies⟩
    obtain ⟨_, _, _, _, _, _, _, parsed, _⟩ := replies
    rw [parsed]
    rfl

/-- The responses are replies to the messages that parse, one to each. -/
theorem sentResponses_reply (ask : Ask σ) (roots : List Bytes) (moments : Nat → Moment law σ)
    (messages : List Bytes) :
    List.Forall₂ (IsReply false dnsMaxTcpMsgLen) (answerable messages)
      (sentResponses (backendReplies (resolveTcp law ask roots) moments messages).1) := by
  induction messages generalizing moments with
  | nil => exact .nil
  | cons message rest ih =>
      have replies : (backendReplies (resolveTcp law ask roots) moments (message :: rest)).1 =
          (resolveTcp law ask roots moments message).1 ::
            (backendReplies (resolveTcp law ask roots)
              (resolveTcp law ask roots moments message).2 rest).1 := rfl
      rw [replies, sentResponses_cons, answerable]
      rcases resolveTcp_cases ask roots moments message with
        ⟨rejected, unsent⟩ | ⟨accepted, sent, replied⟩
      · rw [if_neg unsent, List.filter_cons_of_neg (by simp [rejected])]
        exact ih _
      · rw [if_pos sent, List.filter_cons_of_pos (by simpa using accepted)]
        exact .cons replied (ih _)

/-- However the stream of a client is cut into segments, and whatever the kernel does when the
connection sends: there is one reply to each query of the stream that parses, in their order, and
the bytes that are sent are the front of their frames. Unless the connection has no memory or a call
of `send` fails, the client reads all of the replies. -/
theorem tcp_replies_answer (ask : Ask σ) (roots : List Bytes) (moments : Nat → Moment law σ)
    (allocated : Bool) (stream : Bytes) (ending : StreamEnd) (recvs : List RecvChoice)
    (sends : List SendChoice) :
    let served := connMain (resolveTcp law ask roots) allocated
      (Connection.start stream ending recvs sends moments)
    ∃ replies,
      List.Forall₂ (IsReply false dnsMaxTcpMsgLen) (answerable (splitFrames stream)) replies ∧
      served.socket.outgoing <+: replies.flatMap frame ∧
      (allocated = true → SendChoice.failed ∉ sends →
        splitFrames served.socket.outgoing = replies) := by
  refine ⟨_, sentResponses_reply ask roots moments (splitFrames stream), ?_, ?_⟩
  · cases allocated with
    | false => exact List.nil_prefix
    | true =>
        obtain ⟨front, within, sent⟩ := connLoop_sends (resolveTcp law ask roots)
          (Connection.start stream ending recvs sends moments)
        have all : (connMain (resolveTcp law ask roots) true
            (Connection.start stream ending recvs sends moments)).socket.outgoing = front := sent
        rw [all]
        exact within
  · rintro rfl accepting
    obtain ⟨_, _, outgoing, _, _⟩ := @connLoop_serves _ (resolveTcp law ask roots)
      (Connection.start stream ending recvs sends moments) accepting
    have all : (connMain (resolveTcp law ask roots) true
        (Connection.start stream ending recvs sends moments)).socket.outgoing =
        (sentResponses (backendReplies (resolveTcp law ask roots) moments
          (splitFrames stream)).1).flatMap frame := outgoing
    rw [all]
    exact splitFrames_flatMap_frame fun _ => framable_of_mem_sentResponses

end

end FizzDns
