import FizzDns.Backend.TcpReply
import FizzDns.Tcp.Stream

/-!
# One TCP connection

`conn_main`, which serves the queries of one connection in turn: read a length and a message,
pass the message to `dns_resolve_query`, and send the response behind its own length. The
backend is any function with a state.

The messages that are passed on are the frames of the client's stream and the bytes that are
sent are the frames of the responses, however the kernel cuts the stream into segments
(`connMain_framing`).
-/

namespace FizzDns

/-- What a call of `dns_resolve_query` leaves: whether it returned `DNS_OK`, and the response
of `resp_len` bytes. -/
structure BackendReply where
  ok : Bool
  response : Bytes
  deriving DecidableEq

/-- `dns_resolve_query` as `conn_main` calls it. -/
abbrev Backend (σ : Type) := σ → Bytes → BackendReply × σ

/-- The test that `conn_main` makes before it sends a response. -/
def BackendReply.Sent (reply : BackendReply) : Prop :=
  reply.ok = true ∧ reply.response.length ≠ 0 ∧ reply.response.length ≤ dnsMaxTcpMsgLen

instance (reply : BackendReply) : Decidable reply.Sent :=
  inferInstanceAs (Decidable (_ ∧ _ ∧ _))

/-- The state of a connection thread: its socket, the state of the backend, the two counters
of the server it adds to, and the messages that it has passed to the backend. -/
structure Connection (σ : Type) where
  socket : Socket
  backend : σ
  queries : Nat
  answered : Nat
  passed : List Bytes

/-- A read of `n` bytes that succeeds takes them from the stream. -/
theorem readFull_some {socket after : Socket} {n : Nat} {bytes : Bytes}
    (call : readFull socket n [] = (some bytes, after)) :
    n ≤ socket.incoming.length ∧ bytes = socket.incoming.take n ∧
      after.incoming = socket.incoming.drop n ∧ after.SendsLike socket := by
  obtain ⟨sending, whole, partially⟩ := @readFull_eq socket n [] (Nat.zero_le _)
  rw [call] at sending whole partially
  rw [List.length_nil, Nat.sub_zero] at whole partially
  have enough : n ≤ socket.incoming.length := by
    by_contra few
    cases partially (Nat.not_le.mp few)
  obtain ⟨result, rest⟩ := whole enough
  exact ⟨enough, Option.some.inj result, rest, sending⟩

/-- A read of `n` bytes fails only if the stream has fewer. -/
theorem readFull_none {socket after : Socket} {n : Nat}
    (call : readFull socket n [] = (none, after)) :
    socket.incoming.length < n ∧ after.SendsLike socket := by
  obtain ⟨sending, whole, _⟩ := @readFull_eq socket n [] (Nat.zero_le _)
  rw [call] at sending whole
  rw [List.length_nil, Nat.sub_zero] at whole
  refine ⟨?_, sending⟩
  by_contra enough
  cases (whole (Nat.not_lt.mp enough)).1

/-! ## One message -/

/-- How `conn_main` reads a message: its length, then as many bytes. Nothing legal has length
0. -/
def readMessage (socket : Socket) : Option Bytes × Socket :=
  match readFull socket 2 [] with
  | (none, socket) => (none, socket)
  | (some lenbuf, socket) =>
      let mlen := (rd16 lenbuf 0).toNat
      if mlen = 0 then (none, socket) else readFull socket mlen []

/-- How `conn_main` sends a response: `write_full` of its length, then of its bytes. -/
def sendResponse (socket : Socket) (resp : Bytes) : Bool × Socket :=
  match writeFull socket (wr16 (UInt16.ofNat resp.length)) with
  | (false, socket) => (false, socket)
  | (true, socket) => writeFull socket resp

theorem rd16_take {stream : Bytes} : rd16 (stream.take 2) 0 = rd16 stream 0 :=
  @rd16_slice stream 0 2 0 (Nat.le_refl _)

/-- The message that is read is the first frame of the stream. -/
theorem readMessage_some {socket after : Socket} {query : Bytes}
    (call : readMessage socket = (some query, after)) :
    splitFrames socket.incoming = query :: splitFrames after.incoming ∧
      after.incoming.length < socket.incoming.length ∧ after.SendsLike socket := by
  unfold readMessage at call
  cases head : readFull socket 2 [] with
  | mk lenbuf between =>
      rw [head] at call
      cases lenbuf with
      | none => cases call
      | some lenbuf =>
          obtain ⟨two, rfl, first, sending⟩ := readFull_some head
          simp only [rd16_take] at call
          split at call
          · cases call
          next positive =>
          obtain ⟨enough, rfl, rest, sending'⟩ := readFull_some call
          rw [first, List.length_drop] at enough
          rw [rest, first, List.drop_drop]
          refine ⟨?_, ?_, sending'.1.trans sending.1, sending'.2.trans sending.2⟩
          · rw [splitFrames, if_neg (by omega)]
            simp only
            rw [if_neg positive, if_neg (by omega)]
            rfl
          · rw [List.length_drop]
            omega

/-- No message is read just when the stream has no frame left. -/
theorem readMessage_none {socket after : Socket} (call : readMessage socket = (none, after)) :
    splitFrames socket.incoming = [] ∧ after.SendsLike socket := by
  unfold readMessage at call
  rw [splitFrames]
  cases head : readFull socket 2 [] with
  | mk lenbuf between =>
      rw [head] at call
      cases lenbuf with
      | none =>
          cases call
          obtain ⟨short, sending⟩ := readFull_none head
          exact ⟨if_pos short, sending⟩
      | some lenbuf =>
          obtain ⟨two, rfl, first, sending⟩ := readFull_some head
          simp only [rd16_take] at call
          rw [if_neg (Nat.not_lt.mpr two)]
          simp only
          split at call
          · next zero =>
              cases call
              exact ⟨if_pos zero, sending⟩
          · next positive =>
              obtain ⟨short, sending'⟩ := readFull_none call
              rw [first, List.length_drop] at short
              rw [if_neg positive, if_pos (by omega)]
              exact ⟨rfl, sending'.1.trans sending.1, sending'.2.trans sending.2⟩

theorem sendResponse_recvsLike (socket : Socket) (resp : Bytes) :
    (sendResponse socket resp).2.RecvsLike socket := by
  have head := writeFull_recvsLike socket (wr16 (UInt16.ofNat resp.length))
  unfold sendResponse
  split
  · next after call =>
      rw [call] at head
      exact head
  · next after call =>
      rw [call] at head
      have body := writeFull_recvsLike after resp
      exact ⟨body.1.trans head.1, body.2.trans head.2⟩

/-- A response goes out as one frame. -/
theorem sendResponse_eq {socket : Socket} (delivers : socket.Delivers) (resp : Bytes) :
    (sendResponse socket resp).1 = true ∧ (sendResponse socket resp).2.Delivers ∧
      (sendResponse socket resp).2.outgoing = socket.outgoing ++ frame resp := by
  obtain ⟨success, later, sent⟩ := @writeFull_eq socket (wr16 (UInt16.ofNat resp.length)) delivers
  unfold sendResponse
  split
  · next after call =>
      rw [call] at success
      cases success
  · next after call =>
      rw [call] at later sent
      obtain ⟨success', later', sent'⟩ := @writeFull_eq after resp later
      rw [sent, List.append_assoc] at sent'
      exact ⟨success', later', sent'⟩

/-! ## The loop -/

section

variable {σ : Type} (backend : Backend σ)

/-- A turn of the loop of `conn_main`, and whether there is another one. -/
def connTurn (conn : Connection σ) : Connection σ × Bool :=
  match readMessage conn.socket with
  | (none, socket) => ({ conn with socket := socket }, false)
  | (some query, socket) =>
      let called := backend conn.backend query
      let asked : Connection σ :=
        { conn with
          socket := socket
          backend := called.2
          queries := conn.queries + 1
          passed := conn.passed ++ [query] }
      -- an unanswerable query leaves the framing in step, and the connection open
      if ¬ called.1.Sent then (asked, true)
      else
        match sendResponse socket called.1.response with
        | (false, socket) => ({ asked with socket := socket }, false)
        | (true, socket) =>
            ({ asked with socket := socket, answered := conn.answered + 1 }, true)

/-- A turn that is not the last one has taken a message off the stream. -/
theorem connTurn_shrinks {conn : Connection σ} (again : (connTurn backend conn).2 = true) :
    (connTurn backend conn).1.socket.incoming.length < conn.socket.incoming.length := by
  unfold connTurn at again ⊢
  split at again
  · cases again
  next query socket read =>
  obtain ⟨_, shorter, _⟩ := readMessage_some read
  simp only
  have keeps := sendResponse_recvsLike socket (backend conn.backend query).1.response
  split
  · exact shorter
  · split
    · next after call =>
        rw [call] at keeps
        rw [keeps.1]
        exact shorter
    · next after call =>
        rw [call] at keeps
        rw [keeps.1]
        exact shorter

/-- The loop of `conn_main`. -/
def connLoop (conn : Connection σ) : Connection σ :=
  if _again : (connTurn backend conn).2 = true then connLoop (connTurn backend conn).1
  else (connTurn backend conn).1
termination_by conn.socket.incoming.length
decreasing_by exact connTurn_shrinks backend _again

/-- `conn_main`, from the allocation of the two buffers to their release. -/
def connMain (allocated : Bool) (conn : Connection σ) : Connection σ :=
  if allocated then connLoop backend conn else conn

/-! ## What a connection serves -/

/-- What the backend replies to a sequence of messages, and its state afterwards. -/
def backendReplies : σ → List Bytes → List BackendReply × σ
  | state, [] => ([], state)
  | state, message :: rest =>
      let called := backend state message
      let later := backendReplies called.2 rest
      (called.1 :: later.1, later.2)

/-- The responses among some replies that go to the client. -/
def sentResponses (replies : List BackendReply) : List Bytes :=
  (replies.filter (fun reply => reply.Sent)).map BackendReply.response

theorem sentResponses_cons (reply : BackendReply) (rest : List BackendReply) :
    sentResponses (reply :: rest) =
      (if reply.Sent then [reply.response] else []) ++ sentResponses rest := by
  unfold sentResponses
  by_cases sent : reply.Sent
  · rw [List.filter_cons_of_pos (by simpa using sent), if_pos sent]
    rfl
  · rw [List.filter_cons_of_neg (by simpa using sent), if_neg sent]
    rfl

theorem framable_of_mem_sentResponses {replies : List BackendReply} {response : Bytes}
    (member : response ∈ sentResponses replies) : Framable response := by
  obtain ⟨reply, kept, rfl⟩ := List.mem_map.mp member
  obtain ⟨_, nonempty, short⟩ := of_decide_eq_true (List.mem_filter.mp kept).2
  rw [dnsMaxTcpMsgLen] at short
  exact ⟨Nat.pos_of_ne_zero nonempty, by omega⟩

/-- A connection has served `messages` since an earlier state: the messages were passed to the
backend one by one, and the responses that it sends were sent, each in a frame. -/
structure Serves (before after : Connection σ) (messages : List Bytes) : Prop where
  passed : after.passed = before.passed ++ messages
  state : after.backend = (backendReplies backend before.backend messages).2
  outgoing : after.socket.outgoing = before.socket.outgoing ++
    (sentResponses (backendReplies backend before.backend messages).1).flatMap frame
  queries : after.queries = before.queries + messages.length
  answered : after.answered = before.answered +
    (sentResponses (backendReplies backend before.backend messages).1).length

/-- Serving a message and then others. -/
theorem Serves.cons {before between after : Connection σ} {message : Bytes} {rest : List Bytes}
    (first : Serves backend before between [message]) (later : Serves backend between after rest) :
    Serves backend before after (message :: rest) := by
  have state : between.backend = (backend before.backend message).2 := first.state
  have replies : (backendReplies backend before.backend (message :: rest)).1 =
      (backend before.backend message).1 :: (backendReplies backend between.backend rest).1 := by
    rw [state]
    rfl
  have one : (backendReplies backend before.backend [message]).1 =
      [(backend before.backend message).1] := rfl
  obtain ⟨passed, _, outgoing, queries, answered⟩ := first
  have rest_nil : sentResponses [] = [] := rfl
  rw [one, sentResponses_cons, rest_nil, List.append_nil] at outgoing answered
  constructor
  · rw [later.passed, passed, List.append_assoc]
    rfl
  · rw [later.state, state]
    rfl
  · rw [later.outgoing, outgoing, replies, sentResponses_cons, List.flatMap_append,
      List.append_assoc]
  · rw [later.queries, queries, List.length_cons, List.length_cons, List.length_nil]
    omega
  · rw [later.answered, answered, replies, sentResponses_cons, List.length_append, Nat.add_assoc]

/-- A turn without a message is the last one and changes nothing but the socket. -/
theorem connTurn_last {conn : Connection σ} (none : splitFrames conn.socket.incoming = []) :
    (connTurn backend conn).2 = false ∧ Serves backend conn (connTurn backend conn).1 [] := by
  unfold connTurn
  split
  · next socket read =>
      obtain ⟨_, sending⟩ := readMessage_none read
      refine ⟨rfl, ?_⟩
      constructor
      · exact (List.append_nil _).symm
      · rfl
      · exact sending.1.trans (List.append_nil _).symm
      · rfl
      · rfl
  · next query socket read =>
      rw [(readMessage_some read).1] at none
      cases none

/-- A turn with a message serves it, and there is another turn for the rest of the stream. -/
theorem connTurn_message {conn : Connection σ} {message : Bytes} {rest : List Bytes}
    (delivers : conn.socket.Delivers)
    (some : splitFrames conn.socket.incoming = message :: rest) :
    (connTurn backend conn).2 = true ∧ Serves backend conn (connTurn backend conn).1 [message] ∧
      (connTurn backend conn).1.socket.Delivers ∧
      splitFrames (connTurn backend conn).1.socket.incoming = rest := by
  unfold connTurn
  split
  · next socket read =>
      rw [(readMessage_none read).1] at some
      cases some
  next query socket read =>
  obtain ⟨frames, _, wire, schedule⟩ := readMessage_some read
  rw [some] at frames
  obtain ⟨rfl, rfl⟩ := List.cons.inj frames
  have ready : socket.Delivers := by
    rw [Socket.Delivers, schedule]
    exact delivers
  have replies : (backendReplies backend conn.backend [message]).1 =
      [(backend conn.backend message).1] := rfl
  simp only
  by_cases sent : (backend conn.backend message).1.Sent
  · rw [if_neg (not_not.mpr sent)]
    obtain ⟨success, later, outgoing⟩ :=
      sendResponse_eq ready (backend conn.backend message).1.response
    have stream := (sendResponse_recvsLike socket (backend conn.backend message).1.response).1
    split
    · next after call =>
        rw [call] at success
        cases success
    · next after call =>
        rw [call] at later outgoing stream
        refine ⟨rfl, ?_, later, by rw [stream]⟩
        constructor
        · rfl
        · rfl
        · rw [replies, sentResponses_cons, if_pos sent, outgoing, wire]
          simp [sentResponses]
        · rfl
        · rw [replies, sentResponses_cons, if_pos sent]
          rfl
  · rw [if_pos sent]
    refine ⟨rfl, ?_, ready, rfl⟩
    constructor
    · rfl
    · rfl
    · rw [replies, sentResponses_cons, if_neg sent, wire]
      simp [sentResponses]
    · rfl
    · rw [replies, sentResponses_cons, if_neg sent]
      rfl

/-- The loop serves the messages of the stream. -/
theorem connLoop_serves {conn : Connection σ} (delivers : conn.socket.Delivers) :
    Serves backend conn (connLoop backend conn) (splitFrames conn.socket.incoming) := by
  fun_induction connLoop backend conn with
  | case1 conn again ih =>
      cases frames : splitFrames conn.socket.incoming with
      | nil =>
          rw [(connTurn_last backend frames).1] at again
          cases again
      | cons message rest =>
          obtain ⟨_, serves, later, stream⟩ := connTurn_message backend delivers frames
          rw [stream] at ih
          exact serves.cons backend (ih later)
  | case2 conn last =>
      cases frames : splitFrames conn.socket.incoming with
      | nil => exact (connTurn_last backend frames).2
      | cons message rest => exact absurd (connTurn_message backend delivers frames).1 last

end

/-- A connection as `conn_main` finds it: the client will send `stream`, and nothing was sent
to it. -/
def Connection.start {σ : Type} (stream : Bytes) (ending : StreamEnd) (recvs : List RecvChoice)
    (sends : List SendChoice) (state : σ) : Connection σ where
  socket := ⟨stream, ending, recvs, [], sends⟩
  backend := state
  queries := 0
  answered := 0
  passed := []

/-- **Segmentation does not matter.** However the client's stream is cut into segments, however
`recv` and `send` are interrupted and however much `send` takes at a time, the messages passed
to the backend are the frames of the stream, and what is sent are the frames of the responses,
which a client that splits them the same way recovers. -/
theorem connMain_framing {σ : Type} (backend : Backend σ) (state : σ) (stream : Bytes)
    (ending : StreamEnd) (recvs : List RecvChoice) {sends : List SendChoice}
    (accepting : SendChoice.failed ∉ sends) :
    let served := connMain backend true (Connection.start stream ending recvs sends state)
    let responses := sentResponses (backendReplies backend state (splitFrames stream)).1
    served.passed = splitFrames stream ∧
      served.socket.outgoing = responses.flatMap frame ∧
      splitFrames served.socket.outgoing = responses ∧
      served.queries = (splitFrames stream).length ∧ served.answered = responses.length := by
  obtain ⟨passed, _, outgoing, queries, answered⟩ :=
    @connLoop_serves σ backend (Connection.start stream ending recvs sends state) accepting
  simp only [connMain, if_pos]
  refine ⟨passed, outgoing, ?_, ?_, ?_⟩
  · rw [outgoing]
    exact splitFrames_flatMap_frame fun _ => framable_of_mem_sentResponses
  · rw [queries]
    exact Nat.zero_add _
  · rw [answered]
    exact Nat.zero_add _

/-- Two queries that arrive byte by byte, of which the backend answers the second one. -/
theorem connMain_framing_example :
    let backend : Backend Nat := fun calls query => (⟨calls == 1, query⟩, calls + 1)
    let stream : Bytes := [0, 1, 7, 0, 2, 8, 9]
    let recvs := [.upTo 0, .interrupted, .upTo 0, .upTo 0, .upTo 1]
    let sends := [.upTo 1, .upTo 0, .interrupted]
    let served := connMain backend true (Connection.start stream .closed recvs sends 0)
    let responses := sentResponses (backendReplies backend 0 (splitFrames stream)).1
    served.passed = splitFrames stream ∧
      served.socket.outgoing = responses.flatMap frame ∧
      splitFrames served.socket.outgoing = responses ∧
      served.queries = (splitFrames stream).length ∧ served.answered = responses.length :=
  connMain_framing _ 0 _ .closed _ (by decide)

end FizzDns
