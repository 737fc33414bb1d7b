import FizzDns.Foundation.Framing

/-!
# Reading from and writing to a connection

The socket of a connection as `dns_tcp.c` sees it. A call of `recv` delivers some of the bytes
that the client has sent, at least one and at most as many as are asked for; a call of `send`
takes some of the bytes it is offered, possibly none; both can be interrupted. How many it is
each time is up to the kernel: `recvs` and `sends` are what it decides, call by call, and once
they are used up it does all that is asked.

`read_full` and `write_full` loop over such calls. What they achieve does not depend on the
decisions (`readFull_eq`, `writeFull_eq`).
-/

namespace FizzDns

/-- What the kernel decides about a call of `recv`. -/
inductive RecvChoice where
  | interrupted
  | upTo (more : Nat)
  deriving DecidableEq

/-- What the kernel decides about a call of `send`. -/
inductive SendChoice where
  | interrupted
  | upTo (count : Nat)
  | failed
  deriving DecidableEq

/-- What `recv` returns behind the last byte of the client. -/
inductive StreamEnd where
  | closed
  | failed
  deriving DecidableEq

/-- A connected socket: the bytes of the client that were not received yet, and the bytes that
were sent to it. -/
structure Socket where
  incoming : Bytes
  ending : StreamEnd
  recvs : List RecvChoice
  outgoing : Bytes
  sends : List SendChoice
  deriving DecidableEq

/-- What a call of `recv` returns. -/
inductive RecvResult where
  | received (chunk : Bytes)
  | interrupted
  | ended (ending : StreamEnd)
  deriving DecidableEq

/-- What a call of `send` returns. -/
inductive SendResult where
  | took (count : Nat)
  | interrupted
  | failed
  deriving DecidableEq

/-- A call of `recv` that is not interrupted and delivers up to `count` bytes. -/
def Socket.deliver (socket : Socket) (count : Nat) : RecvResult × Socket :=
  if socket.incoming = [] then (.ended socket.ending, socket)
  else (.received (socket.incoming.take count),
    { socket with incoming := socket.incoming.drop count })

/-- `recv` with a buffer of `want` bytes. -/
def Socket.recv (socket : Socket) (want : Nat) : RecvResult × Socket :=
  match socket.recvs with
  | .interrupted :: rest => (.interrupted, { socket with recvs := rest })
  | .upTo more :: rest => { socket with recvs := rest }.deliver (min (more + 1) want)
  | [] => socket.deliver want

/-- `send` of a buffer. -/
def Socket.send (socket : Socket) (buf : Bytes) : SendResult × Socket :=
  match socket.sends with
  | .interrupted :: rest => (.interrupted, { socket with sends := rest })
  | .failed :: rest => (.failed, { socket with sends := rest })
  | .upTo count :: rest =>
      (.took (min count buf.length),
        { socket with
          sends := rest
          outgoing := socket.outgoing ++ buf.take (min count buf.length) })
  | [] => (.took buf.length, { socket with outgoing := socket.outgoing ++ buf })

/-! ## Receiving -/

/-- The sending side of a socket is as it was. -/
def Socket.SendsLike (after before : Socket) : Prop :=
  after.outgoing = before.outgoing ∧ after.sends = before.sends

/-- A call of `recv` with a result takes a nonempty chunk off the stream. -/
theorem Socket.recv_received {socket after : Socket} {want : Nat} {chunk : Bytes}
    (positive : 0 < want) (call : socket.recv want = (.received chunk, after)) :
    0 < chunk.length ∧ chunk.length ≤ want ∧ socket.incoming = chunk ++ after.incoming ∧
      after.recvs.length ≤ socket.recvs.length ∧ after.SendsLike socket := by
  have delivers : ∀ {sock : Socket} {count : Nat}, sock.deliver count = (.received chunk, after) →
      0 < count → count ≤ want → sock.incoming = socket.incoming →
      sock.recvs.length ≤ socket.recvs.length → sock.SendsLike socket →
      0 < chunk.length ∧ chunk.length ≤ want ∧ socket.incoming = chunk ++ after.incoming ∧
        after.recvs.length ≤ socket.recvs.length ∧ after.SendsLike socket := by
    intro sock count delivered some most stream fewer sending
    rw [deliver] at delivered
    split at delivered
    · cases delivered
    next nonempty =>
    cases delivered
    have left := List.length_pos_iff.mpr nonempty
    refine ⟨?_, ?_, ?_, fewer, sending⟩
    · rw [List.length_take]
      omega
    · exact (List.length_take_le _ _).trans most
    · rw [List.take_append_drop, stream]
  unfold recv at call
  split at call
  · cases call
  · next more rest choice =>
      apply delivers call
      · omega
      · exact Nat.min_le_right _ _
      · rfl
      · rw [choice]
        exact Nat.le_succ _
      · exact ⟨rfl, rfl⟩
  · exact delivers call positive (Nat.le_refl _) rfl (Nat.le_refl _) ⟨rfl, rfl⟩

/-- An interrupted call of `recv` uses up a decision of the kernel. -/
theorem Socket.recv_interrupted {socket after : Socket} {want : Nat}
    (call : socket.recv want = (.interrupted, after)) :
    after.recvs.length < socket.recvs.length ∧ after.incoming = socket.incoming ∧
      after.SendsLike socket := by
  have delivers : ∀ {sock : Socket} {count : Nat},
      sock.deliver count ≠ (.interrupted, after) := by
    intro sock count delivered
    rw [deliver] at delivered
    split at delivered <;> cases delivered
  unfold recv at call
  split at call
  · next rest choice =>
      cases call
      rw [choice]
      exact ⟨Nat.lt_succ_self _, rfl, rfl, rfl⟩
  · exact absurd call delivers
  · exact absurd call delivers

/-- `recv` reports an end only when nothing is left of the stream. -/
theorem Socket.recv_ended {socket after : Socket} {want : Nat} {ending : StreamEnd}
    (call : socket.recv want = (.ended ending, after)) :
    socket.incoming = [] ∧ after.incoming = [] ∧ after.SendsLike socket := by
  have delivers : ∀ {sock : Socket} {count : Nat}, sock.deliver count = (.ended ending, after) →
      sock.incoming = socket.incoming → sock.SendsLike socket →
      socket.incoming = [] ∧ after.incoming = [] ∧ after.SendsLike socket := by
    intro sock count delivered stream sending
    rw [deliver] at delivered
    split at delivered
    · next empty =>
        cases delivered
        exact ⟨stream ▸ empty, empty, sending⟩
    · cases delivered
  unfold recv at call
  split at call
  · cases call
  · exact delivers call rfl ⟨rfl, rfl⟩
  · exact delivers call rfl ⟨rfl, rfl⟩

/-- `read_full` with `got` already in the buffer: the buffer once it holds `n` bytes, or
`none` where the source returns false. -/
def readFull (socket : Socket) (n : Nat) (got : Bytes) : Option Bytes × Socket :=
  if _short : got.length < n then
    match _call : socket.recv (n - got.length) with
    | (.ended _, after) => (none, after)
    | (.interrupted, after) => readFull after n got
    | (.received chunk, after) => readFull after n (got ++ chunk)
  else (some got, socket)
termination_by socket.recvs.length + (n - got.length)
decreasing_by
  · have fewer := (Socket.recv_interrupted _call).1
    omega
  · obtain ⟨some, _, _, fewer, _⟩ := Socket.recv_received (by omega) _call
    rw [List.length_append]
    omega

/-- `read_full` succeeds just when the rest of the stream is long enough, and then it takes
what is missing from the front of it. -/
theorem readFull_eq {socket : Socket} {n : Nat} {got : Bytes} (room : got.length ≤ n) :
    (readFull socket n got).2.SendsLike socket ∧
    (n - got.length ≤ socket.incoming.length →
      (readFull socket n got).1 = some (got ++ socket.incoming.take (n - got.length)) ∧
      (readFull socket n got).2.incoming = socket.incoming.drop (n - got.length)) ∧
    (socket.incoming.length < n - got.length → (readFull socket n got).1 = none) := by
  fun_induction readFull socket n got with
  | case1 socket got short after ending call =>
      obtain ⟨empty, _, sending⟩ := Socket.recv_ended call
      refine ⟨sending, fun enough => ?_, fun _ => rfl⟩
      rw [empty, List.length_nil] at enough
      omega
  | case2 socket got short after call ih =>
      obtain ⟨_, stream, sending⟩ := Socket.recv_interrupted call
      obtain ⟨keeps, whole, partially⟩ := ih room
      rw [stream] at whole partially
      exact ⟨⟨keeps.1.trans sending.1, keeps.2.trans sending.2⟩, whole, partially⟩
  | case3 socket got short chunk after call ih =>
      obtain ⟨_, most, stream, _, sending⟩ := Socket.recv_received (by omega) call
      have size : (got ++ chunk).length = got.length + chunk.length := List.length_append
      obtain ⟨keeps, whole, partially⟩ := ih (by omega)
      have missing : n - got.length = chunk.length + (n - (got ++ chunk).length) := by omega
      have left := congrArg List.length stream
      rw [List.length_append] at left
      refine ⟨⟨keeps.1.trans sending.1, keeps.2.trans sending.2⟩, fun enough => ?_, fun few => ?_⟩
      · obtain ⟨result, rest⟩ := whole (by omega)
        rw [result, rest, stream, missing, List.take_length_add_append,
          List.drop_length_add_append, List.append_assoc]
        exact ⟨rfl, rfl⟩
      · exact partially (by omega)
  | case4 socket got full =>
      have none : n - got.length = 0 := by omega
      rw [none]
      refine ⟨⟨rfl, rfl⟩, fun _ => ?_, fun few => ?_⟩
      · rw [List.take_zero, List.append_nil, List.drop_zero]
        exact ⟨rfl, rfl⟩
      · cases few

/-! ## Sending -/

/-- The receiving side of a socket is as it was. -/
def Socket.RecvsLike (after before : Socket) : Prop :=
  after.incoming = before.incoming ∧ after.recvs = before.recvs

/-- No call of `send` fails from here on. -/
def Socket.Delivers (socket : Socket) : Prop :=
  SendChoice.failed ∉ socket.sends

/-- A call of `send` with a result puts the front of the buffer on the wire. It takes all of
it, or uses up a decision of the kernel. -/
theorem Socket.send_took {socket after : Socket} {buf : Bytes} {count : Nat}
    (call : socket.send buf = (.took count, after)) :
    after.outgoing = socket.outgoing ++ buf.take count ∧ after.RecvsLike socket ∧
      after.sends <:+ socket.sends ∧
      (buf.length ≤ count ∨ after.sends.length < socket.sends.length) := by
  unfold send at call
  split at call
  · cases call
  · cases call
  · next rest choice =>
      cases call
      rw [choice]
      exact ⟨rfl, ⟨rfl, rfl⟩, List.suffix_cons _ _, Or.inr (Nat.lt_succ_self _)⟩
  · cases call
    rw [List.take_length]
    exact ⟨rfl, ⟨rfl, rfl⟩, List.suffix_refl _, Or.inl (Nat.le_refl _)⟩

/-- An interrupted call of `send` uses up a decision of the kernel. -/
theorem Socket.send_interrupted {socket after : Socket} {buf : Bytes}
    (call : socket.send buf = (.interrupted, after)) :
    after.outgoing = socket.outgoing ∧ after.RecvsLike socket ∧ after.sends <:+ socket.sends ∧
      after.sends.length < socket.sends.length := by
  unfold send at call
  split at call
  · next rest choice =>
      cases call
      rw [choice]
      exact ⟨rfl, ⟨rfl, rfl⟩, List.suffix_cons _ _, Nat.lt_succ_self _⟩
  · cases call
  · cases call
  · cases call

/-- A call of `send` fails only if the kernel decides so. -/
theorem Socket.send_failed {socket after : Socket} {buf : Bytes}
    (call : socket.send buf = (.failed, after)) :
    after.RecvsLike socket ∧ ¬ socket.Delivers := by
  unfold send at call
  split at call
  · cases call
  · next rest choice =>
      cases call
      refine ⟨⟨rfl, rfl⟩, fun delivers => ?_⟩
      rw [Delivers, choice] at delivers
      exact delivers List.mem_cons_self
  · cases call
  · cases call

theorem Socket.Delivers.of_suffix {socket after : Socket} (delivers : socket.Delivers)
    (suffix : after.sends <:+ socket.sends) : after.Delivers :=
  fun fails => delivers (suffix.subset fails)

/-- `write_full` of what is left of the buffer. -/
def writeFull (socket : Socket) (buf : Bytes) : Bool × Socket :=
  if _left : 0 < buf.length then
    match _call : socket.send buf with
    | (.failed, after) => (false, after)
    | (.interrupted, after) => writeFull after buf
    | (.took count, after) => writeFull after (buf.drop count)
  else (true, socket)
termination_by socket.sends.length + buf.length
decreasing_by
  · have fewer := (Socket.send_interrupted _call).2.2.2
    omega
  · obtain ⟨_, _, suffix, progress⟩ := Socket.send_took _call
    have fewer := suffix.length_le
    rw [List.length_drop]
    omega

/-- `write_full` leaves the receiving side alone, whether it succeeds or not. -/
theorem writeFull_recvsLike (socket : Socket) (buf : Bytes) :
    (writeFull socket buf).2.RecvsLike socket := by
  fun_induction writeFull socket buf with
  | case1 socket buf left after call => exact (Socket.send_failed call).1
  | case2 socket buf left after call ih =>
      obtain ⟨_, receiving, _⟩ := Socket.send_interrupted call
      exact ⟨ih.1.trans receiving.1, ih.2.trans receiving.2⟩
  | case3 socket buf left count after call ih =>
      obtain ⟨_, receiving, _⟩ := Socket.send_took call
      exact ⟨ih.1.trans receiving.1, ih.2.trans receiving.2⟩
  | case4 socket buf done => exact ⟨rfl, rfl⟩

/-- Unless a call of `send` fails, `write_full` puts the whole buffer on the wire. -/
theorem writeFull_eq {socket : Socket} {buf : Bytes} (delivers : socket.Delivers) :
    (writeFull socket buf).1 = true ∧ (writeFull socket buf).2.Delivers ∧
      (writeFull socket buf).2.outgoing = socket.outgoing ++ buf := by
  fun_induction writeFull socket buf with
  | case1 socket buf left after call => exact absurd delivers (Socket.send_failed call).2
  | case2 socket buf left after call ih =>
      obtain ⟨wire, _, suffix, _⟩ := Socket.send_interrupted call
      rw [← wire]
      exact ih (delivers.of_suffix suffix)
  | case3 socket buf left count after call ih =>
      obtain ⟨wire, _, suffix, _⟩ := Socket.send_took call
      obtain ⟨success, later, sent⟩ := ih (delivers.of_suffix suffix)
      rw [wire, List.append_assoc, List.take_append_drop] at sent
      exact ⟨success, later, sent⟩
  | case4 socket buf done =>
      have empty : buf = [] := List.length_eq_zero_iff.mp (Nat.eq_zero_of_not_pos done)
      rw [empty, List.append_nil]
      exact ⟨rfl, delivers, rfl⟩

end FizzDns
