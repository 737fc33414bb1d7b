import FizzDns.Foundation.CondVar
import FizzDns.Foundation.Schedule
import FizzDns.Msg.Parse

/-!
# The UDP server

`server.c`: the main thread receives datagrams and puts them into a queue of at most `maxPending`
jobs; workers take them out, resolve them and send the replies. When it is told to stop, the main
thread shuts the queue down and waits for the workers.

Every event is what one thread does between two points where another may come in: a system call,
a part under the queue's mutex, a signal, a counter. `recvfrom` may return any datagram, and
`sendto` may fail. `backend moment query` is what `dns_resolve_query` returns for a query, with all
that it depends on besides the query put into `moment`: a response, or `none` for an error. The
queue is a list here; `Xdp.JobQueue` has the same code on linked jobs.
-/

namespace FizzDns.Udp

/-- `MAX_PENDING`. -/
def maxPending : Nat := 4096

/-- `RECV_BUF`. -/
def recvBuf : Nat := 1500

/-- The address and the port of a `struct sockaddr_in`. -/
structure SockaddrIn where
  addr : UInt32
  port : UInt16
  deriving DecidableEq

/-- `struct udp_job`: who asked, and the first `len` bytes of `msg`. -/
structure UdpJob where
  client : SockaddrIn
  msg : Bytes
  fits : msg.length ≤ recvBuf
  deriving DecidableEq

/-- What `recvfrom` leaves in a job: the datagram, cut to the buffer. -/
def UdpJob.received (client : SockaddrIn) (datagram : Bytes) : UdpJob where
  client := client
  msg := datagram.take recvBuf
  fits := List.length_take_le _ _

/-! ## The queue -/

/-- The static `q`, without its lock and condition variable. -/
structure Queue where
  jobs : List UdpJob
  cap : Nat
  shutdown : Bool

/-- `queue_init`. -/
def queueInit (cap : Nat) : Queue := ⟨[], cap, false⟩

/-- `queue_push` under the mutex: whether the job was taken. -/
def queuePush (job : UdpJob) (q : Queue) : Bool × Queue :=
  if q.shutdown || decide (q.jobs.length ≥ q.cap) then (false, q)
  else (true, { q with jobs := q.jobs ++ [job] })

/-- What `queue_pop_wait` finds under the mutex. -/
inductive Popped where
  | job (job : UdpJob)
  | nothing
  | closed

/-- One turn of `queue_pop_wait` under the mutex. -/
def queuePop (q : Queue) : Popped × Queue :=
  match q.jobs with
  | job :: rest => (.job job, { q with jobs := rest })
  | [] => if q.shutdown then (.closed, q) else (.nothing, q)

/-- `queue_shutdown` under the mutex. -/
def queueShutdown (q : Queue) : Queue :=
  { q with shutdown := true }

/-! ## The threads -/

/-- Where the main thread is: before `recvfrom`, before the mutex of `queue_push`, before its
signal, behind the loop, before the broadcast of `queue_shutdown`, at `pthread_join`, or behind
it. -/
inductive MainPc where
  | receiving
  | pushing (job : UdpJob)
  | signalling
  | stopping
  | broadcasting
  | joining
  | exited
  deriving DecidableEq

/-- Where a worker is: in `queue_pop_wait`, before `dns_resolve_query`, before `sendto`, or behind
its loop. -/
inductive WorkerPc where
  | popping
  | resolving (job : UdpJob)
  | sending (job : UdpJob) (reply : Bytes)
  | exited
  deriving DecidableEq

/-- What becomes of a job that a worker has taken. -/
inductive Fate where
  | answered (reply : Bytes)
  | unsent (reply : Bytes)
  | unparsed
  deriving DecidableEq

/-- The static variables of `server.c` and its threads. `received`, `refused` and `handled` record
what has become of the datagrams; no step reads them. Nor does one read the counters, which are of
64 bits in the source and hold these numbers modulo `2 ^ 64`. -/
structure Server (numWorkers : Nat) where
  q : Queue
  notEmpty : CondVar (Fin numWorkers) Unit
  main : MainPc
  workers : Fin numWorkers → WorkerPc
  rxCount : Nat
  txCount : Nat
  dropParse : Nat
  dropBacklog : Nat
  received : List UdpJob
  refused : List UdpJob
  handled : List (UdpJob × Fate)

/-- What happens next. `pop` is a worker's turn under the mutex of `queue_pop_wait`, `wake` a wakeup
without a signal. -/
inductive Event (μ : Type) (numWorkers : Nat) where
  | receive (client : SockaddrIn) (datagram : Bytes)
  | push
  | signal (chosen : Option (Fin numWorkers))
  | stop
  | shutdown
  | broadcast
  | join
  | pop (w : Fin numWorkers)
  | wake (w : Fin numWorkers)
  | resolve (w : Fin numWorkers) (moment : μ)
  | send (w : Fin numWorkers) (sent : Bool)

namespace Server

variable {μ : Type} {numWorkers : Nat}

/-- The threads at their start. -/
def start (numWorkers : Nat) : Server numWorkers where
  q := queueInit maxPending
  notEmpty := .idle
  main := .receiving
  workers := fun _ => .popping
  rxCount := 0
  txCount := 0
  dropParse := 0
  dropBacklog := 0
  received := []
  refused := []
  handled := []

/-- A worker moves. -/
def setWorker (w : Fin numWorkers) (pc : WorkerPc) (s : Server numWorkers) : Server numWorkers :=
  { s with workers := Function.update s.workers w pc }

/-- A worker is done with a job. -/
def finish (w : Fin numWorkers) (job : UdpJob) (fate : Fate) (s : Server numWorkers) :
    Server numWorkers :=
  { s with
    handled := s.handled ++ [(job, fate)]
    workers := Function.update s.workers w .popping }

/-- The main thread receives a datagram. -/
def receive (client : SockaddrIn) (datagram : Bytes) (s : Server numWorkers) : Server numWorkers :=
  { s with
    rxCount := s.rxCount + 1
    main := .pushing (.received client datagram)
    received := s.received ++ [.received client datagram] }

/-- The main thread offers a job to the queue. -/
def offer (job : UdpJob) (s : Server numWorkers) : Server numWorkers :=
  match queuePush job s.q with
  | (true, q) => { s with q := q, main := .signalling, notEmpty := s.notEmpty.owe () }
  | (false, q) =>
      { s with
        q := q
        main := .receiving
        dropBacklog := s.dropBacklog + 1
        refused := s.refused ++ [job] }

/-- A worker looks at the queue. -/
def look (w : Fin numWorkers) (s : Server numWorkers) : Server numWorkers :=
  match queuePop s.q with
  | (.job job, q) => { s with q := q, notEmpty := s.notEmpty.leave w }.setWorker w (.resolving job)
  | (.closed, q) => { s with q := q, notEmpty := s.notEmpty.leave w }.setWorker w .exited
  | (.nothing, q) => { s with q := q, notEmpty := s.notEmpty.wait w }

/-- A worker has a result of `dns_resolve_query`. -/
def resolved (w : Fin numWorkers) (job : UdpJob) (answer : Option Bytes) (s : Server numWorkers) :
    Server numWorkers :=
  match answer with
  | some reply =>
      if reply.length > 0 then s.setWorker w (.sending job reply)
      else { s with dropParse := s.dropParse + 1 }.finish w job .unparsed
  | none => { s with dropParse := s.dropParse + 1 }.finish w job .unparsed

/-- A worker has sent a reply, or not. -/
def replied (w : Fin numWorkers) (job : UdpJob) (reply : Bytes) (sent : Bool)
    (s : Server numWorkers) : Server numWorkers :=
  if sent then { s with txCount := s.txCount + 1 }.finish w job (.answered reply)
  else s.finish w job (.unsent reply)

/-- One event. -/
def step (backend : μ → Bytes → Option Bytes) (event : Event μ numWorkers)
    (s : Server numWorkers) : Option (Server numWorkers) :=
  match event with
  | .receive client datagram =>
      match s.main with
      | .receiving => some (s.receive client datagram)
      | _ => none
  | .push =>
      match s.main with
      | .pushing job => some (s.offer job)
      | _ => none
  | .signal chosen =>
      match s.main with
      | .signalling => do
          let notEmpty ← s.notEmpty.signal () chosen
          some { s with main := .receiving, notEmpty := notEmpty }
      | _ => none
  | .stop =>
      match s.main with
      | .receiving => some { s with main := .stopping }
      | _ => none
  | .shutdown =>
      match s.main with
      | .stopping =>
          some { s with
            q := queueShutdown s.q, main := .broadcasting, notEmpty := s.notEmpty.close }
      | _ => none
  | .broadcast =>
      match s.main with
      | .broadcasting => some { s with main := .joining, notEmpty := s.notEmpty.broadcast }
      | _ => none
  | .join =>
      match s.main with
      | .joining =>
          if ∀ w, s.workers w = .exited then some { s with main := .exited } else none
      | _ => none
  | .pop w =>
      match s.workers w with
      | .popping => if w ∈ s.notEmpty.waiting then none else some (s.look w)
      | _ => none
  | .wake w =>
      if w ∈ s.notEmpty.waiting then some { s with notEmpty := s.notEmpty.wake w } else none
  | .resolve w moment =>
      match s.workers w with
      | .resolving job => some (s.resolved w job (backend moment job.msg))
      | _ => none
  | .send w sent =>
      match s.workers w with
      | .sending job reply => some (s.replied w job reply sent)
      | _ => none

/-- The same, one rule for each thing that can happen. -/
inductive Moves (backend : μ → Bytes → Option Bytes) :
    Event μ numWorkers → Server numWorkers → Server numWorkers → Prop where
  | receive {s : Server numWorkers} (client : SockaddrIn) (datagram : Bytes)
      (here : s.main = .receiving) :
      Moves backend (.receive client datagram) s (s.receive client datagram)
  | accept {s : Server numWorkers} {job : UdpJob} (here : s.main = .pushing job)
      (opened : s.q.shutdown = false) (room : s.q.jobs.length < s.q.cap) :
      Moves backend .push s { s with
        q := { s.q with jobs := s.q.jobs ++ [job] }
        main := .signalling
        notEmpty := s.notEmpty.owe () }
  | refuse {s : Server numWorkers} {job : UdpJob} (here : s.main = .pushing job) :
      Moves backend .push s { s with
        main := .receiving
        dropBacklog := s.dropBacklog + 1
        refused := s.refused ++ [job] }
  | signal {s : Server numWorkers} {chosen : Option (Fin numWorkers)}
      {notEmpty : CondVar (Fin numWorkers) Unit} (here : s.main = .signalling)
      (signalled : s.notEmpty.signal () chosen = some notEmpty) :
      Moves backend (.signal chosen) s { s with main := .receiving, notEmpty := notEmpty }
  | stop {s : Server numWorkers} (here : s.main = .receiving) :
      Moves backend .stop s { s with main := .stopping }
  | shutdown {s : Server numWorkers} (here : s.main = .stopping) :
      Moves backend .shutdown s
        { s with q := queueShutdown s.q, main := .broadcasting, notEmpty := s.notEmpty.close }
  | broadcast {s : Server numWorkers} (here : s.main = .broadcasting) :
      Moves backend .broadcast s { s with main := .joining, notEmpty := s.notEmpty.broadcast }
  | join {s : Server numWorkers} (here : s.main = .joining)
      (ended : ∀ w, s.workers w = .exited) : Moves backend .join s { s with main := .exited }
  | take {s : Server numWorkers} {w : Fin numWorkers} {job : UdpJob} {rest : List UdpJob}
      (here : s.workers w = .popping) (awake : w ∉ s.notEmpty.waiting)
      (jobs : s.q.jobs = job :: rest) :
      Moves backend (.pop w) s ({ s with
        q := { s.q with jobs := rest }
        notEmpty := s.notEmpty.leave w }.setWorker w (.resolving job))
  | exit {s : Server numWorkers} {w : Fin numWorkers} (here : s.workers w = .popping)
      (awake : w ∉ s.notEmpty.waiting) (jobs : s.q.jobs = []) (closed : s.q.shutdown = true) :
      Moves backend (.pop w) s ({ s with notEmpty := s.notEmpty.leave w }.setWorker w .exited)
  | wait {s : Server numWorkers} {w : Fin numWorkers} (here : s.workers w = .popping)
      (awake : w ∉ s.notEmpty.waiting) (jobs : s.q.jobs = []) (opened : s.q.shutdown = false) :
      Moves backend (.pop w) s { s with notEmpty := s.notEmpty.wait w }
  | wake {s : Server numWorkers} {w : Fin numWorkers} (waits : w ∈ s.notEmpty.waiting) :
      Moves backend (.wake w) s { s with notEmpty := s.notEmpty.wake w }
  | answer {s : Server numWorkers} {w : Fin numWorkers} {job : UdpJob} {reply : Bytes}
      (moment : μ) (here : s.workers w = .resolving job)
      (answered : backend moment job.msg = some reply) (nonempty : reply.length > 0) :
      Moves backend (.resolve w moment) s (s.setWorker w (.sending job reply))
  | drop {s : Server numWorkers} {w : Fin numWorkers} {job : UdpJob} (moment : μ)
      (here : s.workers w = .resolving job)
      (unanswered : ∀ reply, backend moment job.msg = some reply → reply.length = 0) :
      Moves backend (.resolve w moment) s
        ({ s with dropParse := s.dropParse + 1 }.finish w job .unparsed)
  | send {s : Server numWorkers} {w : Fin numWorkers} {job : UdpJob} {reply : Bytes}
      (here : s.workers w = .sending job reply) :
      Moves backend (.send w true) s
        ({ s with txCount := s.txCount + 1 }.finish w job (.answered reply))
  | lose {s : Server numWorkers} {w : Fin numWorkers} {job : UdpJob} {reply : Bytes}
      (here : s.workers w = .sending job reply) :
      Moves backend (.send w false) s (s.finish w job (.unsent reply))

variable {backend : μ → Bytes → Option Bytes} {event : Event μ numWorkers}
  {s next : Server numWorkers}

/-- What a push can do. -/
theorem moves_offer {job : UdpJob} (here : s.main = .pushing job) :
    Moves backend .push s (s.offer job) := by
  unfold offer queuePush
  by_cases refused : s.q.shutdown || decide (s.q.jobs.length ≥ s.q.cap)
  · rw [if_pos refused]
    exact .refuse here
  · rw [if_neg refused]
    simp only [Bool.or_eq_true, decide_eq_true_eq, not_or, Bool.not_eq_true, Nat.not_le] at refused
    exact .accept here refused.1 refused.2

/-- What a look at the queue can do. -/
theorem moves_look {w : Fin numWorkers} (here : s.workers w = .popping)
    (awake : w ∉ s.notEmpty.waiting) : Moves backend (.pop w) s (s.look w) := by
  unfold look queuePop
  cases jobs : s.q.jobs with
  | cons job rest => exact .take here awake jobs
  | nil =>
      cases closed : s.q.shutdown with
      | true =>
          exact .exit here awake jobs closed
      | false => exact .wait here awake jobs closed

/-- What a result can do. -/
theorem moves_resolved {w : Fin numWorkers} {job : UdpJob} (moment : μ)
    (here : s.workers w = .resolving job) :
    Moves backend (.resolve w moment) s (s.resolved w job (backend moment job.msg)) := by
  cases answered : backend moment job.msg with
  | none => exact .drop moment here (by simp [answered])
  | some reply =>
      simp only [resolved]
      split
      · next nonempty => exact .answer moment here answered nonempty
      · next empty =>
          refine .drop moment here fun other same => ?_
          obtain rfl := Option.some.inj (answered.symm.trans same)
          exact Nat.eq_zero_of_not_pos empty

theorem moves_of_step (stepped : s.step backend event = some next) :
    Moves backend event s next := by
  cases event with
  | receive client datagram =>
      simp only [step] at stepped
      split at stepped
      · next here =>
          cases stepped
          exact .receive client datagram here
      · cases stepped
  | push =>
      simp only [step] at stepped
      split at stepped
      · next here =>
          cases stepped
          exact moves_offer here
      · cases stepped
  | signal chosen =>
      simp only [step] at stepped
      split at stepped
      · next here =>
          obtain ⟨notEmpty, signalled, done⟩ := Option.bind_eq_some_iff.mp stepped
          cases done
          exact .signal here signalled
      · cases stepped
  | stop =>
      simp only [step] at stepped
      split at stepped
      · next here =>
          cases stepped
          exact .stop here
      · cases stepped
  | shutdown =>
      simp only [step] at stepped
      split at stepped
      · next here =>
          cases stepped
          exact .shutdown here
      · cases stepped
  | broadcast =>
      simp only [step] at stepped
      split at stepped
      · next here =>
          cases stepped
          exact .broadcast here
      · cases stepped
  | join =>
      simp only [step] at stepped
      split at stepped
      · next here =>
          split at stepped
          · next ended =>
              cases stepped
              exact .join here ended
          · cases stepped
      · cases stepped
  | pop w =>
      simp only [step] at stepped
      split at stepped
      · next here =>
          split at stepped
          · cases stepped
          · next awake =>
              cases stepped
              exact moves_look here awake
      · cases stepped
  | wake w =>
      simp only [step] at stepped
      split at stepped
      · next waits =>
          cases stepped
          exact .wake waits
      · cases stepped
  | resolve w moment =>
      simp only [step] at stepped
      split at stepped
      · next here =>
          cases stepped
          exact moves_resolved moment here
      · cases stepped
  | send w sent =>
      simp only [step] at stepped
      split at stepped
      · next here =>
          cases stepped
          cases sent with
          | true => exact .send here
          | false => exact .lose here
      · cases stepped

end Server

end FizzDns.Udp
