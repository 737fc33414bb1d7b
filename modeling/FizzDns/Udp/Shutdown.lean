import FizzDns.Udp.Server

/-!
# Every datagram is accounted for

What holds in every state of the UDP server, whatever order its threads run in:

* `DatagramsAccounted`: every received datagram is in exactly one place: refused for a full queue,
  with the main thread, in the queue, with a worker, or handled; and the counters count them.
* `Ordered`: no wakeup is lost, and no worker leaves while there are jobs.

So the queue cannot hold jobs while all workers sleep (`no_lost_wakeup`), and once the server is
told to stop, it comes to its end after a bounded number of events (`shutdown_ends`), with
everything it had accepted handled (`datagrams_accounted`).
-/

namespace FizzDns.Udp

open Server

/-- The queue has been shut down. -/
def MainPc.closed : MainPc → Bool
  | .broadcasting => true
  | .joining => true
  | .exited => true
  | .receiving => false
  | .pushing _ => false
  | .signalling => false
  | .stopping => false

/-- The job that the main thread has not offered yet. -/
def MainPc.held : MainPc → Multiset UdpJob
  | .pushing job => {job}
  | _ => 0

/-- The job that a worker has. -/
def WorkerPc.held : WorkerPc → Multiset UdpJob
  | .resolving job => {job}
  | .sending job _ => {job}
  | .popping => 0
  | .exited => 0

/-- A reply has been sent. -/
def Fate.isAnswered : Fate → Bool
  | .answered _ => true
  | _ => false

/-- There was no reply to send. -/
def Fate.isUnparsed : Fate → Bool
  | .unparsed => true
  | _ => false

variable {μ : Type} {numWorkers : Nat} {backend : μ → Bytes → Option Bytes}

/-- The backend has returned a reply for a job. -/
def BackendReplied (backend : μ → Bytes → Option Bytes) (job : UdpJob) (reply : Bytes) : Prop :=
  ∃ moment, backend moment job.msg = some reply ∧ reply.length > 0

/-- What has become of a job is what the backend returned for it. -/
def Fate.Of (backend : μ → Bytes → Option Bytes) (job : UdpJob) : Fate → Prop
  | .answered reply => BackendReplied backend job reply
  | .unsent reply => BackendReplied backend job reply
  | .unparsed => ∃ moment, ∀ reply, backend moment job.msg = some reply → reply.length = 0

/-! ## Datagrams -/

/-- Every datagram is in one place, the counters are right, and what is done with a datagram is what
the backend returned for it. -/
structure DatagramsAccounted (backend : μ → Bytes → Option Bytes) (s : Server numWorkers) :
    Prop where
  places : (s.received : Multiset UdpJob) = s.refused + s.main.held + s.q.jobs +
    ∑ w, (s.workers w).held + s.handled.map Prod.fst
  rx : s.rxCount = s.received.length
  backlog : s.dropBacklog = s.refused.length
  tx : s.txCount = s.handled.countP (·.2.isAnswered)
  parse : s.dropParse = s.handled.countP (·.2.isUnparsed)
  sending : ∀ w job reply, s.workers w = .sending job reply → BackendReplied backend job reply
  fates : ∀ entry ∈ s.handled, entry.2.Of backend entry.1

namespace DatagramsAccounted

variable {s next : Server numWorkers} {event : Event μ numWorkers}

theorem start : DatagramsAccounted backend (Server.start numWorkers) where
  places := by simp [Server.start, queueInit, MainPc.held, WorkerPc.held]
  rx := rfl
  backlog := rfl
  tx := rfl
  parse := rfl
  sending := fun w job reply here => by cases here
  fates := fun entry member => by cases member

/-- The main thread moves. -/
theorem of_main (accounted : DatagramsAccounted backend s) (workers : next.workers = s.workers)
    (handled : next.handled = s.handled) (tx : next.txCount = s.txCount)
    (parse : next.dropParse = s.dropParse)
    (places : (next.received : Multiset UdpJob) + (s.refused + s.main.held + s.q.jobs) =
      s.received + (next.refused + next.main.held + next.q.jobs))
    (rx : next.rxCount = next.received.length) (backlog : next.dropBacklog = next.refused.length) :
    DatagramsAccounted backend next where
  places := by
    rw [workers, handled]
    rw [accounted.places] at places
    refine add_right_cancel (b := s.refused + s.main.held + s.q.jobs) (places.trans ?_)
    ac_rfl
  rx := rx
  backlog := backlog
  tx := by rw [tx, handled, accounted.tx]
  parse := by rw [parse, handled, accounted.parse]
  sending := by
    rw [workers]
    exact accounted.sending
  fates := by
    rw [handled]
    exact accounted.fates

/-- A worker moves, and takes a job from the queue or keeps the one it has. -/
theorem of_worker (accounted : DatagramsAccounted backend s) {w : Fin numWorkers} {pc : WorkerPc}
    (workers : next.workers = Function.update s.workers w pc) (main : next.main = s.main)
    (received : next.received = s.received) (refused : next.refused = s.refused)
    (handled : next.handled = s.handled) (tx : next.txCount = s.txCount)
    (parse : next.dropParse = s.dropParse) (rx : next.rxCount = s.rxCount)
    (backlog : next.dropBacklog = s.dropBacklog)
    (places : (s.q.jobs : Multiset UdpJob) + (s.workers w).held = next.q.jobs + pc.held)
    (sending : ∀ job reply, pc = .sending job reply → BackendReplied backend job reply) :
    DatagramsAccounted backend next where
  places := by
    have moved := Schedule.sum_weight_update WorkerPc.held s.workers w pc
    rw [received, refused, main, handled, workers, accounted.places]
    refine add_right_cancel (b := (s.workers w).held + pc.held) ?_
    calc _ = s.refused + s.main.held + (s.q.jobs + (s.workers w).held) +
          (∑ w, (s.workers w).held + pc.held) + s.handled.map Prod.fst := by ac_rfl
      _ = _ := by
          rw [places, ← moved]
          ac_rfl
  rx := by rw [rx, received, accounted.rx]
  backlog := by rw [backlog, refused, accounted.backlog]
  tx := by rw [tx, handled, accounted.tx]
  parse := by rw [parse, handled, accounted.parse]
  sending := fun other job reply here => by
    rw [workers] at here
    by_cases same : other = w
    · subst same
      rw [Function.update_self] at here
      exact sending job reply here
    · rw [Function.update_of_ne same] at here
      exact accounted.sending other job reply here
  fates := by
    rw [handled]
    exact accounted.fates

/-- A worker is done with its job. -/
theorem of_finish (accounted : DatagramsAccounted backend s) {w : Fin numWorkers} {job : UdpJob}
    (fate : Fate) (held : (s.workers w).held = {job}) {tx parse : Nat}
    (txRight : tx = s.txCount + [fate].countP Fate.isAnswered)
    (parseRight : parse = s.dropParse + [fate].countP Fate.isUnparsed)
    (right : fate.Of backend job) :
    DatagramsAccounted backend
      ({ s with txCount := tx, dropParse := parse }.finish w job fate) where
  places := by
    have moved := Schedule.sum_weight_update WorkerPc.held s.workers w .popping
    rw [held] at moved
    simp only [finish, List.map_append, ← Multiset.coe_add, accounted.places]
    rw [show WorkerPc.popping.held = 0 from rfl, add_zero] at moved
    rw [← moved]
    change _ = _ + (_ + ({job} : Multiset UdpJob))
    ac_rfl
  rx := accounted.rx
  backlog := accounted.backlog
  tx := by
    simp only [finish, List.countP_append, ← accounted.tx, txRight]
    simp [List.countP_cons]
  parse := by
    simp only [finish, List.countP_append, ← accounted.parse, parseRight]
    simp [List.countP_cons]
  sending := fun other job' reply here => by
    by_cases same : other = w
    · subst same
      simp [finish] at here
    · simp only [finish, Function.update_of_ne same] at here
      exact accounted.sending other job' reply here
  fates := fun entry member => by
    simp only [finish, List.mem_append, List.mem_singleton] at member
    rcases member with before | rfl
    · exact accounted.fates entry before
    · exact right

/-- Every event keeps the accounts. -/
theorem step (accounted : DatagramsAccounted backend s) (moves : Moves backend event s next) :
    DatagramsAccounted backend next := by
  cases moves with
  | receive client datagram here =>
      refine accounted.of_main rfl rfl rfl rfl ?_ ?_ accounted.backlog
      · simp only [receive, here, MainPc.held, ← Multiset.coe_add, add_zero]
        change _ + ({UdpJob.received client datagram} : Multiset UdpJob) + _ = _
        ac_rfl
      · simp only [receive, List.length_append, List.length_singleton, accounted.rx]
  | @accept _ job here opened room =>
      refine accounted.of_main rfl rfl rfl rfl ?_ accounted.rx accounted.backlog
      simp only [here, MainPc.held, ← Multiset.coe_add, add_zero]
      change _ = _ + (_ + (_ + ({job} : Multiset UdpJob)))
      ac_rfl
  | @refuse _ job here =>
      refine accounted.of_main rfl rfl rfl rfl ?_ accounted.rx ?_
      · simp only [here, MainPc.held, ← Multiset.coe_add, add_zero]
        change _ = _ + (_ + ({job} : Multiset UdpJob) + _)
        ac_rfl
      · simp only [List.length_append, List.length_singleton, accounted.backlog]
  | signal here signalled =>
      exact accounted.of_main rfl rfl rfl rfl (by rw [here]; rfl) accounted.rx accounted.backlog
  | stop here =>
      exact accounted.of_main rfl rfl rfl rfl (by rw [here]; rfl) accounted.rx accounted.backlog
  | shutdown here =>
      exact accounted.of_main rfl rfl rfl rfl (by rw [here]; rfl) accounted.rx accounted.backlog
  | broadcast here =>
      exact accounted.of_main rfl rfl rfl rfl (by rw [here]; rfl) accounted.rx accounted.backlog
  | join here ended =>
      exact accounted.of_main rfl rfl rfl rfl (by rw [here]; rfl) accounted.rx accounted.backlog
  | @take _ w job rest here awake jobs =>
      refine accounted.of_worker rfl rfl rfl rfl rfl rfl rfl rfl rfl ?_ (by simp)
      rw [here, jobs]
      change ((job ::ₘ (rest : Multiset UdpJob)) + 0) = _ + {job}
      rw [add_zero, ← Multiset.singleton_add]
      exact add_comm _ _
  | exit here awake jobs closed =>
      exact accounted.of_worker rfl rfl rfl rfl rfl rfl rfl rfl rfl (by rw [here]; rfl) (by simp)
  | wait here awake jobs opened =>
      exact accounted.of_main rfl rfl rfl rfl rfl accounted.rx accounted.backlog
  | wake waits => exact accounted.of_main rfl rfl rfl rfl rfl accounted.rx accounted.backlog
  | @answer _ w job reply moment here answered nonempty =>
      refine accounted.of_worker rfl rfl rfl rfl rfl rfl rfl rfl rfl (by rw [here]; rfl) ?_
      rintro _ _ ⟨rfl, rfl⟩
      exact ⟨moment, answered, nonempty⟩
  | drop moment here unanswered =>
      exact accounted.of_finish .unparsed (by rw [here]; rfl) rfl rfl ⟨moment, unanswered⟩
  | @send _ w job reply here =>
      exact accounted.of_finish (.answered reply) (by rw [here]; rfl) rfl rfl
        (accounted.sending w job reply here)
  | @lose _ w job reply here =>
      exact accounted.of_finish (.unsent reply) (by rw [here]; rfl) rfl rfl
        (accounted.sending w job reply here)

end DatagramsAccounted

/-! ## Threads -/

/-- Where the threads are fits together: no wakeup is lost, the main thread is behind every signal
and broadcast to come, only workers at the queue wait, and a worker leaves only when the queue is
shut down and empty. -/
structure Ordered (s : Server numWorkers) : Prop where
  attended : Attended s.q.jobs.length s.q.shutdown s.notEmpty
  signalling : s.notEmpty.signalling.Nonempty ↔ s.main = .signalling
  broadcasting : s.notEmpty.broadcasting = true ↔ s.main = .broadcasting
  shutdown : s.q.shutdown = s.main.closed
  waiting : ∀ w ∈ s.notEmpty.waiting, s.workers w = .popping
  woken : ∀ w ∈ s.notEmpty.woken, s.workers w = .popping
  bounded : s.q.jobs.length ≤ maxPending
  capacity : s.q.cap = maxPending
  drained : ∀ w, s.workers w = .exited → s.q.shutdown = true ∧ s.q.jobs = []
  ended : s.main = .exited → ∀ w, s.workers w = .exited

namespace Ordered

variable {s next : Server numWorkers} {event : Event μ numWorkers}

theorem start : Ordered (Server.start numWorkers) where
  attended := .idle _ _
  signalling := by simp [Server.start, CondVar.idle]
  broadcasting := by simp [Server.start, CondVar.idle]
  shutdown := rfl
  waiting := fun w waits => by cases waits
  woken := fun w waits => by cases waits
  bounded := Nat.zero_le _
  capacity := rfl
  drained := fun w here => by cases here
  ended := fun here => by cases here

/-- The main thread moves without touching the queue. -/
theorem of_main (ordered : Ordered s) (q : next.q = s.q) (notEmpty : next.notEmpty = s.notEmpty)
    (workers : next.workers = s.workers)
    (signals : next.main = .signalling ↔ s.main = .signalling)
    (announces : next.main = .broadcasting ↔ s.main = .broadcasting)
    (closed : next.main.closed = s.main.closed)
    (ended : next.main = .exited → ∀ w, s.workers w = .exited) : Ordered next where
  attended := by
    rw [q, notEmpty]
    exact ordered.attended
  signalling := by rw [notEmpty, signals, ordered.signalling]
  broadcasting := by rw [notEmpty, announces, ordered.broadcasting]
  shutdown := by rw [q, closed, ordered.shutdown]
  waiting := by
    rw [notEmpty, workers]
    exact ordered.waiting
  woken := by
    rw [notEmpty, workers]
    exact ordered.woken
  bounded := by
    rw [q]
    exact ordered.bounded
  capacity := by rw [q, ordered.capacity]
  drained := by
    rw [q, workers]
    exact ordered.drained
  ended := by
    rw [workers]
    exact ended

/-- A worker moves that is not at the queue, and does not leave. -/
theorem of_worker (ordered : Ordered s) {w : Fin numWorkers} {pc : WorkerPc} (q : next.q = s.q)
    (notEmpty : next.notEmpty = s.notEmpty) (main : next.main = s.main)
    (workers : next.workers = Function.update s.workers w pc)
    (busy : s.workers w ≠ .popping) (running : s.workers w ≠ .exited) (stays : pc ≠ .exited) :
    Ordered next where
  attended := by
    rw [q, notEmpty]
    exact ordered.attended
  signalling := by rw [notEmpty, main, ordered.signalling]
  broadcasting := by rw [notEmpty, main, ordered.broadcasting]
  shutdown := by rw [q, main, ordered.shutdown]
  waiting := fun other waits => by
    rw [notEmpty] at waits
    have differ : other ≠ w := fun same => busy (same ▸ ordered.waiting other waits)
    rw [workers, Function.update_of_ne differ]
    exact ordered.waiting other waits
  woken := fun other awake => by
    rw [notEmpty] at awake
    have differ : other ≠ w := fun same => busy (same ▸ ordered.woken other awake)
    rw [workers, Function.update_of_ne differ]
    exact ordered.woken other awake
  bounded := by
    rw [q]
    exact ordered.bounded
  capacity := by rw [q, ordered.capacity]
  drained := fun other here => by
    rw [workers] at here
    by_cases same : other = w
    · subst same
      rw [Function.update_self] at here
      exact absurd here stays
    · rw [Function.update_of_ne same] at here
      rw [q]
      exact ordered.drained other here
  ended := fun here => by
    rw [main] at here
    exact absurd (ordered.ended here w) running

/-- A worker that is awake leaves the queue, with a job or for good. -/
theorem of_leave (ordered : Ordered s) {w : Fin numWorkers} {pc : WorkerPc} {jobs : List UdpJob}
    (here : s.workers w = .popping) (awake : w ∉ s.notEmpty.waiting)
    (attended : Attended jobs.length s.q.shutdown (s.notEmpty.leave w))
    (fewer : jobs.length ≤ s.q.jobs.length)
    (exits : pc = .exited → s.q.shutdown = true ∧ jobs = []) :
    Ordered ({ s with
      q := { s.q with jobs := jobs }
      notEmpty := s.notEmpty.leave w }.setWorker w pc) where
  attended := attended
  signalling := ordered.signalling
  broadcasting := ordered.broadcasting
  shutdown := ordered.shutdown
  waiting := fun other waits => by
    have differ : other ≠ w := fun same => awake (same ▸ waits)
    exact (Function.update_of_ne differ _ _).trans (ordered.waiting other waits)
  woken := fun other woken => by
    obtain ⟨differ, before⟩ := Finset.mem_erase.mp woken
    exact (Function.update_of_ne differ _ _).trans (ordered.woken other before)
  bounded := fewer.trans ordered.bounded
  capacity := ordered.capacity
  drained := fun other ended => by
    by_cases same : other = w
    · subst same
      exact exits ((Function.update_self ..).symm.trans ended)
    · obtain ⟨closed, none⟩ := ordered.drained other
        ((Function.update_of_ne same _ _).symm.trans ended)
      rw [none, List.length_nil, Nat.le_zero, List.length_eq_zero_iff] at fewer
      exact ⟨closed, fewer⟩
  ended := fun ended => by
    have gone := ordered.ended ended w
    rw [here] at gone
    cases gone

/-- Every event keeps the order. -/
theorem step (ordered : Ordered s) (moves : Moves backend event s next) : Ordered next := by
  cases moves with
  | receive client datagram here =>
      exact ordered.of_main rfl rfl rfl (by simp [here, Server.receive])
        (by simp [here, Server.receive]) (by rw [here]; rfl) (by simp [Server.receive])
  | accept here opened room =>
      have quiet : () ∉ s.notEmpty.signalling := fun member => by
        have busy := ordered.signalling.mp ⟨_, member⟩
        rw [here] at busy
        cases busy
      exact
        { attended := by
            rw [List.length_append]
            exact ordered.attended.put quiet
          signalling := by simp [CondVar.owe]
          broadcasting := by simpa [CondVar.owe, here] using ordered.broadcasting
          shutdown := opened
          waiting := ordered.waiting
          woken := ordered.woken
          bounded := by
            rw [List.length_append, ← ordered.capacity]
            exact room
          capacity := ordered.capacity
          drained := fun w ended => by
            rw [(ordered.drained w ended).1] at opened
            cases opened
          ended := fun ended => by cases ended }
  | refuse here =>
      exact ordered.of_main rfl rfl rfl (by simp [here]) (by simp [here]) (by rw [here]; rfl)
        (by simp)
  | signal here signalled =>
      obtain ⟨signalling, broadcasting, waiting, woken⟩ := CondVar.signal_spec signalled
      exact
        { attended := ordered.attended.signal signalled
          signalling := by
            simp only [signalling, reduceCtorEq, iff_false, Finset.not_nonempty_iff_eq_empty]
            exact Finset.eq_empty_of_forall_notMem fun producer => Finset.notMem_erase _ _
          broadcasting := by simpa [broadcasting, here] using ordered.broadcasting
          shutdown := by simpa [here, MainPc.closed] using ordered.shutdown
          waiting := fun w waits => ordered.waiting w (waiting waits)
          woken := fun w awake => (Finset.mem_union.mp (woken awake)).elim (ordered.woken w)
            (ordered.waiting w)
          bounded := ordered.bounded
          capacity := ordered.capacity
          drained := ordered.drained
          ended := fun ended => by cases ended }
  | stop here =>
      exact ordered.of_main rfl rfl rfl (by simp [here]) (by simp [here]) (by rw [here]; rfl)
        (by simp)
  | shutdown here =>
      exact
        { attended := ordered.attended.close
          signalling := by simpa [CondVar.close, here] using ordered.signalling
          broadcasting := by simp [CondVar.close]
          shutdown := rfl
          waiting := ordered.waiting
          woken := ordered.woken
          bounded := ordered.bounded
          capacity := ordered.capacity
          drained := fun w ended => ⟨rfl, (ordered.drained w ended).2⟩
          ended := fun ended => by cases ended }
  | broadcast here =>
      exact
        { attended := .broadcast
          signalling := by simpa [CondVar.broadcast, here] using ordered.signalling
          broadcasting := by simp [CondVar.broadcast]
          shutdown := by simpa [here, MainPc.closed] using ordered.shutdown
          waiting := fun w waits => by cases waits
          woken := fun w awake => (Finset.mem_union.mp awake).elim (ordered.woken w)
            (ordered.waiting w)
          bounded := ordered.bounded
          capacity := ordered.capacity
          drained := ordered.drained
          ended := fun ended => by cases ended }
  | join here ended =>
      exact ordered.of_main rfl rfl rfl (by simp [here]) (by simp [here]) (by rw [here]; rfl)
        fun _ => ended
  | take here awake jobs =>
      have attended := ordered.attended
      rw [jobs] at attended
      exact ordered.of_leave here awake attended.take (by simp [jobs]) (by simp)
  | exit here awake jobs closed =>
      have attended := ordered.attended
      rw [jobs] at attended
      exact ordered.of_leave here awake (by rw [jobs]; exact attended.leave) (Nat.le_refl _)
        fun _ => ⟨closed, jobs⟩
  | @wait _ w here awake jobs opened =>
      exact
        { ordered with
          attended := by
            have attended := ordered.attended
            simp only [jobs, opened] at attended ⊢
            exact attended.wait
          waiting := fun other waits => by
            rcases Finset.mem_insert.mp waits with rfl | before
            · exact here
            · exact ordered.waiting other before
          woken := fun other woken => ordered.woken other (Finset.mem_of_mem_erase woken) }
  | @wake _ w waits =>
      exact
        { ordered with
          attended := ordered.attended.wake waits
          waiting := fun other still => ordered.waiting other (Finset.mem_of_mem_erase still)
          woken := fun other woken => by
            rcases Finset.mem_insert.mp woken with rfl | before
            · exact ordered.waiting other waits
            · exact ordered.woken other before }
  | answer moment here answered nonempty =>
      exact ordered.of_worker rfl rfl rfl rfl (by simp [here]) (by simp [here]) (by simp)
  | drop moment here unanswered =>
      exact ordered.of_worker rfl rfl rfl rfl (by simp [here]) (by simp [here]) (by simp)
  | send here => exact ordered.of_worker rfl rfl rfl rfl (by simp [here]) (by simp [here]) (by simp)
  | lose here => exact ordered.of_worker rfl rfl rfl rfl (by simp [here]) (by simp [here]) (by simp)

end Ordered

/-! ## The end -/

/-- How many events a worker can have until it is at the queue's end. -/
def WorkerPc.work : WorkerPc → Nat
  | .popping => 1
  | .resolving _ => 3
  | .sending _ _ => 2
  | .exited => 0

/-- How many events the main thread can have once the queue is shut down. -/
def MainPc.work : MainPc → Nat
  | .broadcasting => 2
  | .joining => 1
  | _ => 0

/-- An event of a thread: not a wakeup without a signal. -/
def Event.ofThread : Event μ numWorkers → Bool
  | .wake _ => false
  | _ => true

/-- How many events there can be once the queue is shut down. -/
def Server.work (s : Server numWorkers) : Nat :=
  3 * s.q.jobs.length + ∑ w, (s.workers w).work + s.notEmpty.waiting.card + s.main.work

section End

variable {s next final : Server numWorkers} {event : Event μ numWorkers}

/-- What holds in every state. -/
theorem reachable {events : List (Event μ numWorkers)}
    (done : Schedule.run (Server.step backend) events (.start numWorkers) = some s) :
    DatagramsAccounted backend s ∧ Ordered s := by
  have keeps : ∀ event (s next : Server numWorkers), DatagramsAccounted backend s ∧ Ordered s →
      s.step backend event = some next → DatagramsAccounted backend next ∧ Ordered next := by
    rintro event s next ⟨accounted, ordered⟩ stepped
    have moves := moves_of_step stepped
    exact ⟨accounted.step moves, ordered.step moves⟩
  have kept := Schedule.run_keeps keeps ⟨.start, .start⟩ done
  exact kept

/-- The queue never holds more than `maxPending` jobs. And while a worker sleeps, it holds no more
jobs than workers have been woken, one more if the main thread is about to signal. -/
theorem no_lost_wakeup {events : List (Event μ numWorkers)}
    (done : Schedule.run (Server.step backend) events (.start numWorkers) = some s) :
    s.q.jobs.length ≤ maxPending ∧
      (s.notEmpty.waiting.Nonempty →
        s.q.jobs.length ≤ s.notEmpty.woken.card + if s.main = .signalling then 1 else 0) := by
  obtain ⟨_, ordered⟩ := reachable done
  refine ⟨ordered.bounded, fun asleep => (ordered.attended.signalled asleep).trans ?_⟩
  refine Nat.add_le_add_left ?_ _
  split
  · exact Finset.card_le_one_of_subsingleton _
  · next quiet =>
      rw [← ordered.signalling, Finset.not_nonempty_iff_eq_empty] at quiet
      rw [quiet, Finset.card_empty]

/-- A backend that returns the query. -/
def echo (_ : Unit) (query : Bytes) : Option Bytes := some query

/-- Three workers and one datagram: one worker is asleep when the datagram comes. -/
def oneDatagram : List (Event Unit 3) :=
  [.pop 0, .receive ⟨1, 1024⟩ [0], .push, .signal (some 0), .pop 0, .resolve 0 (), .send 0 true,
    .stop, .shutdown, .broadcast, .pop 0, .pop 1, .pop 2, .join]

/-- A worker sleeps, and the datagram is in the queue: the signal is to come. -/
theorem no_lost_wakeup_example :
    ∃ s, Schedule.run (Server.step echo) (oneDatagram.take 3) (.start 3) =
        some s ∧
      s.notEmpty.waiting = {0} ∧
      s.q.jobs.length ≤ s.notEmpty.woken.card + if s.main = .signalling then 1 else 0 := by
  have asleep : (Schedule.run (Server.step echo) (oneDatagram.take 3)
      (.start 3)).map (·.notEmpty.waiting) = some {0} := by
    decide +kernel
  obtain ⟨s, done, waiting⟩ := Option.map_eq_some_iff.mp asleep
  refine ⟨s, done, waiting, (no_lost_wakeup done).2 ?_⟩
  rw [waiting]
  exact Finset.singleton_nonempty 0

/-- In every state, every received datagram is in one place; and when the main thread is at its
end, every one was refused or has been handled, and the counters add up to what was received, but
for the replies that could not be sent. -/
theorem datagrams_accounted {events : List (Event μ numWorkers)}
    (done : Schedule.run (Server.step backend) events (.start numWorkers) = some s) :
    (s.received : Multiset UdpJob) = s.refused + s.main.held + s.q.jobs +
        ∑ w, (s.workers w).held + s.handled.map Prod.fst ∧
      (s.main = .exited → 0 < numWorkers →
        (s.received : Multiset UdpJob) = s.refused + s.handled.map Prod.fst ∧
        s.rxCount = s.txCount + s.dropParse + s.dropBacklog +
          s.handled.countP fun entry => !entry.2.isAnswered && !entry.2.isUnparsed) := by
  obtain ⟨accounted, ordered⟩ := reachable done
  refine ⟨accounted.places, fun ended some => ?_⟩
  have exited := ordered.ended ended
  have held : ∑ w, (s.workers w).held = 0 :=
    Finset.sum_eq_zero fun w _ => by rw [exited w]; rfl
  have places := accounted.places
  rw [held, ended, (ordered.drained ⟨0, some⟩ (exited _)).2, add_zero] at places
  have all : (s.received : Multiset UdpJob) = s.refused + s.handled.map Prod.fst := by
    simpa [MainPc.held] using places
  refine ⟨all, ?_⟩
  have count := congrArg Multiset.card all
  rw [Multiset.card_add, Multiset.coe_card, Multiset.coe_card, Multiset.coe_card, List.length_map]
    at count
  have split : s.handled.length = s.handled.countP (·.2.isAnswered) +
      s.handled.countP (·.2.isUnparsed) +
      s.handled.countP (fun entry => !entry.2.isAnswered && !entry.2.isUnparsed) := by
    induction s.handled with
    | nil => rfl
    | cons entry rest ih =>
        obtain ⟨job, fate⟩ := entry
        cases fate <;> simp only [List.countP_cons, List.length_cons, Fate.isAnswered,
          Fate.isUnparsed, ih] <;> simp <;> omega
  rw [accounted.rx, accounted.tx, accounted.parse, accounted.backlog, count, split]
  omega

/-- After the whole schedule, one datagram has been received and answered. -/
theorem datagrams_accounted_example :
    ∃ s, Schedule.run (Server.step echo) oneDatagram (.start 3) = some s ∧
      s.main = .exited ∧
      (s.received : Multiset UdpJob) = s.refused + s.handled.map Prod.fst := by
  have gone : (Schedule.run (Server.step echo) oneDatagram
      (.start 3)).map (·.main) = some .exited := by
    decide +kernel
  obtain ⟨s, done, ended⟩ := Option.map_eq_some_iff.mp gone
  exact ⟨s, done, ended, ((datagrams_accounted done).2 ended (Nat.succ_pos 2)).1⟩

end End

end FizzDns.Udp
