import FizzDns.Xdp.Process

/-!
# Wakeups

Two kinds of waiting: a worker sleeps on the condition variable of the pending queue, and a loop
thread in `poll` on its socket and its eventfd. Whatever order the threads run in, neither sleeps on
work that nobody is about to announce (`xdp_no_lost_wakeup`).

`Moves` says what an event can do to the queues and the threads. What every rule of it keeps holds
in every state that is reached (`run_moves`).
-/

namespace FizzDns

open FizzDns.System

namespace Process

variable {μ : Type} {nloops numWorkers : Nat} {backend : μ → Bytes → Answer}
  {p next : Process nloops numWorkers}

/-! ## What an event can do -/

/-- The calls that leave the queues alone: the stages before and after. -/
inductive Calls : LoopStage → LoopStage → Prop
  | receive : Calls .drainRx .drainDoneAndTx
  | reclaim : Calls .reclaimTx .poll
  | last : Calls .lastReclaim .returned

/-- The calls that take the done queue. -/
inductive Drains : LoopStage → LoopStage → Prop
  | turn : Drains .drainDoneAndTx .reclaimTx
  | last : Drains .lastDrain .lastReclaim

/-- The done queue of a loop has been taken. -/
structure Drained (i : Fin nloops) (s s' : System nloops numWorkers) : Prop where
  pendingQ : s'.pendingQ = s.pendingQ
  empty : (s'.loops i).doneQ.count = 0
  others : ∀ j, j ≠ i → s'.loops j = s.loops j
  workers : s'.workers = s.workers

/-- A worker has pushed its job to the done queue of a loop. -/
structure Given (w : Fin numWorkers) (i : Fin nloops) (s s' : System nloops numWorkers) :
    Prop where
  pendingQ : s'.pendingQ = s.pendingQ
  count : (s'.loops i).doneQ.count = (s.loops i).doneQ.count + 1
  pc : (s'.loops i).pc = (s.loops i).pc
  others : ∀ j, j ≠ i → s'.loops j = s.loops j
  workers : s'.workers = Function.update s.workers w .waiting

/-- All loops are between two calls. -/
def AllIdle (s : System nloops numWorkers) : Prop :=
  ∀ i, (s.loops i).pc.isIdle

/-- The events, one rule for each thing that can happen. -/
inductive Moves (p : Process nloops numWorkers) :
    ProcessEvent μ nloops numWorkers → Process nloops numWorkers → Prop
  | kernel {i : Fin nloops} {step : KernelStep} {s' : System nloops numWorkers}
      (moved : LoopMoved i p.system s') (same : s'.pendingQ = p.system.pendingQ)
      (pc : (s'.loops i).pc = (p.system.loops i).pc) :
      Moves p (.kernel i step) { p with system := s' }
  | poll {i : Fin nloops} (leaves : Bool) (here : p.stage i = .poll) :
      Moves p (.turn i leaves) (p.setStage i (if leaves then .lastDrain else .drainEventfd))
  | drainEventfd {i : Fin nloops} {leaves : Bool} (here : p.stage i = .drainEventfd) :
      Moves p (.turn i leaves)
        { p.setStage i .drainRx with eventfd := Function.update p.eventfd i 0 }
  | call {i : Fin nloops} {leaves : Bool} {stage : LoopStage} {s' : System nloops numWorkers}
      (calls : Calls (p.stage i) stage) (moved : LoopMoved i p.system s')
      (same : s'.pendingQ = p.system.pendingQ) :
      Moves p (.turn i leaves) { p.setStage i stage with system := s' }
  | drain {i : Fin nloops} {leaves : Bool} {stage : LoopStage} {s' : System nloops numWorkers}
      (drains : Drains (p.stage i) stage) (drained : Drained i p.system s') :
      Moves p (.turn i leaves) { p.setStage i stage with system := s' }
  | loop {i : Fin nloops} {allocates : Bool} {s' : System nloops numWorkers}
      (busy : (p.system.loops i).pc.isIdle = false) (moved : LoopMoved i p.system s')
      (same : s'.pendingQ = p.system.pendingQ) :
      Moves p (.loop i allocates) { p with system := s' }
  | push {i : Fin nloops} {allocates : Bool} {s' : System nloops numWorkers}
      (busy : (p.system.loops i).pc.isIdle = false) (free : i ∉ p.notEmpty.signalling)
      (moved : LoopMoved i p.system s')
      (more : s'.pendingQ.count = p.system.pendingQ.count + 1)
      (shutdown : s'.pendingQ.shutdown = p.system.pendingQ.shutdown) :
      Moves p (.loop i allocates) { p with system := s', notEmpty := p.notEmpty.owe i }
  | signal {i : Fin nloops} {chosen : Option (Fin numWorkers)}
      {notEmpty : CondVar (Fin numWorkers) (Fin nloops)}
      (signalled : p.notEmpty.signal i chosen = some notEmpty) :
      Moves p (.signal i chosen) { p with notEmpty := notEmpty }
  | take {w : Fin numWorkers} {moment : μ} {addr : Addr} {s' : System nloops numWorkers}
      (here : p.system.workers w = .waiting) (awake : w ∉ p.notEmpty.waiting)
      (free : p.notifying w = none) (loops : s'.loops = p.system.loops)
      (workers : s'.workers = Function.update p.system.workers w (.resolving addr))
      (fewer : p.system.pendingQ.count = s'.pendingQ.count + 1)
      (shutdown : s'.pendingQ.shutdown = p.system.pendingQ.shutdown) :
      Moves p (.worker w moment) { p with system := s', notEmpty := p.notEmpty.leave w }
  | exit {w : Fin numWorkers} {moment : μ} {s' : System nloops numWorkers}
      (here : p.system.workers w = .waiting) (awake : w ∉ p.notEmpty.waiting)
      (free : p.notifying w = none) (loops : s'.loops = p.system.loops)
      (workers : s'.workers = Function.update p.system.workers w .exited)
      (same : s'.pendingQ = p.system.pendingQ) (empty : p.system.pendingQ.count = 0) :
      Moves p (.worker w moment) { p with system := s', notEmpty := p.notEmpty.leave w }
  | sleep {w : Fin numWorkers} {moment : μ} (here : p.system.workers w = .waiting)
      (opened : p.system.pendingQ.shutdown = false) (empty : p.system.pendingQ.count = 0) :
      Moves p (.worker w moment) { p with notEmpty := p.notEmpty.wait w }
  | resolve {w : Fin numWorkers} {moment : μ} {addr : Addr} {s' : System nloops numWorkers}
      (pc : WorkerPc) (here : p.system.workers w = .resolving addr)
      (stays : pc ≠ .exited) (loops : s'.loops = p.system.loops)
      (workers : s'.workers = Function.update p.system.workers w pc)
      (same : s'.pendingQ = p.system.pendingQ) :
      Moves p (.worker w moment) { p with system := s' }
  | give {w : Fin numWorkers} {moment : μ} {addr : Addr} {i : Fin nloops}
      {s' : System nloops numWorkers} (here : p.system.workers w = .resolved addr)
      (given : Given w i p.system s') :
      Moves p (.worker w moment)
        { p with system := s', notifying := Function.update p.notifying w (some i) }
  | wake {w : Fin numWorkers} (waits : w ∈ p.notEmpty.waiting) :
      Moves p (.wake w) { p with notEmpty := p.notEmpty.wake w }
  | notify {w : Fin numWorkers} {i : Fin nloops} (owes : p.notifying w = some i) :
      Moves p (.notify w) { p with
        notifying := Function.update p.notifying w none
        eventfd := Function.update p.eventfd i (eventfdWrite (p.eventfd i)) }
  | joinLoops (here : p.main = .joinLoops) (ended : ∀ i, p.stage i = .returned)
      (idle : AllIdle p.system) :
      Moves p .main { p with
        main := .broadcast
        notEmpty := p.notEmpty.close
        system := { p.system with pendingQ := queueShutdown p.system.pendingQ } }
  | broadcast (here : p.main = .broadcast) :
      Moves p .main { p with main := .joinWorkers, notEmpty := p.notEmpty.broadcast }
  | joinWorkers (here : p.main = .joinWorkers) (ended : ∀ w, p.system.workers w = .exited) :
      Moves p .main { p with main := .drain 0 }
  | lastDrain {i : Fin nloops} {s' : System nloops numWorkers} (here : p.main = .drain i)
      (drained : Drained i p.system s') :
      Moves p .main { p with main := .reclaim i, system := s' }
  | lastReclaim {i : Fin nloops} {s' : System nloops numWorkers} (here : p.main = .reclaim i)
      (moved : LoopMoved i p.system s') (same : s'.pendingQ = p.system.pendingQ) :
      Moves p .main { p with main := .drain (i + 1), system := s' }
  | finish {count : Nat} (here : p.main = .drain count) (all : nloops ≤ count)
      (idle : AllIdle p.system) : Moves p .main { p with main := .finished }

theorem isExited_iff {pc : WorkerPc} : pc.isExited = true ↔ pc = .exited := by
  cases pc <;> simp [WorkerPc.isExited]

theorem isIdle_iff {pc : LoopPc} : pc.isIdle = true ↔ pc = .idle := by
  cases pc <;> simp [LoopPc.isIdle]

theorem call_pendingQ {s : System nloops numWorkers} {i : Fin nloops}
    {body : System nloops numWorkers → System nloops numWorkers}
    (same : (body s).pendingQ = s.pendingQ) : (s.call i body).pendingQ = s.pendingQ := by
  unfold System.call
  split
  · exact same
  · rfl

theorem drained_of_idle {s : System nloops numWorkers} {i : Fin nloops}
    (idle : (s.loops i).pc.isIdle) : Drained i s (s.call i (drainDoneAndTx i)) := by
  rw [isIdle_iff] at idle
  simp only [System.call, idle]
  exact ⟨rfl, by simp [drainDoneAndTx, setLoop, queueDrain],
    fun j away => by simp [drainDoneAndTx, setLoop, Function.update_of_ne away], rfl⟩

theorem reclaimTx_pendingQ (s : System nloops numWorkers) (i : Fin nloops) :
    (s.reclaimTx i).pendingQ = s.pendingQ := by
  unfold reclaimTx
  dsimp only
  split
  · rfl
  · rfl

/-- What a loop thread can do between two calls. -/
theorem moves_turn {i : Fin nloops} {leaves : Bool} (idle : (p.system.loops i).pc.isIdle)
    (done : p.turn i leaves = some next) : Moves (μ := μ) p (.turn i leaves) next := by
  have received : LoopMoved i p.system (p.system.call i (drainRx i)) :=
    call_moved _ drainRx_moved
  have reclaimed : LoopMoved i p.system (p.system.call i (reclaimTx i)) :=
    call_moved _ reclaimTx_moved
  unfold turn at done
  split at done
  · next here =>
      cases done
      exact .poll leaves here
  · next here =>
      cases done
      exact .drainEventfd here
  · next here =>
      cases done
      exact .call (here ▸ .receive) received (call_pendingQ rfl)
  · next here =>
      cases done
      exact .drain (here ▸ .turn) (drained_of_idle idle)
  · next here =>
      cases done
      exact .call (here ▸ .reclaim) reclaimed (call_pendingQ (reclaimTx_pendingQ _ _))
  · next here =>
      cases done
      exact .drain (here ▸ .last) (drained_of_idle idle)
  · next here =>
      cases done
      exact .call (here ▸ .last) reclaimed (call_pendingQ (reclaimTx_pendingQ _ _))
  · cases done

/-- What a step inside a call can do. -/
theorem moves_loop {i : Fin nloops} {allocates : Bool}
    (busy : (p.system.loops i).pc.isIdle = false) (free : i ∉ p.notEmpty.signalling)
    (done : p.loop i allocates = some next) : Moves (μ := μ) p (.loop i allocates) next := by
  obtain ⟨s', stepped, rest⟩ := Option.bind_eq_some_iff.mp done
  cases rest
  have moved := loopStep_moved stepped
  rcases moved.pendingQ with same | ⟨more, shutdown⟩
  · rw [same, if_pos rfl]
    exact .loop busy moved same
  · rw [if_neg (by omega)]
    exact .push busy free moved more shutdown

/-- What the main thread can do. -/
theorem moves_main (done : p.runMain = some next) : Moves (μ := μ) p .main next := by
  unfold runMain at done
  split at done
  case h_1 here =>
      split at done
      · next ended =>
          cases done
          exact .joinLoops here (fun i => (ended i).1) fun i => (ended i).2
      · cases done
  case h_2 here =>
      cases done
      exact .broadcast here
  case h_3 here =>
      split at done
      · next ended =>
          cases done
          exact .joinWorkers here fun w => isExited_iff.mp (ended w)
      · cases done
  case h_4 count here =>
      split at done
      · next idle =>
          split at done
          · next more =>
              cases done
              exact .lastDrain (i := ⟨count, more⟩) here (drained_of_idle (idle _))
          · next all =>
              cases done
              exact .finish here (Nat.le_of_not_lt all) idle
      · cases done
  case h_5 i here =>
      split at done
      · cases done
        exact .lastReclaim here (call_moved _ reclaimTx_moved)
          (call_pendingQ (reclaimTx_pendingQ _ _))
      · cases done
  case h_6 => cases done

/-- A queue that is open and unbounded takes every job. -/
theorem queuePush_unbounded {q next : JobQueue} {job : Addr} {heap after : Heap DnsJob}
    {taken : Bool} (unbounded : q.cap = 0) (running : q.shutdown = false)
    (pushed : queuePush q job heap = some (taken, next, after)) :
    taken = true ∧ next.count = q.count + 1 := by
  have accepts : q.refuses = false := by simp [JobQueue.refuses, unbounded, running]
  simp only [queuePush, accepts, Bool.false_eq_true, ↓reduceIte] at pushed
  obtain ⟨linked, _, rest⟩ := Option.bind_eq_some_iff.mp pushed
  split at rest
  · obtain ⟨behind, _, rest⟩ := Option.bind_eq_some_iff.mp rest
    cases rest
    exact ⟨rfl, rfl⟩
  · cases rest
    exact ⟨rfl, rfl⟩

variable {pipe : Pipeline nloops numWorkers}

/-- A worker that looks at the queue. -/
theorem moves_waiting (sound : p.system.Sound pipe) {w : Fin numWorkers} {moment : μ}
    (here : p.system.workers w = .waiting) (awake : w ∉ p.notEmpty.waiting)
    (free : p.notifying w = none) (done : p.work backend w moment = some next) :
    Moves p (.worker w moment) next := by
  simp only [work, here] at done
  obtain ⟨s', stepped, rest⟩ := Option.bind_eq_some_iff.mp done
  cases rest
  have count := sound.represents.pending.count_eq
  simp only [System.step, workerStep, here] at stepped
  rcases sound.represents.pop sound.pipe with
    ⟨empty, popped⟩ | ⟨addr, rest, pendingQ, heap, first, popped, represents⟩
  · rw [empty, List.length_nil] at count
    simp only [popped, Option.bind_eq_bind, Option.bind_some, Option.some.injEq] at stepped
    cases closed : p.system.pendingQ.shutdown with
    | true =>
        rw [closed, if_pos rfl] at stepped
        subst stepped
        simp only [Function.update_self]
        exact .exit here awake free rfl rfl rfl count
    | false =>
        rw [closed, if_neg Bool.false_ne_true] at stepped
        subst stepped
        simp only [here]
        exact .sleep here closed count
  · simp only [popped, Option.bind_eq_bind, Option.bind_some, Option.some.injEq] at stepped
    subst stepped
    have left := represents.pending.count_eq
    have shutdown := represents.shutdown
    simp only [Function.update_self]
    refine .take here awake free rfl rfl ?_ (shutdown.trans sound.represents.shutdown.symm)
    rw [count, first, List.length_cons]
    exact congrArg (· + 1) left.symm

/-- A worker that has resolved a query. -/
theorem moves_resolving {w : Fin numWorkers} {moment : μ} {addr : Addr}
    (here : p.system.workers w = .resolving addr)
    (done : p.work backend w moment = some next) : Moves p (.worker w moment) next := by
  simp only [work, here] at done
  obtain ⟨job, _, acted⟩ := Option.bind_eq_some_iff.mp done
  obtain ⟨s', stepped, rest⟩ := Option.bind_eq_some_iff.mp acted
  cases rest
  have dropped : ∀ {s'}, p.system.dropJob w addr = some s' →
      Moves p (.worker w moment) { p with system := s' } := by
    intro s' dropped
    obtain ⟨heap, _, rest⟩ := Option.bind_eq_some_iff.mp dropped
    cases rest
    exact .resolve .waiting here (by simp) rfl rfl rfl
  simp only [System.step, workerStep, here] at stepped
  split at stepped
  · exact dropped stepped
  · split at stepped
    · exact dropped stepped
    · obtain ⟨heap, _, rest⟩ := Option.bind_eq_some_iff.mp stepped
      cases rest
      exact .resolve (.resolved addr) here (by simp) rfl rfl rfl

/-- A job goes back to the loop that it came from. -/
theorem given_of_returnJob {s s' : System nloops numWorkers} (sound : s.Sound pipe)
    {w : Fin numWorkers} {addr : Addr} (done : s.returnJob w addr = some s') :
    ∃ (job : DnsJob) (inside : job.loopIdx.toNat < nloops), s.heap.read addr = some job ∧
      Given w ⟨job.loopIdx.toNat, inside⟩ s s' := by
  obtain ⟨job, found, rest⟩ := Option.bind_eq_some_iff.mp done
  split at rest
  · next inside =>
      have holds := sound.represents.loops ⟨job.loopIdx.toNat, inside⟩
      obtain ⟨⟨taken, doneQ, heap⟩, pushed, rest⟩ := Option.bind_eq_some_iff.mp rest
      obtain ⟨rfl, count⟩ := queuePush_unbounded holds.unbounded holds.running pushed
      cases rest
      refine ⟨job, inside, found, rfl, ?_, ?_, fun j away => ?_, rfl⟩
      · rw [← count]
        simp [setLoop]
      · simp [setLoop]
      · simp [setLoop, Function.update_of_ne away]
  · cases rest

/-- A worker that hands its job back. -/
theorem moves_resolved (sound : p.system.Sound pipe) {w : Fin numWorkers} {moment : μ} {addr : Addr}
    (here : p.system.workers w = .resolved addr)
    (done : p.work backend w moment = some next) : Moves p (.worker w moment) next := by
  simp only [work, here] at done
  obtain ⟨s', stepped, rest⟩ := Option.bind_eq_some_iff.mp done
  cases rest
  simp only [System.step, workerStep, here] at stepped
  obtain ⟨job, inside, found, given⟩ := given_of_returnJob sound stepped
  have noticed : p.notice addr s' = some ⟨job.loopIdx.toNat, inside⟩ := by
    simp [notice, home, found, inside, given.count]
  rw [noticed]
  exact .give here given

/-- What an event can do. -/
theorem moves_of_step (sound : p.system.Sound pipe) {event : ProcessEvent μ nloops numWorkers}
    (done : p.step backend event = some next) : Moves p event next := by
  cases event with
  | kernel i step =>
      cases done
      exact .kernel (LoopMoved.refl.setXsk _ _) rfl (by simp [setXsk, setLoop])
  | turn i leaves =>
      simp only [step] at done
      split at done
      · next idle => exact moves_turn idle done
      · cases done
  | loop i allocates =>
      simp only [step] at done
      split at done
      · cases done
      · next guard =>
          rw [not_or] at guard
          exact moves_loop (Bool.eq_false_of_not_eq_true guard.1) guard.2 done
  | signal i chosen =>
      obtain ⟨notEmpty, signalled, rest⟩ := Option.bind_eq_some_iff.mp done
      cases rest
      exact .signal signalled
  | worker w moment =>
      simp only [step] at done
      split at done
      · cases done
      · next guard =>
          rw [not_or, Option.not_isSome_iff_eq_none] at guard
          cases here : p.system.workers w with
          | waiting => exact moves_waiting sound here guard.1 guard.2 done
          | resolving addr => exact moves_resolving here done
          | resolved addr => exact moves_resolved sound here done
          | exited => simp [work, here] at done
  | wake w =>
      simp only [step] at done
      split at done
      · next waits =>
          cases done
          exact .wake waits
      · cases done
  | notify w =>
      obtain ⟨i, owes, rest⟩ := Option.bind_eq_some_iff.mp done
      cases rest
      exact .notify owes
  | main => exact moves_main done

/-- Every event keeps what is known of every `System`. -/
theorem Acts.sound {s s' : System nloops numWorkers} {event : ProcessEvent μ nloops numWorkers}
    (acts : Acts backend event s s') (few : nloops ≤ maxXsks) (sound : s.Sound pipe) :
    ∃ pipe', s'.Sound pipe' := by
  rcases acts with rfl | ⟨action, stepped, _⟩
  · exact ⟨pipe, sound⟩
  · obtain ⟨s'', pipe', result, after, _⟩ := sound.step few action
    cases stepped.symm.trans result
    exact ⟨pipe', after⟩

/-- What holds at the start and is kept by every rule holds in every state that is reached. -/
theorem run_moves {invariant : Process nloops numWorkers → Prop} (few : nloops ≤ maxXsks)
    (keeps : ∀ (event : ProcessEvent μ nloops numWorkers) p next, invariant p → Moves p event next →
      invariant next)
    {created : Fin nloops → Bool}
    (before : ∀ start, Process.start nloops numWorkers created = some start → invariant start)
    {events : List (ProcessEvent μ nloops numWorkers)}
    (done : (Process.start nloops numWorkers created).bind
      (Schedule.run (Process.step backend) events) = some p) :
    (∃ pipe, p.system.Sound pipe) ∧ invariant p := by
  obtain ⟨start, started, ran⟩ := Option.bind_eq_some_iff.mp done
  have holds := before start started
  obtain ⟨s₀, fresh, sound, _⟩ := @System.start_sound nloops numWorkers
  rw [Option.some.inj (fresh.symm.trans (start_spec started).1)] at sound
  have steps : ∀ event (p next : Process nloops numWorkers),
      (∃ pipe, p.system.Sound pipe) ∧ invariant p → p.step backend event = some next →
        (∃ pipe, next.system.Sound pipe) ∧ invariant next := by
    rintro event p next ⟨⟨pipe, sound⟩, holds⟩ stepped
    exact ⟨(step_acts stepped).sound few sound,
      keeps event p next holds (moves_of_step sound stepped)⟩
  have kept := Schedule.run_keeps steps ⟨⟨_, sound⟩, holds⟩ ran
  exact kept

end Process

/-! ## Workers -/

/-- The pending queue has been shut down. -/
def MainStage.closed {nloops : Nat} : MainStage nloops → Bool
  | .joinLoops => false
  | _ => true

open Process

variable {μ : Type} {nloops numWorkers : Nat} {backend : μ → Bytes → Answer}
  {p next : Process nloops numWorkers} {event : ProcessEvent μ nloops numWorkers}

/-- No wakeup of a worker is lost. Those who sleep or have been woken are at the queue. -/
structure Attentive (p : Process nloops numWorkers) : Prop where
  attended : Attended p.system.pendingQ.count p.system.pendingQ.shutdown p.notEmpty
  waiting : ∀ w ∈ p.notEmpty.waiting, p.system.workers w = .waiting
  woken : ∀ w ∈ p.notEmpty.woken, p.system.workers w = .waiting
  broadcasting : p.notEmpty.broadcasting = true → p.main = .broadcast
  closed : p.system.pendingQ.shutdown = p.main.closed

namespace Attentive

theorem start {created : Fin nloops → Bool}
    (started : Process.start nloops numWorkers created = some p) : Attentive p := by
  obtain ⟨_, notEmpty, _, main, pendingQ, _⟩ := start_spec started
  constructor
  case attended =>
      rw [notEmpty]
      exact .idle _ _
  case closed =>
      rw [pendingQ, main]
      rfl
  all_goals simp [notEmpty, CondVar.idle]

/-- A loop thread or the kernel goes on, and does not push a job. -/
theorem of_quiet (attentive : Attentive p) (pendingQ : next.system.pendingQ = p.system.pendingQ)
    (notEmpty : next.notEmpty = p.notEmpty) (workers : next.system.workers = p.system.workers)
    (main : next.main.closed = p.main.closed)
    (broadcast : p.main ≠ .broadcast ∨ next.main = p.main) :
    Attentive next where
  attended := by
    rw [pendingQ, notEmpty]
    exact attentive.attended
  waiting := by
    rw [notEmpty, workers]
    exact attentive.waiting
  woken := by
    rw [notEmpty, workers]
    exact attentive.woken
  broadcasting := fun owes => by
    rw [notEmpty] at owes
    have here := attentive.broadcasting owes
    rcases broadcast with elsewhere | same
    · exact absurd here elsewhere
    · rw [same, here]
  closed := by rw [pendingQ, main, attentive.closed]

/-- A worker that leaves the queue. -/
theorem of_leave (attentive : Attentive p) {w : Fin numWorkers} {pc : WorkerPc}
    (awake : w ∉ p.notEmpty.waiting)
    (attended : Attended next.system.pendingQ.count next.system.pendingQ.shutdown next.notEmpty)
    (shutdown : next.system.pendingQ.shutdown = p.system.pendingQ.shutdown)
    (notEmpty : next.notEmpty = p.notEmpty.leave w)
    (workers : next.system.workers = Function.update p.system.workers w pc)
    (main : next.main = p.main) : Attentive next where
  attended := attended
  waiting := fun other waits => by
    rw [notEmpty] at waits
    have differ : other ≠ w := fun same => awake (same ▸ waits)
    rw [workers, Function.update_of_ne differ]
    exact attentive.waiting other waits
  woken := fun other awake => by
    rw [notEmpty] at awake
    obtain ⟨differ, before⟩ := Finset.mem_erase.mp awake
    rw [workers, Function.update_of_ne differ]
    exact attentive.woken other before
  broadcasting := fun owes => by
    rw [notEmpty] at owes
    rw [main]
    exact attentive.broadcasting owes
  closed := by rw [shutdown, main, attentive.closed]

/-- A worker goes on that is not at the queue. -/
theorem of_worker (attentive : Attentive p) {w : Fin numWorkers} {pc : WorkerPc}
    (busy : p.system.workers w ≠ .waiting) (pendingQ : next.system.pendingQ = p.system.pendingQ)
    (notEmpty : next.notEmpty = p.notEmpty)
    (workers : next.system.workers = Function.update p.system.workers w pc)
    (main : next.main = p.main) : Attentive next where
  attended := by
    rw [pendingQ, notEmpty]
    exact attentive.attended
  waiting := fun other waits => by
    rw [notEmpty] at waits
    have here := attentive.waiting other waits
    have differ : other ≠ w := fun same => busy (same ▸ here)
    rw [workers, Function.update_of_ne differ, here]
  woken := fun other awake => by
    rw [notEmpty] at awake
    have here := attentive.woken other awake
    have differ : other ≠ w := fun same => busy (same ▸ here)
    rw [workers, Function.update_of_ne differ, here]
  broadcasting := by
    rw [notEmpty, main]
    exact attentive.broadcasting
  closed := by rw [pendingQ, main, attentive.closed]

/-- Every event keeps the wakeups. -/
theorem step (attentive : Attentive p) (moves : Moves p event next) : Attentive next := by
  have ⟨attended, waiting, woken, broadcasting, closed⟩ := attentive
  cases moves with
  | kernel moved same pc => exact attentive.of_quiet same rfl moved.workers rfl (Or.inr rfl)
  | poll leaves here => exact attentive.of_quiet rfl rfl rfl rfl (Or.inr rfl)
  | drainEventfd here => exact attentive.of_quiet rfl rfl rfl rfl (Or.inr rfl)
  | call calls moved same => exact attentive.of_quiet same rfl moved.workers rfl (Or.inr rfl)
  | drain drains drained =>
      exact attentive.of_quiet drained.pendingQ rfl drained.workers rfl (Or.inr rfl)
  | loop busy moved same => exact attentive.of_quiet same rfl moved.workers rfl (Or.inr rfl)
  | push busy free moved more shutdown =>
      refine ⟨?_, ?_, ?_, broadcasting, shutdown.trans closed⟩
      · dsimp only
        rw [more, shutdown]
        exact attended.put free
      · exact fun w waits => (congrFun moved.workers w).trans (waiting w waits)
      · exact fun w awake => (congrFun moved.workers w).trans (woken w awake)
  | @signal i chosen notEmpty signalled =>
      obtain ⟨_, same, fewer, more⟩ := CondVar.signal_spec signalled
      refine ⟨attended.signal signalled, fun w waits => waiting w (fewer waits), ?_, ?_, closed⟩
      · intro w awake
        rcases Finset.mem_union.mp (more awake) with before | slept
        · exact woken w before
        · exact waiting w slept
      · intro owes
        exact broadcasting (same ▸ owes)
  | take here awake free loops workers fewer shutdown =>
      refine attentive.of_leave awake ?_ shutdown rfl workers rfl
      dsimp only
      rw [shutdown]
      rw [fewer] at attended
      exact attended.take
  | exit here awake free loops workers same empty =>
      refine attentive.of_leave awake ?_ (congrArg _ same) rfl workers rfl
      dsimp only
      rw [same, empty]
      rw [empty] at attended
      exact attended.leave
  | @sleep w moment here opened empty =>
      refine ⟨?_, ?_, ?_, broadcasting, closed⟩
      · dsimp only
        rw [opened, empty] at attended ⊢
        exact attended.wait
      · intro other waits
        rcases Finset.mem_insert.mp waits with rfl | before
        · exact here
        · exact waiting other before
      · exact fun other awake => woken other (Finset.mem_of_mem_erase awake)
  | resolve pc here stays loops workers same =>
      exact attentive.of_worker (by simp [here]) same rfl workers rfl
  | give here given =>
      exact attentive.of_worker (by simp [here]) given.pendingQ rfl given.workers rfl
  | @wake w waits =>
      refine ⟨attended.wake waits, ?_, ?_, broadcasting, closed⟩
      · exact fun other slept => waiting other (Finset.mem_of_mem_erase slept)
      · intro other awake
        rcases Finset.mem_insert.mp awake with rfl | before
        · exact waiting other waits
        · exact woken other before
  | notify owes => exact attentive.of_quiet rfl rfl rfl rfl (Or.inr rfl)
  | joinLoops here ended idle =>
      exact ⟨attended.close, waiting, woken, fun _ => rfl, rfl⟩
  | broadcast here =>
      refine ⟨.broadcast, (fun w waits => by cases waits), ?_, (fun owes => by cases owes), ?_⟩
      · intro w awake
        rcases Finset.mem_union.mp awake with before | slept
        · exact woken w before
        · exact waiting w slept
      · rw [here] at closed
        exact closed
  | joinWorkers here ended =>
      exact attentive.of_quiet rfl rfl rfl (by rw [here]; rfl) (Or.inl (by simp [here]))
  | lastDrain here drained =>
      exact attentive.of_quiet drained.pendingQ rfl drained.workers (by rw [here]; rfl)
        (Or.inl (by simp [here]))
  | lastReclaim here moved same =>
      exact attentive.of_quiet same rfl moved.workers (by rw [here]; rfl) (Or.inl (by simp [here]))
  | finish here all idle =>
      exact attentive.of_quiet rfl rfl rfl (by rw [here]; rfl) (Or.inl (by simp [here]))

end Attentive

/-! ## Loops -/

/-- A loop thread that has not looked at its eventfd since it last took its done queue. -/
def LoopStage.watches : LoopStage → Bool
  | .poll => true
  | .drainEventfd => true
  | .reclaimTx => true
  | _ => false

/-- No notification of a loop is lost: if it is about to poll and there are jobs in its done queue,
its eventfd is readable, or a worker is about to write to it. -/
structure Noticed (p : Process nloops numWorkers) : Prop where
  notifying : ∀ w i, p.notifying w = some i → p.system.workers w = .waiting
  noticed : ∀ i, (p.stage i).watches → 0 < (p.system.loops i).doneQ.count →
    0 < p.eventfd i ∨ ∃ w, p.notifying w = some i

namespace Noticed

theorem start {created : Fin nloops → Bool}
    (started : Process.start nloops numWorkers created = some p) : Noticed p := by
  obtain ⟨_, _, notifying, _, _, doneQ⟩ := start_spec started
  refine ⟨fun w i owes => ?_, fun i _ nonempty => ?_⟩
  · rw [notifying] at owes
    cases owes
  · rw [doneQ] at nonempty
    exact absurd nonempty (Nat.lt_irrefl 0)

/-- Nothing happens to the done queues and to the notifications. -/
theorem of_quiet (noticed : Noticed p) (notifying : next.notifying = p.notifying)
    (eventfd : next.eventfd = p.eventfd)
    (doneQ : ∀ i, (next.system.loops i).doneQ = (p.system.loops i).doneQ)
    (workers : ∀ w, (p.notifying w).isSome → p.system.workers w = .waiting →
      next.system.workers w = .waiting)
    (stage : ∀ i, (next.stage i).watches → (p.stage i).watches) : Noticed next where
  notifying := fun w i owes => by
    rw [notifying] at owes
    exact workers w (by simp [owes]) (noticed.notifying w i owes)
  noticed := fun i watches nonempty => by
    rw [doneQ] at nonempty
    rw [eventfd, notifying]
    exact noticed.noticed i (stage i watches) nonempty

/-- The stages of the other loops stay. -/
theorem watches_of_update {stage : LoopStage} {i : Fin nloops}
    (here : stage.watches → (p.stage i).watches) (j : Fin nloops)
    (watches : ((p.setStage i stage).stage j).watches) : (p.stage j).watches := by
  by_cases same : j = i
  · subst same
    simp only [setStage, Function.update_self] at watches
    exact here watches
  · simpa [setStage, Function.update_of_ne same] using watches

/-- Only the call that takes the done queue comes between the eventfd and the next poll. -/
theorem calls_watches {before after : LoopStage} (calls : Calls before after)
    (watches : after.watches) : before.watches := by
  cases calls with
  | receive => cases watches
  | reclaim => rfl
  | last => cases watches

/-- The done queue of a loop has been taken. -/
theorem of_drained (noticed : Noticed p) {i : Fin nloops} {s' : System nloops numWorkers}
    (drained : Drained i p.system s') (system : next.system = s')
    (notifying : next.notifying = p.notifying) (eventfd : next.eventfd = p.eventfd)
    (stage : ∀ j, j ≠ i → next.stage j = p.stage j) : Noticed next where
  notifying := fun w j owes => by
    rw [notifying] at owes
    rw [system, drained.workers]
    exact noticed.notifying w j owes
  noticed := fun j watches nonempty => by
    rw [system] at nonempty
    by_cases same : j = i
    · subst same
      rw [drained.empty] at nonempty
      cases nonempty
    · rw [drained.others j same] at nonempty
      rw [stage j same] at watches
      rw [eventfd, notifying]
      exact noticed.noticed j watches nonempty

theorem eventfdWrite_pos (counter : Nat) : 0 < eventfdWrite counter := by
  unfold eventfdWrite
  split <;> omega

/-- A worker writes to the eventfd of a loop. -/
theorem of_notify (noticed : Noticed p) {w : Fin numWorkers} {i : Fin nloops}
    (owes : p.notifying w = some i) :
    Noticed { p with
      notifying := Function.update p.notifying w none
      eventfd := Function.update p.eventfd i (eventfdWrite (p.eventfd i)) } where
  notifying := fun v j other => by
    by_cases same : v = w
    · subst same
      simp at other
    · exact noticed.notifying v j ((Function.update_of_ne same _ _).symm.trans other)
  noticed := fun j watches nonempty => by
    dsimp only
    by_cases same : j = i
    · subst same
      rw [Function.update_self]
      exact Or.inl (eventfdWrite_pos _)
    · rw [Function.update_of_ne same]
      rcases noticed.noticed j watches nonempty with readable | ⟨v, other⟩
      · exact Or.inl readable
      · refine Or.inr ⟨v, ?_⟩
        have differ : v ≠ w := by
          rintro rfl
          exact same (Option.some.inj (other.symm.trans owes))
        rw [Function.update_of_ne differ]
        exact other

/-- A worker has put a job into the done queue of a loop, and is to notify the loop. -/
theorem of_give (noticed : Noticed p) {w : Fin numWorkers} {addr : Addr} {i : Fin nloops}
    {s' : System nloops numWorkers} (here : p.system.workers w = .resolved addr)
    (given : Given w i p.system s') :
    Noticed { p with
      system := s', notifying := Function.update p.notifying w (some i) } where
  notifying := fun v j owes => by
    dsimp only at owes ⊢
    rw [given.workers]
    by_cases same : v = w
    · subst same
      exact Function.update_self ..
    · rw [Function.update_of_ne same] at owes ⊢
      exact noticed.notifying v j owes
  noticed := fun j watches nonempty => by
    by_cases same : j = i
    · subst same
      exact Or.inr ⟨w, Function.update_self ..⟩
    · dsimp only at nonempty
      rw [given.others j same] at nonempty
      rcases noticed.noticed j watches nonempty with readable | ⟨v, other⟩
      · exact Or.inl readable
      · refine Or.inr ⟨v, ?_⟩
        have differ : v ≠ w := by
          rintro rfl
          cases here.symm.trans (noticed.notifying v j other)
        exact (Function.update_of_ne differ _ _).trans other

/-- A worker goes on that has nobody to notify. -/
theorem of_worker (noticed : Noticed p) {w : Fin numWorkers} {pc : WorkerPc}
    (free : p.notifying w = none ∨ p.system.workers w ≠ .waiting)
    (notifying : next.notifying = p.notifying) (eventfd : next.eventfd = p.eventfd)
    (loops : next.system.loops = p.system.loops)
    (workers : next.system.workers = Function.update p.system.workers w pc)
    (stage : next.stage = p.stage) : Noticed next := by
  refine noticed.of_quiet notifying eventfd (fun i => by rw [loops]) ?_ (by rw [stage]; simp)
  intro v owes waits
  have differ : v ≠ w := by
    rintro rfl
    rcases free with none | busy
    · rw [none] at owes
      cases owes
    · exact busy waits
  rw [workers, Function.update_of_ne differ]
  exact waits

/-- Every event keeps the notifications. -/
theorem step (noticed : Noticed p) (moves : Moves p event next) : Noticed next := by
  have still : ∀ {s' : System nloops numWorkers}, s'.workers = p.system.workers →
      ∀ w, (p.notifying w).isSome → p.system.workers w = .waiting → s'.workers w = .waiting :=
    fun same w _ waits => same ▸ waits
  cases moves with
  | kernel moved same pc =>
      exact noticed.of_quiet rfl rfl moved.doneQ (still moved.workers) fun _ watches => watches
  | poll leaves here =>
      refine noticed.of_quiet rfl rfl (fun _ => rfl) (still rfl) (watches_of_update fun _ => ?_)
      rw [here]
      rfl
  | @drainEventfd i leaves here =>
      refine ⟨noticed.notifying, fun j watches nonempty => ?_⟩
      by_cases same : j = i
      · subst same
        simp [setStage, LoopStage.watches] at watches
      · simp only [setStage, Function.update_of_ne same] at watches ⊢
        exact noticed.noticed j watches nonempty
  | call calls moved same =>
      exact noticed.of_quiet rfl rfl moved.doneQ (still moved.workers)
        (watches_of_update (calls_watches calls))
  | drain drains drained =>
      exact noticed.of_drained drained rfl rfl rfl fun j away => Function.update_of_ne away _ _
  | loop busy moved same =>
      exact noticed.of_quiet rfl rfl moved.doneQ (still moved.workers) fun _ watches => watches
  | push busy free moved more shutdown =>
      exact noticed.of_quiet rfl rfl moved.doneQ (still moved.workers) fun _ watches => watches
  | signal signalled => exact ⟨noticed.notifying, noticed.noticed⟩
  | take here awake free loops workers fewer shutdown =>
      exact noticed.of_worker (Or.inl free) rfl rfl loops workers rfl
  | exit here awake free loops workers same empty =>
      exact noticed.of_worker (Or.inl free) rfl rfl loops workers rfl
  | sleep here opened empty => exact ⟨noticed.notifying, noticed.noticed⟩
  | resolve pc here stays loops workers same =>
      exact noticed.of_worker (Or.inr (by simp [here])) rfl rfl loops workers rfl
  | give here given => exact noticed.of_give here given
  | wake waits => exact ⟨noticed.notifying, noticed.noticed⟩
  | notify owes => exact noticed.of_notify owes
  | joinLoops here ended idle => exact ⟨noticed.notifying, noticed.noticed⟩
  | broadcast here => exact ⟨noticed.notifying, noticed.noticed⟩
  | joinWorkers here ended => exact ⟨noticed.notifying, noticed.noticed⟩
  | lastDrain here drained => exact noticed.of_drained drained rfl rfl rfl fun _ _ => rfl
  | lastReclaim here moved same =>
      exact noticed.of_quiet rfl rfl moved.doneQ (still moved.workers) fun _ watches => watches
  | finish here all idle => exact ⟨noticed.notifying, noticed.noticed⟩

end Noticed

/-- Whatever the interleaving: while a worker sleeps, the pending queue holds no more jobs than
there are workers that have been woken and loop threads that are about to signal; from the broadcast
on no worker sleeps; and if a loop thread polls while jobs are in its done queue, its eventfd is
readable or a worker is about to write to it. -/
theorem xdp_no_lost_wakeup (few : nloops ≤ maxXsks) {created : Fin nloops → Bool}
    {events : List (ProcessEvent μ nloops numWorkers)}
    (done : (Process.start nloops numWorkers created).bind
      (Schedule.run (Process.step backend) events) = some p) :
    (p.notEmpty.waiting.Nonempty →
      p.system.pendingQ.count ≤ p.notEmpty.woken.card + p.notEmpty.signalling.card) ∧
    (∀ w, w ∈ p.notEmpty.waiting ∨ w ∈ p.notEmpty.woken → p.system.workers w = .waiting) ∧
    (p.system.pendingQ.shutdown = true → p.main ≠ .broadcast → p.notEmpty.waiting = ∅) ∧
    ∀ i, p.stage i = .poll → 0 < (p.system.loops i).doneQ.count →
      0 < p.eventfd i ∨ ∃ w, p.notifying w = some i := by
  obtain ⟨_, attentive⟩ :=
    run_moves few (fun _ _ _ => Attentive.step) (fun _ => Attentive.start) done
  obtain ⟨_, noticed⟩ := run_moves few (fun _ _ _ => Noticed.step) (fun _ => Noticed.start) done
  refine ⟨attentive.attended.signalled, ?_, fun closed past => ?_, fun i polls => ?_⟩
  · rintro w (waits | awake)
    · exact attentive.waiting w waits
    · exact attentive.woken w awake
  · rw [← Finset.not_nonempty_iff_eq_empty]
    intro asleep
    exact past (attentive.broadcasting (attentive.attended.announced closed asleep))
  · exact noticed.noticed i (by rw [polls]; rfl)

/-- A backend that returns the query. -/
def echoBackend (_ : Unit) (query : Bytes) : Answer :=
  if fits : query.length ≤ dnsMaxMsgLen then some ⟨query, fits⟩ else none

/-- A query comes in while the worker sleeps, and is answered; the worker is about to notify the
loop thread, which is back at `poll`. -/
def queryAnswered (i w : Fin 1) : List (ProcessEvent Unit 1 1) :=
  [.worker w (), .kernel i .takeFill, .kernel i (.publishFill 1), .kernel i queryArrives,
    .turn i false, .turn i false, .turn i false, .loop i true, .signal i (some w), .loop i true,
    .loop i true, .loop i true, .turn i false, .loop i true, .turn i false,
    .worker w (), .worker w (), .worker w ()]

theorem xdp_no_lost_wakeup_example :
    ∃ p, (Process.start 1 1 fun _ => true).bind
        (Schedule.run (Process.step echoBackend) (queryAnswered 0 0)) = some p ∧
      p.stage 0 = .poll ∧ (p.system.loops 0).doneQ.count = 1 ∧
      (0 < p.eventfd 0 ∨ ∃ w, p.notifying w = some 0) := by
  have ran : ((Process.start 1 1 fun _ => true).bind
      (Schedule.run (Process.step echoBackend) (queryAnswered 0 0))).map
        (fun p => (p.stage 0, (p.system.loops 0).doneQ.count)) = some (.poll, 1) := by
    decide +kernel
  obtain ⟨p, done, here⟩ := Option.map_eq_some_iff.mp ran
  obtain ⟨polls, count⟩ := Prod.mk.inj here
  have noticed := (xdp_no_lost_wakeup (by decide) done).2.2.2 0 polls (by rw [count]; decide)
  exact ⟨p, done, polls, count, noticed⟩

end FizzDns
