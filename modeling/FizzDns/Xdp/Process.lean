import FizzDns.Foundation.CondVar
import FizzDns.Foundation.Schedule
import FizzDns.Xdp.Conservation

/-!
# The process

`System` lets a loop thread make its calls in any order and a waiting worker look at its queue at
any time. Here the threads go through `loop_main`, `worker_main` and the end of `main` as they are
written: a loop thread polls, reads its eventfd, receives, transmits and reclaims, turn after turn;
a worker that finds nothing sleeps on the condition variable of the pending queue until it is woken;
a queue is signalled after its mutex is given back, and a done queue by its eventfd; and the main
thread joins the loops, shuts the queue down, joins the workers and drains what is left.

`Process.step` is one event, and what it does to the queues is an action of the `System` beneath
(`step_acts`), so that what is known of every `System` carries over. The condition variable of
a done queue has no waiters and is left out.
-/

namespace FizzDns

/-! ## Queues under the actions -/

/-- The queue is as it was, or it has taken one more job. -/
def JobQueue.Offered (q next : JobQueue) : Prop :=
  next = q ∨ next.count = q.count + 1 ∧ next.shutdown = q.shutdown

/-- `queue_push` offers a job. -/
theorem queuePush_offered {q next : JobQueue} {job : Addr} {heap after : Heap DnsJob} {taken : Bool}
    (pushed : queuePush q job heap = some (taken, next, after)) : q.Offered next := by
  unfold queuePush at pushed
  split at pushed
  · cases pushed
    exact Or.inl rfl
  · obtain ⟨linked, _, rest⟩ := Option.bind_eq_some_iff.mp pushed
    split at rest
    · obtain ⟨behind, _, rest⟩ := Option.bind_eq_some_iff.mp rest
      cases rest
      exact Or.inr ⟨rfl, rfl⟩
    · cases rest
      exact Or.inr ⟨rfl, rfl⟩

section

variable {nloops numWorkers : Nat} {s s' : System nloops numWorkers} {i : Fin nloops}

/-- What a loop thread leaves alone. -/
structure System.LoopMoved (i : Fin nloops) (s s' : System nloops numWorkers) : Prop where
  pendingQ : s.pendingQ.Offered s'.pendingQ
  doneQ : ∀ j, (s'.loops j).doneQ = (s.loops j).doneQ
  others : ∀ j, j ≠ i → s'.loops j = s.loops j
  workers : s'.workers = s.workers

namespace System

theorem LoopMoved.setXsk {middle : System nloops numWorkers} (moved : LoopMoved i s middle)
    (xsk : XskSocketInfo) (pc : LoopPc) : LoopMoved i s (middle.setXsk i xsk pc) where
  pendingQ := moved.pendingQ
  doneQ := fun j => by
    rw [← moved.doneQ j]
    by_cases same : j = i
    · subst same
      simp [System.setXsk, setLoop]
    · simp [System.setXsk, setLoop, Function.update_of_ne same]
  others := fun j away => by
    rw [← moved.others j away]
    simp [System.setXsk, setLoop, Function.update_of_ne away]
  workers := moved.workers

/-- A loop thread that works on its socket. -/
theorem LoopMoved.of_setXsk {middle : System nloops numWorkers}
    (pendingQ : s.pendingQ.Offered middle.pendingQ) (loops : middle.loops = s.loops)
    (workers : middle.workers = s.workers) (xsk : XskSocketInfo) (pc : LoopPc) :
    LoopMoved i s (middle.setXsk i xsk pc) := by
  have moved : LoopMoved i s middle :=
    ⟨pendingQ, fun j => by rw [loops], fun j _ => by rw [loops], workers⟩
  exact moved.setXsk xsk pc

theorem LoopMoved.refl : LoopMoved i s s := ⟨Or.inl rfl, fun _ => rfl, fun _ _ => rfl, rfl⟩

/-- A received packet moves its loop, and offers a job at most. -/
theorem rxJob_moved {allocates : Bool} {packet : Bytes}
    (done : s.rxJob i allocates packet = some s') : LoopMoved i s s' := by
  unfold rxJob at done
  split at done
  · cases done
    exact LoopMoved.refl.setXsk _ _
  · simp only [Option.bind_eq_bind, Option.bind_eq_some_iff] at done
    obtain ⟨⟨taken, pendingQ, heap⟩, pushed, rest⟩ := done
    have offered := queuePush_offered pushed
    dsimp only at rest
    split at rest
    · cases rest
      refine .of_setXsk ?_ ?_ ?_ _ _
      · exact offered
      · rfl
      · rfl
    · obtain ⟨freed, _, rest⟩ := Option.bind_eq_some_iff.mp rest
      cases rest
      refine .of_setXsk ?_ ?_ ?_ _ _
      · exact offered
      · rfl
      · rfl

theorem collect_moved {list : Option Addr} {batch : List Addr}
    (done : s.collect i list batch = some s') : LoopMoved i s s' := by
  unfold collect at done
  split at done
  · cases done
    split
    · exact LoopMoved.refl.setXsk _ _
    · exact LoopMoved.refl.setXsk _ _
  · split at done
    · obtain ⟨job, _, rest⟩ := Option.bind_eq_some_iff.mp done
      split at rest
      · obtain ⟨heap, _, rest⟩ := Option.bind_eq_some_iff.mp rest
        cases rest
        refine .of_setXsk ?_ ?_ ?_ _ _
        · exact Or.inl rfl
        · rfl
        · rfl
      · cases rest
        exact LoopMoved.refl.setXsk _ _
    · cases done
      exact LoopMoved.refl.setXsk _ _

theorem transmit_moved (batch : List Addr) (want : Nat) (jobs : List DnsJob) :
    LoopMoved i s (s.transmit i batch want jobs) := by
  unfold transmit
  dsimp only
  split
  · exact LoopMoved.refl.setXsk _ _
  · refine .of_setXsk ?_ ?_ ?_ _ _
    · exact Or.inl rfl
    · rfl
    · rfl

/-- Sending a batch moves its loop. -/
theorem sendBatch_moved {list : Option Addr} {batch : List Addr} {want : Nat}
    (done : s.sendBatch i list batch want = some s') : LoopMoved i s s' := by
  simp only [sendBatch, Option.bind_eq_bind, Option.bind_eq_some_iff] at done
  obtain ⟨jobs, _, heap, _, rest⟩ := done
  cases rest
  have moved : LoopMoved i s (if want = 0 then s else s.transmit i batch want jobs) := by
    split
    · exact .refl
    · exact transmit_moved batch want jobs
  have freed : LoopMoved i s
      { (if want = 0 then s else s.transmit i batch want jobs) with heap := heap } :=
    ⟨moved.pendingQ, moved.doneQ, moved.others, moved.workers⟩
  exact freed.setXsk _ _

/-- A step of a loop thread leaves the done queues, the workers and the other loops alone, and puts
at most one job into the pending queue. -/
theorem loopStep_moved {allocates : Bool} (done : s.loopStep i allocates = some s') :
    LoopMoved i s s' := by
  unfold loopStep at done
  split at done
  · cases done
    exact .refl
  · cases done
    exact LoopMoved.refl.setXsk _ _
  · obtain ⟨middle, received, rest⟩ := Option.bind_eq_some_iff.mp done
    obtain ⟨free, _, rest⟩ := Option.bind_eq_some_iff.mp rest
    cases rest
    exact (rxJob_moved received).setXsk _ _
  · cases done
    exact LoopMoved.refl.setXsk _ _
  · cases done
    unfold reserveFill
    dsimp only
    split
    · exact LoopMoved.refl.setXsk _ _
    · exact LoopMoved.refl.setXsk _ _
  · exact collect_moved done
  · exact sendBatch_moved done
  · cases done
    exact LoopMoved.refl.setXsk _ _
  · obtain ⟨free, _, rest⟩ := Option.bind_eq_some_iff.mp done
    cases rest
    exact LoopMoved.refl.setXsk _ _

/-- A call of a loop thread. -/
theorem call_moved (body : System nloops numWorkers → System nloops numWorkers)
    (moved : LoopMoved i s (body s)) : LoopMoved i s (s.call i body) := by
  unfold call
  split
  · exact moved
  · exact .refl

theorem drainRx_moved : LoopMoved i s (s.drainRx i) := LoopMoved.refl.setXsk _ _

theorem reclaimTx_moved : LoopMoved i s (s.reclaimTx i) := by
  unfold reclaimTx
  dsimp only
  split
  · exact .refl
  · exact LoopMoved.refl.setXsk _ _

end System

end

/-! ## The threads -/

/-- A loop thread is between two calls. -/
def LoopPc.isIdle : LoopPc → Bool
  | .idle => true
  | _ => false

/-- A worker has left its loop. -/
def WorkerPc.isExited : WorkerPc → Bool
  | .exited => true
  | _ => false

/-- What a loop thread does next in `loop_main`: look at `global_exit` and poll, read the eventfd,
make the calls of a turn, make those behind the loop, or nothing more. -/
inductive LoopStage
  | poll
  | drainEventfd
  | drainRx
  | drainDoneAndTx
  | reclaimTx
  | lastDrain
  | lastReclaim
  | returned
  deriving DecidableEq

/-- What the main thread does next, from its first `pthread_join` on. -/
inductive MainStage (nloops : Nat)
  | joinLoops
  | broadcast
  | joinWorkers
  | drain (next : Nat)
  | reclaim (i : Fin nloops)
  | finished

/-- The process: the threads with what they share, the condition variable of the pending queue, and
for each loop its eventfd. `notifying` are the workers between a push to a done queue and the write
to its eventfd. -/
structure Process (nloops numWorkers : Nat) where
  system : System nloops numWorkers
  notEmpty : CondVar (Fin numWorkers) (Fin nloops)
  eventfd : Fin nloops → Nat
  notifying : Fin numWorkers → Option (Fin nloops)
  stage : Fin nloops → LoopStage
  main : MainStage nloops

/-- What happens next. `turn` is what a loop thread does between two calls, and tells whether it
leaves its loop if it is at the top: `global_exit` is set, or `poll` has failed. `loop` is a step
inside a call, `wake` a wakeup without a signal. -/
inductive ProcessEvent (μ : Type) (nloops numWorkers : Nat)
  | kernel (i : Fin nloops) (step : KernelStep)
  | turn (i : Fin nloops) (leaves : Bool)
  | loop (i : Fin nloops) (allocates : Bool)
  | signal (i : Fin nloops) (chosen : Option (Fin numWorkers))
  | worker (w : Fin numWorkers) (moment : μ)
  | wake (w : Fin numWorkers)
  | notify (w : Fin numWorkers)
  | main

/-- A write of 1 to an eventfd, which fails when the counter is at its end. -/
def eventfdWrite (counter : Nat) : Nat :=
  if counter < 2 ^ 64 - 2 then counter + 1 else counter

namespace Process

variable {μ : Type} {nloops numWorkers : Nat}

/-- An action on what the threads share. -/
def act (action : Action nloops numWorkers) (p : Process nloops numWorkers) :
    Option (Process nloops numWorkers) := do
  let system ← p.system.step action
  some { p with system := system }

/-- A loop thread gets on. -/
def setStage (i : Fin nloops) (stage : LoopStage) (p : Process nloops numWorkers) :
    Process nloops numWorkers :=
  { p with stage := Function.update p.stage i stage }

/-- What a loop thread does between two calls: `loop_main`. -/
def turn (i : Fin nloops) (leaves : Bool) (p : Process nloops numWorkers) :
    Option (Process nloops numWorkers) :=
  match p.stage i with
  | .poll => some (p.setStage i (if leaves then .lastDrain else .drainEventfd))
  | .drainEventfd =>
      some { p.setStage i .drainRx with eventfd := Function.update p.eventfd i 0 }
  | .drainRx => (p.setStage i .drainDoneAndTx).act (.drainRx i)
  | .drainDoneAndTx => (p.setStage i .reclaimTx).act (.drainDoneAndTx i)
  | .reclaimTx => (p.setStage i .poll).act (.reclaimTx i)
  | .lastDrain => (p.setStage i .lastReclaim).act (.drainDoneAndTx i)
  | .lastReclaim => (p.setStage i .returned).act (.reclaimTx i)
  | .returned => none

/-- A step inside a call. If it has put a job into the pending queue, the signal is to come. -/
def loop (i : Fin nloops) (allocates : Bool) (p : Process nloops numWorkers) :
    Option (Process nloops numWorkers) := do
  let system ← p.system.step (.loop i allocates)
  some { p with
    system := system
    notEmpty := if system.pendingQ.count = p.system.pendingQ.count then p.notEmpty
      else p.notEmpty.owe i }

/-- The loop that a job came from. -/
def home (addr : Addr) (p : Process nloops numWorkers) : Option (Fin nloops) := do
  let job ← p.system.heap.read addr
  if inside : job.loopIdx.toNat < nloops then some ⟨job.loopIdx.toNat, inside⟩ else none

/-- The eventfd that a worker is to write to when it has pushed a job: that of the loop the job came
from, if its done queue took the job. -/
def notice (addr : Addr) (system : System nloops numWorkers) (p : Process nloops numWorkers) :
    Option (Fin nloops) := do
  let i ← p.home addr
  if (system.loops i).doneQ.count = (p.system.loops i).doneQ.count then none else some i

/-- A worker goes on in `worker_main`. One that has looked at the queue goes away with a job or for
good, or it sleeps. -/
def work (backend : μ → Bytes → Answer) (w : Fin numWorkers) (moment : μ)
    (p : Process nloops numWorkers) : Option (Process nloops numWorkers) :=
  match p.system.workers w with
  | .waiting => do
      let system ← p.system.step (.worker w none)
      some { p with
        system := system
        notEmpty := match system.workers w with
          | .waiting => p.notEmpty.wait w
          | _ => p.notEmpty.leave w }
  | .resolving addr => do
      let job ← p.system.heap.read addr
      p.act (.worker w (backend moment job.query))
  | .resolved addr => do
      let system ← p.system.step (.worker w none)
      some { p with
        system := system
        notifying := Function.update p.notifying w (p.notice addr system) }
  | .exited => none

/-- The end of `main`. Behind its last `pthread_join` the main thread works on the sockets of the
loops, one after the other. -/
def runMain (p : Process nloops numWorkers) : Option (Process nloops numWorkers) :=
  match p.main with
  | .joinLoops =>
      if ∀ i, p.stage i = .returned ∧ (p.system.loops i).pc.isIdle then
        { p with main := .broadcast, notEmpty := p.notEmpty.close }.act .shutdown
      else none
  | .broadcast => some { p with main := .joinWorkers, notEmpty := p.notEmpty.broadcast }
  | .joinWorkers =>
      if ∀ w, (p.system.workers w).isExited then some { p with main := .drain 0 } else none
  | .drain next =>
      if ∀ i, (p.system.loops i).pc.isIdle then
        if more : next < nloops then
          { p with main := .reclaim ⟨next, more⟩ }.act (.drainDoneAndTx ⟨next, more⟩)
        else some { p with main := .finished }
      else none
  | .reclaim i =>
      if ∀ j, (p.system.loops j).pc.isIdle then
        { p with main := .drain (i + 1) }.act (.reclaimTx i)
      else none
  | .finished => none

/-- One event. A thread that has a signal or a notification to send does that first. -/
def step (backend : μ → Bytes → Answer) (event : ProcessEvent μ nloops numWorkers)
    (p : Process nloops numWorkers) : Option (Process nloops numWorkers) :=
  match event with
  | .kernel i step => p.act (.kernel i step)
  | .turn i leaves => if (p.system.loops i).pc.isIdle then p.turn i leaves else none
  | .loop i allocates =>
      if (p.system.loops i).pc.isIdle ∨ i ∈ p.notEmpty.signalling then none
      else p.loop i allocates
  | .signal i chosen => do
      let notEmpty ← p.notEmpty.signal i chosen
      some { p with notEmpty := notEmpty }
  | .worker w moment =>
      if w ∈ p.notEmpty.waiting ∨ (p.notifying w).isSome then none else p.work backend w moment
  | .wake w =>
      if w ∈ p.notEmpty.waiting then some { p with notEmpty := p.notEmpty.wake w } else none
  | .notify w => do
      let i ← p.notifying w
      some { p with
        notifying := Function.update p.notifying w none
        eventfd := Function.update p.eventfd i (eventfdWrite (p.eventfd i)) }
  | .main => p.runMain

/-- The process when its threads are there. A loop whose thread could not be created has
returned. -/
def start (nloops numWorkers : Nat) (created : Fin nloops → Bool) :
    Option (Process nloops numWorkers) := do
  let system ← System.start nloops numWorkers
  some
    { system := system
      notEmpty := .idle
      eventfd := fun _ => 0
      notifying := fun _ => none
      stage := fun i => if created i then .poll else .returned
      main := .joinLoops }

/-- Nobody sleeps at the start, and the queues are empty. -/
theorem start_spec {created : Fin nloops → Bool} {p : Process nloops numWorkers}
    (started : start nloops numWorkers created = some p) :
    System.start nloops numWorkers = some p.system ∧ p.notEmpty = .idle ∧
      (∀ w, p.notifying w = none) ∧ p.main = .joinLoops ∧
      p.system.pendingQ = queueInit maxPending ∧
      ∀ i, (p.system.loops i).doneQ = queueInit 0 := by
  simp only [start, Option.bind_eq_bind, Option.bind_eq_some_iff, Option.some.injEq] at started
  obtain ⟨s, fresh, rfl⟩ := started
  refine ⟨fresh, rfl, fun _ => rfl, rfl, ?_⟩
  simp only [System.start, Option.bind_eq_bind, Option.bind_eq_some_iff, Option.some.injEq] at fresh
  obtain ⟨xsk, _, rfl⟩ := fresh
  exact ⟨rfl, fun _ => rfl⟩

/-! ## What an event can do -/

/-- An event's action on what the threads share. The kernel acts as the event says, and a worker
that resolves a query has asked the backend for it. -/
def Acts (backend : μ → Bytes → Answer) (event : ProcessEvent μ nloops numWorkers)
    (s s' : System nloops numWorkers) : Prop :=
  s' = s ∨ ∃ action, s.step action = some s' ∧
    (∀ i step, action = .kernel i step → event = .kernel i step) ∧
    ∀ w answer addr, action = .worker w answer → s.workers w = .resolving addr →
      ∃ job moment, s.heap.read addr = some job ∧ answer = backend moment job.query

variable {backend : μ → Bytes → Answer} {p next : Process nloops numWorkers}
  {event : ProcessEvent μ nloops numWorkers}

/-- An action that an event carries out, other than a worker's. -/
theorem acts_of_act {middle : Process nloops numWorkers} {action : Action nloops numWorkers}
    (done : middle.act action = some next) (same : middle.system = p.system)
    (other : ∀ w answer, action ≠ .worker w answer)
    (kernel : ∀ i step, action = .kernel i step → event = .kernel i step) :
    Acts backend event p.system next.system := by
  obtain ⟨system, stepped, rest⟩ := Option.bind_eq_some_iff.mp done
  cases rest
  rw [same] at stepped
  refine Or.inr ⟨action, stepped, kernel, ?_⟩
  exact fun w answer _ isWorker => absurd isWorker (other w answer)

/-- A turn of `loop_main` is an action or none. -/
theorem turn_acts {i : Fin nloops} {leaves : Bool} (done : p.turn i leaves = some next) :
    Acts backend event p.system next.system := by
  unfold turn at done
  split at done
  · cases done
    exact Or.inl rfl
  · cases done
    exact Or.inl rfl
  · exact acts_of_act done rfl (by simp) (by simp)
  · exact acts_of_act done rfl (by simp) (by simp)
  · exact acts_of_act done rfl (by simp) (by simp)
  · exact acts_of_act done rfl (by simp) (by simp)
  · exact acts_of_act done rfl (by simp) (by simp)
  · cases done

/-- So is a turn of `worker_main`. -/
theorem work_acts {w : Fin numWorkers} {moment : μ} (done : p.work backend w moment = some next) :
    Acts backend event p.system next.system := by
  unfold work at done
  split at done
  case h_1 here =>
      obtain ⟨system, stepped, rest⟩ := Option.bind_eq_some_iff.mp done
      cases rest
      refine Or.inr ⟨_, stepped, by simp, ?_⟩
      rintro _ _ addr ⟨rfl, rfl⟩ resolving
      cases here.symm.trans resolving
  case h_2 addr here =>
      obtain ⟨job, found, acted⟩ := Option.bind_eq_some_iff.mp done
      obtain ⟨system, stepped, rest⟩ := Option.bind_eq_some_iff.mp acted
      cases rest
      refine Or.inr ⟨_, stepped, by simp, ?_⟩
      rintro _ _ other ⟨rfl, rfl⟩ resolving
      cases here.symm.trans resolving
      exact ⟨job, moment, found, rfl⟩
  case h_3 addr here =>
      obtain ⟨system, stepped, rest⟩ := Option.bind_eq_some_iff.mp done
      cases rest
      refine Or.inr ⟨_, stepped, by simp, ?_⟩
      rintro _ _ other ⟨rfl, rfl⟩ resolving
      cases here.symm.trans resolving
  case h_4 => cases done

/-- So is a turn of `main`. -/
theorem runMain_acts (done : p.runMain = some next) : Acts backend event p.system next.system := by
  unfold runMain at done
  split at done
  · split at done
    · exact acts_of_act done rfl (by simp) (by simp)
    · cases done
  · cases done
    exact Or.inl rfl
  · split at done
    · cases done
      exact Or.inl rfl
    · cases done
  · split at done
    · split at done
      · exact acts_of_act done rfl (by simp) (by simp)
      · cases done
        exact Or.inl rfl
    · cases done
  · split at done
    · exact acts_of_act done rfl (by simp) (by simp)
    · cases done
  · cases done

/-- What an event does to what the threads share is an action of the `System`, or nothing. -/
theorem step_acts (done : p.step backend event = some next) :
    Acts backend event p.system next.system := by
  cases event with
  | kernel i step => exact acts_of_act done rfl (by simp) (by simp)
  | turn i leaves =>
      simp only [step] at done
      split at done
      · exact turn_acts done
      · cases done
  | loop i allocates =>
      simp only [step] at done
      split at done
      · cases done
      · obtain ⟨system, stepped, rest⟩ := Option.bind_eq_some_iff.mp done
        cases rest
        exact Or.inr ⟨_, stepped, by simp, by simp⟩
  | signal i chosen =>
      obtain ⟨notEmpty, _, rest⟩ := Option.bind_eq_some_iff.mp done
      cases rest
      exact Or.inl rfl
  | worker w moment =>
      simp only [step] at done
      split at done
      · cases done
      · exact work_acts done
  | wake w =>
      simp only [step] at done
      split at done
      · cases done
        exact Or.inl rfl
      · cases done
  | notify w =>
      obtain ⟨i, _, rest⟩ := Option.bind_eq_some_iff.mp done
      cases rest
      exact Or.inl rfl
  | main => exact runMain_acts done

end Process

end FizzDns
