import FizzDns.Xdp.Wakeup

/-!
# The end of the process

The main thread joins the loops, shuts the pending queue down, joins the workers and drains the done
queues. It is never stuck (`xdp_no_deadlock`), and when it is done, every packet has been dealt
with, every job has been freed, and the counters that it prints add up (`xdp_shutdown_drains`).
-/

namespace FizzDns

open FizzDns.System Process

variable {μ : Type} {nloops numWorkers : Nat} {backend : μ → Bytes → Answer}
  {p next : Process nloops numWorkers} {event : ProcessEvent μ nloops numWorkers}

/-! ## What the main thread knows -/

/-- The workers have been joined. -/
def MainStage.joined : MainStage nloops → Bool
  | .drain _ => true
  | .reclaim _ => true
  | .finished => true
  | _ => false

/-- The main thread has taken the done queue of a loop. -/
def MainStage.hasDrained (i : Fin nloops) : MainStage nloops → Prop
  | .drain count => i < count
  | .reclaim j => i ≤ j
  | .finished => True
  | _ => False

theorem MainStage.joined_of_hasDrained {main : MainStage nloops} {i : Fin nloops}
    (drained : main.hasDrained i) : main.joined = true := by
  cases main with
  | joinLoops | broadcast | joinWorkers => cases drained
  | drain _ | reclaim _ | finished => rfl

/-- What the main thread knows when it goes on. -/
structure Settled (p : Process nloops numWorkers) : Prop where
  returned : p.main.closed = true → ∀ i, p.stage i = .returned
  exited : p.main.joined = true → ∀ w, p.system.workers w = .exited
  drained : ∀ i, p.main.hasDrained i → (p.system.loops i).doneQ.count = 0
  idle : p.main = .finished → AllIdle p.system

namespace Settled

theorem start {created : Fin nloops → Bool}
    (started : Process.start nloops numWorkers created = some p) : Settled p := by
  have main := (start_spec started).2.2.2.1
  constructor
  all_goals simp [main, MainStage.closed, MainStage.joined, MainStage.hasDrained]

/-- Another thread goes on. -/
theorem of_other (settled : Settled p) (main : next.main = p.main)
    (stage : ∀ i, p.stage i = .returned → next.stage i = .returned)
    (workers : ∀ w, p.system.workers w = .exited → next.system.workers w = .exited)
    (doneQ : ∀ i, p.main.hasDrained i → (p.system.loops i).doneQ.count = 0 →
      (next.system.loops i).doneQ.count = 0)
    (idle : p.main = .finished → AllIdle p.system → AllIdle next.system) : Settled next where
  returned := fun closed i => stage i (settled.returned (main ▸ closed) i)
  exited := fun joined w => workers w (settled.exited (main ▸ joined) w)
  drained := fun i drained => by
    rw [main] at drained
    exact doneQ i drained (settled.drained i drained)
  idle := fun finished => by
    rw [main] at finished
    exact idle finished (settled.idle finished)

/-- A loop that has returned does not get on. -/
theorem stage_of_update {i : Fin nloops} {stage : LoopStage} (running : p.stage i ≠ .returned)
    (j : Fin nloops) (returned : p.stage j = .returned) :
    (p.setStage i stage).stage j = .returned := by
  have differ : j ≠ i := fun same => running (same ▸ returned)
  simpa [setStage, Function.update_of_ne differ] using returned

/-- A worker that has left does not go on. -/
theorem workers_of_update {w : Fin numWorkers} {pc : WorkerPc} {s' : System nloops numWorkers}
    (workers : s'.workers = Function.update p.system.workers w pc)
    (running : p.system.workers w ≠ .exited ∨ pc = .exited) (v : Fin numWorkers)
    (exited : p.system.workers v = .exited) : s'.workers v = .exited := by
  rw [workers]
  by_cases same : v = w
  · subst same
    rw [Function.update_self]
    rcases running with running | left
    · exact absurd exited running
    · exact left
  · rw [Function.update_of_ne same]
    exact exited

/-- A loop that has not returned has work to do only while the main thread waits for it. -/
theorem not_finished (settled : Settled p) {i : Fin nloops} (running : p.stage i ≠ .returned)
    (finished : p.main = .finished) : False :=
  running (settled.returned (by rw [finished]; rfl) i)

/-- A worker goes on, with the loops as they were. -/
theorem of_worker (settled : Settled p) {w : Fin numWorkers} {pc : WorkerPc}
    (main : next.main = p.main) (stage : next.stage = p.stage)
    (loops : next.system.loops = p.system.loops)
    (workers : next.system.workers = Function.update p.system.workers w pc)
    (running : p.system.workers w ≠ .exited ∨ pc = .exited) : Settled next := by
  refine settled.of_other main ?_ (workers_of_update workers running) ?_ ?_
  · rw [stage]
    exact fun _ returned => returned
  · rw [loops]
    exact fun _ _ empty => empty
  · unfold AllIdle
    rw [loops]
    exact fun _ idle => idle

/-- A loop thread goes on, and does not take its done queue. -/
theorem of_moved (settled : Settled p) {i : Fin nloops} (moved : LoopMoved i p.system next.system)
    (main : next.main = p.main) (stage : ∀ i, p.stage i = .returned → next.stage i = .returned)
    (idle : p.main = .finished → AllIdle p.system → AllIdle next.system) : Settled next := by
  refine settled.of_other main stage ?_ ?_ idle
  · rw [moved.workers]
    exact fun _ exited => exited
  · intro j _ empty
    rw [moved.doneQ, empty]

/-- Only `returned` is behind the last call. -/
theorem not_returned_of_calls {before after : LoopStage} (calls : Calls before after) :
    before ≠ .returned := by
  cases calls <;> simp

theorem not_returned_of_drains {before after : LoopStage} (drains : Drains before after) :
    before ≠ .returned := by
  cases drains <;> simp

/-- Every event keeps what the main thread knows. -/
theorem step (settled : Settled p) (moves : Moves p event next) : Settled next := by
  have ⟨returned, exited, drained, idle⟩ := settled
  cases moves with
  | @kernel i _ s' moved same pc =>
      refine settled.of_moved moved rfl (fun _ here => here) fun _ allIdle j => ?_
      by_cases here : j = i
      · subst here
        exact pc ▸ allIdle j
      · exact moved.others j here ▸ allIdle j
  | poll leaves here =>
      exact settled.of_other rfl (stage_of_update (by simp [here])) (fun _ left => left)
        (fun _ _ empty => empty) fun _ allIdle => allIdle
  | drainEventfd here =>
      exact settled.of_other rfl (stage_of_update (by simp [here])) (fun _ left => left)
        (fun _ _ empty => empty) fun _ allIdle => allIdle
  | call calls moved same =>
      have running := not_returned_of_calls calls
      exact settled.of_moved moved rfl (stage_of_update running)
        fun finished => (settled.not_finished running finished).elim
  | @drain i leaves stage s' drains taken =>
      have running := not_returned_of_drains drains
      refine settled.of_other rfl (stage_of_update running) ?_ ?_
        fun finished => (settled.not_finished running finished).elim
      · exact fun w left => (congrFun taken.workers w).trans left
      · intro j _ empty
        by_cases here : j = i
        · subst here
          exact taken.empty
        · dsimp only
          rw [taken.others j here]
          exact empty
  | loop busy moved same =>
      refine settled.of_moved moved rfl (fun _ here => here) fun _ allIdle => ?_
      rw [allIdle _] at busy
      cases busy
  | push busy free moved more shutdown =>
      refine settled.of_moved moved rfl (fun _ here => here) fun _ allIdle => ?_
      rw [allIdle _] at busy
      cases busy
  | signal signalled => exact ⟨returned, exited, drained, idle⟩
  | take here awake free loops workers fewer shutdown =>
      exact settled.of_worker rfl rfl loops workers (Or.inl (by simp [here]))
  | exit here awake free loops workers same empty =>
      exact settled.of_worker rfl rfl loops workers (Or.inr rfl)
  | sleep here opened empty => exact ⟨returned, exited, drained, idle⟩
  | resolve pc here stays loops workers same =>
      exact settled.of_worker rfl rfl loops workers (Or.inl (by simp [here]))
  | @give w moment addr i s' here given =>
      refine settled.of_other rfl (fun _ back => back)
        (workers_of_update given.workers (Or.inl (by simp [here]))) ?_ ?_
      · intro j done _
        cases here.symm.trans (exited (MainStage.joined_of_hasDrained done) w)
      · intro _ allIdle j
        by_cases same : j = i
        · subst same
          exact given.pc ▸ allIdle j
        · exact given.others j same ▸ allIdle j
  | wake waits => exact ⟨returned, exited, drained, idle⟩
  | notify owes => exact ⟨returned, exited, drained, idle⟩
  | joinLoops here ended allIdle =>
      exact ⟨fun _ => ended, (fun joined => by cases joined), (fun _ done => done.elim),
        fun finished => by cases finished⟩
  | broadcast here =>
      rw [here] at returned
      exact ⟨returned, (fun joined => by cases joined), (fun _ done => done.elim),
        fun finished => by cases finished⟩
  | joinWorkers here ended =>
      rw [here] at returned
      exact ⟨returned, fun _ => ended, fun _ done => absurd done (Nat.not_lt_zero _),
        fun finished => by cases finished⟩
  | @lastDrain i s' here taken =>
      rw [here] at returned exited drained
      refine ⟨returned, fun _ w => ?_, fun j done => ?_, fun finished => by cases finished⟩
      · exact (congrFun taken.workers w).trans (exited rfl w)
      · by_cases same : j = i
        · subst same
          exact taken.empty
        · dsimp only
          rw [taken.others j same]
          exact drained j (Nat.lt_of_le_of_ne done fun equal => same (Fin.ext equal))
  | @lastReclaim i s' here moved same =>
      rw [here] at returned exited drained
      refine ⟨returned, fun _ w => ?_, fun j done => ?_, fun finished => by cases finished⟩
      · exact (congrFun moved.workers w).trans (exited rfl w)
      · exact (congrArg _ (moved.doneQ j)).trans (drained j (Nat.le_of_lt_succ done))
  | @finish count here all allIdle =>
      rw [here] at returned exited drained
      exact ⟨returned, exited, fun j _ => drained j (Nat.lt_of_lt_of_le j.isLt all),
        fun _ => allIdle⟩

end Settled

/-! ## Nothing is left -/

section

variable {s : System nloops numWorkers} {pipe : Pipeline nloops numWorkers}

/-- A loop between two calls has no jobs in its hands. -/
theorem batch_of_idle (sound : s.Sound pipe) {i : Fin nloops} (idle : (s.loops i).pc.isIdle) :
    pipe.batch i = [] := by
  obtain ⟨rest, split, chain⟩ := (sound.represents.loops i).batch
  rw [isIdle_iff.mp idle] at split chain
  cases rest with
  | nil => exact split
  | cons addr rest => cases chain.1

/-- An empty done queue. -/
theorem done_of_empty (sound : s.Sound pipe) {i : Fin nloops}
    (empty : (s.loops i).doneQ.count = 0) : pipe.done i = [] := by
  rw [(sound.represents.loops i).done.count_eq] at empty
  exact List.length_eq_zero_iff.mp empty

/-- A job is somewhere: when all workers have left, no loop is in a call and the done queues are
empty, there is none. -/
theorem held_of_settled (sound : s.Sound pipe) (staffed : 0 < numWorkers)
    (exited : ∀ w, s.workers w = .exited) (idle : AllIdle s)
    (empty : ∀ i, (s.loops i).doneQ.count = 0) (place : JobPlace nloops numWorkers) :
    pipe.held place = [] := by
  rw [sound.represents.workers] at exited
  cases place with
  | pending => exact (sound.pipe.limits.exited ⟨0, staffed⟩ (exited _)).2
  | worker w => simp [Pipeline.held, exited w, WorkerPc.job]
  | done i => exact done_of_empty sound (empty i)
  | batch i => exact batch_of_idle sound (idle i)

end

/-- When the main thread is done, whatever the interleaving was: every packet that was received has
been dropped, refused for a full queue, answered or given up by a worker, every answer was put on a
TX ring or had no slot or no frame, the queues have given out all that they had taken, and every job
has been freed. -/
theorem xdp_shutdown_drains (few : nloops ≤ maxXsks) (staffed : 0 < numWorkers)
    {created : Fin nloops → Bool} {events : List (ProcessEvent μ nloops numWorkers)}
    (done : (Process.start nloops numWorkers created).bind
      (Schedule.run (Process.step backend) events) = some p)
    (finished : p.main = .finished) :
    (∀ addr, p.system.heap.read addr = none) ∧
    p.system.pendingQ.popped = p.system.pendingQ.pushed ∧
    (∀ i, (p.system.loops i).doneQ.popped = (p.system.loops i).doneQ.pushed) ∧
    ∑ i, (p.system.loops i).xsk.stats.rxPackets =
      ∑ i, ((p.system.loops i).xsk.stats.rxDropped + (p.system.loops i).xsk.stats.queueFull) +
        p.system.resolvedOk + p.system.resolvedDrop ∧
    p.system.resolvedOk = ∑ i, ((p.system.loops i).xsk.stats.txPackets +
      (p.system.loops i).xsk.stats.txNoSlot + (p.system.loops i).xsk.stats.txNoFrame) := by
  obtain ⟨⟨pipe, sound⟩, settled⟩ :=
    run_moves few (fun _ _ _ => Settled.step) (fun _ => Settled.start) done
  have exited := settled.exited (by rw [finished]; rfl)
  have empty : ∀ i, (p.system.loops i).doneQ.count = 0 := fun i =>
    settled.drained i (by rw [finished]; trivial)
  have nothing := held_of_settled sound staffed exited (settled.idle finished) empty
  have conserved := sound.conserved
  have pending : p.system.pendingQ.count = 0 := by
    rw [sound.represents.pending.count_eq]
    exact congrArg List.length (nothing .pending)
  refine ⟨fun addr => ?_, ?_, fun i => ?_, ?_, ?_⟩
  · rw [← Option.not_isSome_iff_eq_none]
    intro alive
    obtain ⟨place, member, _⟩ := conserved.place addr alive
    rw [nothing place] at member
    cases member
  · exact (conserved.exited ⟨0, staffed⟩ (exited _)).2
  · have fifo := (sound.represents.loops i).done.fifo
    rw [show pipe.done i = [] from nothing (.done i), List.append_nil] at fifo
    exact fifo.symm
  · have received := conserved.received
    simpa [pending, exited, WorkerPc.unresolved] using received
  · have resolved := conserved.resolved
    have none : ∀ i, pipe.batch i = [] := fun i => nothing (.batch i)
    simpa [empty, exited, none, WorkerPc.returning] using resolved

/-- The response goes out, the loop thread leaves its loop, and the main thread comes to its end. -/
def processStops (i w : Fin 1) : List (ProcessEvent Unit 1 1) :=
  [.notify w, .worker w (), .turn i false, .turn i false, .turn i false, .turn i false,
    .loop i true, .loop i true, .loop i true, .loop i true, .turn i false,
    .turn i true, .turn i true, .loop i true, .turn i true,
    .main, .main, .worker w (), .main, .main, .loop i true, .main, .main]

theorem xdp_shutdown_drains_example :
    ∃ p, (Process.start 1 1 fun _ => true).bind
        (Schedule.run (Process.step echoBackend) (queryAnswered 0 0 ++ processStops 0 0)) = some p ∧
      p.main = .finished ∧ p.system.created.length = 1 ∧
      ∀ addr, p.system.heap.read addr = none := by
  have ran : ((Process.start 1 1 fun _ => true).bind
      (Schedule.run (Process.step echoBackend) (queryAnswered 0 0 ++ processStops 0 0))).map
        (fun p => (p.main matches .finished, p.system.created.length)) = some (true, 1) := by
    decide +kernel
  obtain ⟨p, done, here⟩ := Option.map_eq_some_iff.mp ran
  obtain ⟨ended, count⟩ := Prod.mk.inj here
  have finished : p.main = .finished := by
    revert ended
    cases p.main <;> simp
  have freed := (xdp_shutdown_drains (by decide) (by decide) done finished).1
  exact ⟨p, done, finished, count, freed⟩

/-! ## Nobody is stuck -/

/-- An event of a thread: not of the kernel, and not a wakeup without a signal. -/
def ProcessEvent.ofThread : ProcessEvent μ nloops numWorkers → Bool
  | .kernel _ _ => false
  | .wake _ => false
  | _ => true

section

variable {pipe : Pipeline nloops numWorkers}

/-- An action never fails. -/
theorem act_isSome (few : nloops ≤ maxXsks) {s : System nloops numWorkers} (sound : s.Sound pipe)
    {middle : Process nloops numWorkers} (same : middle.system = s)
    (action : Action nloops numWorkers) : (middle.act action).isSome := by
  obtain ⟨s', _, stepped, _⟩ := sound.step few action
  simp [act, same, stepped]

/-- A worker that does not sleep can go on until it exits. -/
theorem worker_goes_on (few : nloops ≤ maxXsks) (sound : p.system.Sound pipe)
    {w : Fin numWorkers} (running : p.system.workers w ≠ .exited)
    (awake : w ∉ p.notEmpty.waiting) (moment : μ) :
    (p.step backend (.notify w)).isSome ∨ (p.step backend (.worker w moment)).isSome := by
  cases owes : p.notifying w with
  | some i => exact Or.inl (by simp [Process.step, owes])
  | none =>
      refine Or.inr ?_
      obtain ⟨s', _, stepped, _⟩ := sound.step few (.worker w none)
      simp only [Process.step, awake, owes, Option.isSome_none, Bool.false_eq_true, or_self,
        ↓reduceIte, work]
      cases here : p.system.workers w with
      | waiting => simp [stepped]
      | resolving addr =>
          have held : addr ∈ pipe.held (.worker w) := by
            rw [Pipeline.held, ← sound.represents.workers, here]
            exact List.mem_singleton_self addr
          obtain ⟨job, found⟩ := Option.isSome_iff_exists.mp
            ((sound.conserved.once (.worker w)).2 addr held)
          simp only [found, Option.bind_eq_bind, Option.bind_some]
          exact act_isSome few sound (by rfl) _
      | resolved addr => simp [stepped]
      | exited => exact absurd here running

/-- A loop thread, or the main thread in its place, can go on until its last call is over. -/
theorem loop_goes_on (few : nloops ≤ maxXsks) (sound : p.system.Sound pipe) {i : Fin nloops}
    (running : ¬ (p.stage i = .returned ∧ (p.system.loops i).pc.isIdle)) :
    (∃ chosen, (p.step backend (.signal i chosen)).isSome) ∨
      (∀ allocates, (p.step backend (.loop i allocates)).isSome) ∨
      ∀ leaves, (p.step backend (.turn i leaves)).isSome := by
  by_cases owes : i ∈ p.notEmpty.signalling
  · obtain ⟨chosen, next, signalled⟩ := CondVar.exists_signal owes
    exact Or.inl ⟨chosen, by simp [Process.step, signalled]⟩
  refine Or.inr ?_
  by_cases idle : (p.system.loops i).pc.isIdle
  · refine Or.inr fun leaves => ?_
    have acts : ∀ stage action, ((p.setStage i stage).act action).isSome :=
      fun stage action => act_isSome few sound (by rfl) action
    simp only [Process.step, idle, ↓reduceIte, turn]
    cases here : p.stage i with
    | poll | drainEventfd => rfl
    | returned => exact absurd ⟨here, idle⟩ running
    | _ => exact acts _ _
  · refine Or.inl fun allocates => ?_
    obtain ⟨s', _, stepped, _⟩ := sound.step few (.loop i allocates)
    simp [Process.step, idle, owes, Process.loop, stepped]

end

/-- No interleaving comes to a halt, reads memory that is not allocated or fails an assertion: a
worker that does not sleep can go on until it exits, a loop until its last call is over, and until
the main thread is done, some thread can go on. -/
theorem xdp_no_deadlock (few : nloops ≤ maxXsks) (moment : μ) {created : Fin nloops → Bool}
    {events : List (ProcessEvent μ nloops numWorkers)}
    (done : (Process.start nloops numWorkers created).bind
      (Schedule.run (Process.step backend) events) = some p) :
    (∀ w, p.system.workers w ≠ .exited → w ∉ p.notEmpty.waiting →
      (p.step backend (.notify w)).isSome ∨ (p.step backend (.worker w moment)).isSome) ∧
    (∀ i, ¬ (p.stage i = .returned ∧ (p.system.loops i).pc.isIdle) →
      (∃ chosen, (p.step backend (.signal i chosen)).isSome) ∨
        (∀ allocates, (p.step backend (.loop i allocates)).isSome) ∨
        ∀ leaves, (p.step backend (.turn i leaves)).isSome) ∧
    (p.main ≠ .finished → ∃ event, event.ofThread ∧ (p.step backend event).isSome) := by
  obtain ⟨⟨pipe, sound⟩, attentive⟩ :=
    run_moves few (fun _ _ _ => Attentive.step) (fun _ => Attentive.start) done
  refine ⟨fun w running awake => worker_goes_on few sound running awake moment,
    fun i running => loop_goes_on few sound running, fun running => ?_⟩
  have someLoop : ∀ i, ¬ (p.stage i = .returned ∧ (p.system.loops i).pc.isIdle) →
      ∃ event : ProcessEvent μ nloops numWorkers,
        event.ofThread ∧ (p.step backend event).isSome := by
    intro i busy
    rcases loop_goes_on few sound busy with ⟨chosen, goes⟩ | goes | goes
    · exact ⟨_, rfl, goes⟩
    · exact ⟨_, rfl, goes true⟩
    · exact ⟨_, rfl, goes true⟩
  have calling : ¬ AllIdle p.system → ∃ event : ProcessEvent μ nloops numWorkers,
      event.ofThread ∧ (p.step backend event).isSome := by
    intro busy
    obtain ⟨i, notIdle⟩ := not_forall.mp busy
    exact someLoop i fun ended => notIdle ended.2
  cases here : p.main with
  | joinLoops =>
      by_cases ended : ∀ i, p.stage i = .returned ∧ (p.system.loops i).pc.isIdle
      · refine ⟨.main, rfl, ?_⟩
        simp only [Process.step, runMain, here, ended, implies_true, and_self, ↓reduceIte]
        exact act_isSome few sound (by rfl) _
      · obtain ⟨i, busy⟩ := not_forall.mp ended
        exact someLoop i busy
  | broadcast => exact ⟨.main, rfl, by simp [Process.step, runMain, here]⟩
  | joinWorkers =>
      by_cases ended : ∀ w, (p.system.workers w).isExited
      · exact ⟨.main, rfl, by simp [Process.step, runMain, here, ended]⟩
      · obtain ⟨w, running⟩ := not_forall.mp ended
        have nobody : w ∉ p.notEmpty.waiting := by
          intro asleep
          have closed : p.system.pendingQ.shutdown = true := by
            rw [attentive.closed, here]
            rfl
          have owes := attentive.attended.announced closed ⟨w, asleep⟩
          cases here.symm.trans (attentive.broadcasting owes)
        have stays : p.system.workers w ≠ .exited := fun exited =>
          running (isExited_iff.mpr exited)
        rcases worker_goes_on few sound stays nobody moment with goes | goes
        · exact ⟨_, rfl, goes⟩
        · exact ⟨_, rfl, goes⟩
  | drain count =>
      by_cases idle : ∀ i, (p.system.loops i).pc.isIdle
      · refine ⟨.main, rfl, ?_⟩
        simp only [Process.step, runMain, here]
        rw [if_pos idle]
        split
        · exact act_isSome few sound (by rfl) _
        · rfl
      · exact calling idle
  | reclaim i =>
      by_cases idle : ∀ i, (p.system.loops i).pc.isIdle
      · refine ⟨.main, rfl, ?_⟩
        simp only [Process.step, runMain, here]
        rw [if_pos idle]
        exact act_isSome few sound (by rfl) _
      · exact calling idle
  | finished => exact absurd here running

theorem xdp_no_deadlock_example :
    ∃ p, (Process.start 1 1 fun _ => true).bind
        (Schedule.run (Process.step echoBackend) (queryAnswered 0 0)) = some p ∧
      ∃ event, event.ofThread ∧ (p.step echoBackend event).isSome := by
  have ran : ((Process.start 1 1 fun _ => true).bind
      (Schedule.run (Process.step echoBackend) (queryAnswered 0 0))).map
        (fun p => p.main.closed) = some false := by
    decide +kernel
  obtain ⟨p, done, here⟩ := Option.map_eq_some_iff.mp ran
  have running : p.main ≠ .finished := by
    intro finished
    rw [finished] at here
    cases here
  exact ⟨p, done, (xdp_no_deadlock (by decide) () done).2.2 running⟩

end FizzDns
