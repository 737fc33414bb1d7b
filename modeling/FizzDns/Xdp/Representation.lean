import FizzDns.Xdp.Pipeline
import FizzDns.Xdp.SocketStep

/-!
# The jobs of the threads

`Represents` relates the state of the threads to a pipeline: the queues hold its lists in
linked jobs, the local variables of the loops their batches, and the cells of the heap its jobs.
Each function of the threads that handles jobs has a lemma that takes it to a `PipeStep`. What
a function writes is confined to jobs in one or two places, and the custody of jobs
(`JobCustody.kept`) says that the other queues and lists do not notice.
-/

namespace FizzDns

/-- The rest of the drained list. -/
def LoopPc.list : LoopPc → Option Addr
  | .collect list _ => list
  | .send list _ _ => list
  | _ => none

/-- The batch as far as it is filled. -/
def LoopPc.batch : LoopPc → List Addr
  | .collect _ batch => batch
  | .send _ batch _ => batch
  | _ => []

/-- The jobs of the batch that will not be sent. -/
def LoopPc.refused : LoopPc → Nat
  | .send _ batch want => batch.length - want
  | _ => 0

/-- A loop has the given jobs in its done queue and in its hands. -/
structure LoopHolds (heap : Heap DnsJob) (lp : LoopCtx) (done batch : List Addr) (refused : Nat)
    (stats : XskStats) : Prop where
  done : lp.doneQ.Holds heap done
  unbounded : lp.doneQ.cap = 0
  running : lp.doneQ.shutdown = false
  batch : ∃ rest, batch = lp.pc.batch ++ rest ∧ Chain jobLink heap.cells lp.pc.list rest
  refused : refused = lp.pc.refused
  stats : stats = lp.xsk.stats

/-- The state of the threads is that of the pipeline. -/
structure Represents {nloops numWorkers : Nat} (s : System nloops numWorkers)
    (p : Pipeline nloops numWorkers) : Prop where
  pending : s.pendingQ.Holds s.heap p.pending
  capacity : s.pendingQ.cap = maxPending
  shutdown : s.pendingQ.shutdown = p.shutdown
  loops : ∀ i, LoopHolds s.heap (s.loops i) (p.done i) (p.batch i) (p.refused i) (p.stats i)
  workers : s.workers = p.workers
  jobs : ∀ addr, (s.heap.cells addr).map jobLink.body = p.jobs addr
  fresh : s.heap.fresh = p.created.length
  created : s.created = p.created
  sent : s.sent = p.sent
  resolvedOk : s.resolvedOk = p.resolvedOk
  resolvedDrop : s.resolvedDrop = p.resolvedDrop

section

variable {nloops numWorkers : Nat} {s s' : System nloops numWorkers}
  {p p' : Pipeline nloops numWorkers}

/-! ## Frames -/

section

variable {heap after : Heap DnsJob} {lp : LoopCtx} {done batch : List Addr} {refused : Nat}
  {stats : XskStats}

theorem LoopHolds.batch_frame (holds : LoopHolds heap lp done batch refused stats)
    (same : ∀ addr ∈ batch, after.cells addr = heap.cells addr) :
    ∃ rest, batch = lp.pc.batch ++ rest ∧ Chain jobLink after.cells lp.pc.list rest := by
  obtain ⟨rest, split, chain⟩ := holds.batch
  refine ⟨rest, split, chain.congr fun addr member => ?_⟩
  rw [same addr (split ▸ List.mem_append_right _ member)]

theorem LoopHolds.frame (holds : LoopHolds heap lp done batch refused stats)
    (sameDone : ∀ addr ∈ done, after.cells addr = heap.cells addr)
    (sameBatch : ∀ addr ∈ batch, after.cells addr = heap.cells addr) :
    LoopHolds after lp done batch refused stats :=
  { holds with done := holds.done.frame sameDone, batch := holds.batch_frame sameBatch }

end

/-- A job that is held is in the heap. -/
theorem Represents.live (represents : Represents s p) {addr : Addr} {body : DnsJob}
    (job : p.jobs addr = some body) :
    ∃ node, s.heap.cells addr = some node ∧ jobLink.body node = body := by
  rw [← represents.jobs addr] at job
  exact Option.map_eq_some_iff.mp job

theorem Represents.live_of_mem (represents : Represents s p) (custody : JobCustody p)
    (place : JobPlace nloops numWorkers) {addr : Addr} (member : addr ∈ p.held place) :
    ∃ node, s.heap.cells addr = some node ∧ p.jobs addr = some (jobLink.body node) := by
  obtain ⟨body, job⟩ := Option.isSome_iff_exists.mp (custody.live_of_mem place member)
  obtain ⟨node, found, same⟩ := represents.live job
  exact ⟨node, found, same ▸ job⟩

/-- A change to one loop's context, when the lists of the loop stay. -/
theorem LoopHolds.update {heap : Heap DnsJob} {loops : Fin nloops → LoopCtx} {lp : LoopCtx}
    {done batch : Fin nloops → List Addr} {refused : Fin nloops → Nat}
    {stats : Fin nloops → XskStats} (i : Fin nloops)
    (here : LoopHolds heap lp (done i) (batch i) (refused i) (stats i))
    (others : ∀ j, j ≠ i → LoopHolds heap (loops j) (done j) (batch j) (refused j) (stats j))
    (j : Fin nloops) :
    LoopHolds heap (Function.update loops i lp j) (done j) (batch j) (refused j) (stats j) := by
  by_cases same : j = i
  · subst same
    rw [Function.update_self]
    exact here
  · rw [Function.update_of_ne same]
    exact others j same

/-- Two points at which a loop thread has the same jobs. -/
def LoopPc.SameJobs (pc pc' : LoopPc) : Prop :=
  pc.list = pc'.list ∧ pc.batch = pc'.batch ∧ pc.refused = pc'.refused

/-- Work of a loop thread on its socket, or of the kernel, does not concern the jobs. -/
theorem Represents.setXsk (represents : Represents s p) (i : Fin nloops) {xsk : XskSocketInfo}
    {pc : LoopPc} (jobs : pc.SameJobs (s.loops i).pc) (stats : xsk.stats = (s.loops i).xsk.stats) :
    Represents (s.setXsk i xsk pc) p := by
  refine { represents with loops := LoopHolds.update i ?_ fun j _ => represents.loops j }
  have holds := represents.loops i
  obtain ⟨list, batch, refused⟩ := jobs
  refine ⟨holds.done, holds.unbounded, holds.running, ?_, ?_, ?_⟩
  · simp only [list, batch]
    exact holds.batch
  · rw [holds.refused, refused]
  · rw [holds.stats, stats]

/-- New counters of a loop. -/
theorem Represents.setStats (represents : Represents s p) (i : Fin nloops) (stats : XskStats) :
    Represents (s.setStats i stats) { p with stats := Function.update p.stats i stats } := by
  refine { represents with loops := LoopHolds.update i ?_ fun j away => ?_ }
  · have holds := represents.loops i
    refine ⟨holds.done, holds.unbounded, holds.running, holds.batch, holds.refused, ?_⟩
    exact Function.update_self ..
  · simp only [Function.update_of_ne away]
    exact represents.loops j

/-! ## Receiving -/

/-- The address of a new job is not in use. -/
theorem Represents.new_notMem (represents : Represents s p) (ok : PipeOk p)
    (place : JobPlace nloops numWorkers) : s.heap.fresh ∉ p.held place := by
  intro member
  have live := ok.custody.live_of_mem place member
  rw [represents.fresh, ok.records.fresh] at live
  cases live

/-- A new job goes to the end of the pending queue. -/
theorem Represents.accept (represents : Represents s p) (ok : PipeOk p) (i : Fin nloops)
    {job : DnsJob} (unlinked : job.next = none) (accepts : s.pendingQ.refuses = false) :
    ∃ pendingQ heap, queuePush s.pendingQ s.heap.fresh (s.heap.alloc job) =
        some (true, pendingQ, heap) ∧
      Represents { s with pendingQ := pendingQ, heap := heap, created := s.created ++ [(i, job)] }
        { p with
          pending := p.pending ++ [p.created.length]
          jobs := Function.update p.jobs p.created.length (some job)
          created := p.created ++ [(i, job)] } := by
  have new := represents.new_notMem ok
  have alloced : ∀ addr, addr ≠ s.heap.fresh →
      (s.heap.alloc job).cells addr = s.heap.cells addr := fun addr away =>
    Function.update_of_ne away _ _
  have holds : s.pendingQ.Holds (s.heap.alloc job) p.pending :=
    represents.pending.frame fun addr member =>
      alloced addr fun same => new .pending (same ▸ member)
  have live : (s.heap.alloc job).cells s.heap.fresh = some job := Function.update_self ..
  obtain ⟨pendingQ, heap, pushed, holds', relinked, cap, shutdown⟩ :=
    queuePush_holds holds live (new .pending) accepts
  refine ⟨pendingQ, heap, pushed, ?_⟩
  rw [← represents.fresh]
  -- the links of the pending jobs are all that the push writes
  have kept : ∀ place, place ≠ JobPlace.pending → ∀ addr ∈ p.held place,
      heap.cells addr = s.heap.cells addr := by
    intro place away addr member
    have notNew : addr ≠ s.heap.fresh := fun same => new place (same ▸ member)
    rw [relinked.others addr, alloced addr notNew]
    rintro touched
    rcases List.mem_cons.mp touched with same | pending
    · exact notNew same
    · exact away (ok.custody.unique member (show addr ∈ p.held .pending from pending))
  refine
    { represents with
      pending := holds'
      capacity := cap.trans represents.capacity
      shutdown := shutdown.trans represents.shutdown
      loops := fun j =>
        (represents.loops j).frame (kept (.done j) (by simp)) (kept (.batch j) (by simp))
      jobs := fun addr => ?_
      fresh := ?_
      created := congrArg (· ++ [(i, job)]) represents.created }
  · rw [relinked.bodies.2 addr]
    by_cases same : addr = s.heap.fresh
    · subst same
      simp only [live, Function.update_self, Option.map_some, jobLink, ← unlinked]
    · simp only [alloced addr same, Function.update_of_ne same]
      exact represents.jobs addr
  · rw [relinked.bodies.1, List.length_append, ← represents.fresh]
    rfl

/-- A new job that the pending queue refuses is freed. -/
theorem Represents.refuse (represents : Represents s p) (i : Fin nloops) (job : DnsJob) :
    ∃ heap, (s.heap.alloc job).free s.heap.fresh = some heap ∧
      Represents { s with heap := heap, created := s.created ++ [(i, job)] }
        { p with created := p.created ++ [(i, job)] } := by
  have live : (s.heap.alloc job).cells s.heap.fresh = some job := Function.update_self ..
  obtain ⟨heap, heapEq⟩ : ∃ heap,
    heap = (s.heap.alloc job).store s.heap.fresh none (Heap.lt_fresh live) := ⟨_, rfl⟩
  have cells : heap.cells = s.heap.cells := by
    rw [heapEq, Heap.store_cells, Heap.alloc_cells, Function.update_idem,
      ← s.heap.bounded s.heap.fresh (Nat.le_refl _), Function.update_eq_self]
  refine ⟨heap, heapEq ▸ Heap.free_of_live live, ?_⟩
  refine
    { represents with
      pending := represents.pending.frame fun addr _ => by rw [cells]
      loops := fun j =>
        (represents.loops j).frame (fun addr _ => by rw [cells]) fun addr _ => by rw [cells]
      jobs := fun addr => ?_
      fresh := ?_
      created := congrArg (· ++ [(i, job)]) represents.created }
  · rw [cells]
    exact represents.jobs addr
  · rw [heapEq, List.length_append, ← represents.fresh]
    rfl

/-- A queue that takes a job has room and is not shut down. -/
theorem JobQueue.refuses_eq_false {q : JobQueue} (accepts : q.refuses = false) :
    q.shutdown = false ∧ (q.cap ≠ 0 → q.count < q.cap) := by
  simpa [JobQueue.refuses] using accepts

/-- A packet is dropped, refused or accepted. -/
theorem System.rxJob_refines (represents : Represents s p) (ok : PipeOk p) (i : Fin nloops)
    (allocates : Bool) (packet : Bytes) :
    ∃ s' p' stats, s.rxJob i allocates packet = some s' ∧ PipeStep p p' ∧ Represents s' p' ∧
      s'.loops = Function.update s.loops i
        { s.loops i with xsk := { (s.loops i).xsk with stats := stats } } := by
  unfold System.rxJob
  obtain ⟨stats, received⟩ : ∃ stats, stats = (s.loops i).xsk.stats.received packet := ⟨_, rfl⟩
  have counted : StatsGrown (p.stats i) stats 1 0 0 0 0 0 := by
    rw [(represents.loops i).stats, received]
    constructor <;> rfl
  rw [← received]
  dsimp only
  split
  · have dropped :
        StatsGrown (p.stats i) { stats with rxDropped := stats.rxDropped + 1 } 1 1 0 0 0 0 :=
      { counted with rxDropped := congrArg (· + 1) counted.rxDropped }
    exact ⟨_, _, _, rfl, .dropPacket i dropped, represents.setStats i _, rfl⟩
  next job found =>
  have parsed : parseFrame packet i = some job := by
    cases allocates with
    | false => cases found
    | true => exact found
  cases accepts : s.pendingQ.refuses with
  | true =>
      obtain ⟨heap, freed, next⟩ := represents.refuse i job
      have full :
          StatsGrown (p.stats i) { stats with queueFull := stats.queueFull + 1 } 1 0 1 0 0 0 :=
        { counted with queueFull := congrArg (· + 1) counted.queueFull }
      refine ⟨_, _, _, ?_, .refuse i parsed full, next.setStats i _, rfl⟩
      simp only [queuePush, accepts, ↓reduceIte, Option.bind_eq_bind, Option.bind_some,
        Bool.false_eq_true, freed]
  | false =>
      obtain ⟨pendingQ, heap, pushed, next⟩ :=
        represents.accept ok i (parseFrame_some parsed).1 accepts
      obtain ⟨running, room⟩ := JobQueue.refuses_eq_false accepts
      rw [represents.shutdown] at running
      rw [represents.capacity, represents.pending.count_eq] at room
      refine ⟨_, _, _, ?_, .accept i parsed running (room (by decide)) counted,
        next.setStats i _, rfl⟩
      simp only [pushed, Option.bind_eq_bind, Option.bind_some, ↓reduceIte]

/-! ## Answering -/

/-- Jobs elsewhere are not concerned by what happens to those of one place. -/
theorem JobCustody.kept (custody : JobCustody p) {heap after : Heap DnsJob} {touched : List Addr}
    (here : JobPlace nloops numWorkers) (inside : ∀ addr ∈ touched, addr ∈ p.held here)
    (others : ∀ addr, addr ∉ touched → after.cells addr = heap.cells addr)
    (place : JobPlace nloops numWorkers) (away : place ≠ here) :
    ∀ addr ∈ p.held place, after.cells addr = heap.cells addr := fun addr member =>
  others addr fun touch => away (custody.unique member (inside addr touch))

/-- A worker takes the first pending job, or finds none. -/
theorem Represents.pop (represents : Represents s p) (ok : PipeOk p) :
    p.pending = [] ∧ queuePopWait s.pendingQ s.heap = some (none, s.pendingQ, s.heap) ∨
    ∃ addr rest pendingQ heap, p.pending = addr :: rest ∧
      queuePopWait s.pendingQ s.heap = some (some addr, pendingQ, heap) ∧
      Represents { s with heap := heap, pendingQ := pendingQ } { p with pending := rest } := by
  rcases queuePopWait_holds represents.pending with
    empty | ⟨addr, rest, pendingQ, heap, first, popped, holds, relinked, cap, shutdown⟩
  · exact Or.inl empty
  refine Or.inr ⟨addr, rest, pendingQ, heap, first, popped, ?_⟩
  have kept := ok.custody.kept .pending
    (fun other member => by
      rw [List.mem_singleton.mp member, Pipeline.held, first]
      exact List.mem_cons_self) relinked.others
  exact
    { represents with
      pending := holds
      capacity := cap.trans represents.capacity
      shutdown := shutdown.trans represents.shutdown
      loops := fun j =>
        (represents.loops j).frame (kept (.done j) (by simp)) (kept (.batch j) (by simp))
      jobs := fun other => (relinked.bodies.2 other).trans (represents.jobs other)
      fresh := relinked.bodies.1.trans represents.fresh }

/-- A worker writes or frees its job. -/
theorem Represents.store (represents : Represents s p) (ok : PipeOk p) {w : Fin numWorkers}
    {addr : Addr} (has : addr ∈ (p.workers w).job) (content : Option DnsJob)
    (below : addr < s.heap.fresh) :
    Represents { s with heap := s.heap.store addr content below }
      { p with jobs := Function.update p.jobs addr (content.map jobLink.body) } := by
  have others : ∀ other, other ∉ [addr] →
      (s.heap.store addr content below).cells other = s.heap.cells other := fun other away =>
    Function.update_of_ne (List.ne_of_not_mem_cons away) _ _
  have kept := ok.custody.kept (.worker w)
    (fun other member => by
      rw [List.mem_singleton.mp member]
      exact has) others
  refine
    { represents with
      pending := represents.pending.frame (kept .pending (by simp))
      loops := fun j =>
        (represents.loops j).frame (kept (.done j) (by simp)) (kept (.batch j) (by simp))
      jobs := fun other => ?_ }
  by_cases same : other = addr
  · subst same
    simp only [Heap.store_cells, Function.update_self]
  · simp only [Heap.store_cells, Function.update_of_ne same]
    exact represents.jobs other

/-- A worker turns to something else. -/
theorem Represents.setWorker (represents : Represents s p) (w : Fin numWorkers) (pc : WorkerPc) :
    Represents { s with workers := Function.update s.workers w pc }
      { p with workers := Function.update p.workers w pc } :=
  { represents with workers := congrArg (Function.update · w pc) represents.workers }

/-- A worker hands its job to the loop it came from. -/
theorem Represents.give (represents : Represents s p) (ok : PipeOk p) {w : Fin numWorkers}
    {addr : Addr} (has : addr ∈ (p.workers w).job) (i : Fin nloops) :
    ∃ doneQ heap, queuePush (s.loops i).doneQ addr s.heap = some (true, doneQ, heap) ∧
      Represents ({ s with heap := heap }.setLoop i { s.loops i with doneQ := doneQ })
        { p with done := Function.update p.done i (p.done i ++ [addr]) } := by
  have holds := represents.loops i
  obtain ⟨node, live, _⟩ := represents.live_of_mem ok.custody (.worker w) has
  have held : addr ∈ p.held (.worker w) := has
  have apart : addr ∉ p.held (.done i) := by
    intro member
    cases ok.custody.unique held member
  have accepts : (s.loops i).doneQ.refuses = false := by
    simp [JobQueue.refuses, holds.running, holds.unbounded]
  obtain ⟨doneQ, heap, pushed, holds', relinked, cap, shutdown⟩ :=
    queuePush_holds holds.done live apart accepts
  refine ⟨doneQ, heap, pushed, ?_⟩
  have kept : ∀ place, place ≠ JobPlace.worker w → place ≠ JobPlace.done i →
      ∀ other ∈ p.held place, heap.cells other = s.heap.cells other := by
    intro place notWorker notDone other member
    apply relinked.others
    intro touched
    rcases List.mem_cons.mp touched with same | done
    · exact notWorker (ok.custody.unique (same ▸ member) held)
    · exact notDone (ok.custody.unique member (show other ∈ p.held (.done i) from done))
  refine
    { represents with
      pending := represents.pending.frame (kept .pending (by simp) (by simp))
      loops := LoopHolds.update i ?_ fun j away => ?_
      jobs := fun other => (relinked.bodies.2 other).trans (represents.jobs other)
      fresh := relinked.bodies.1.trans represents.fresh }
  · refine ⟨?_, cap.trans holds.unbounded, shutdown.trans holds.running,
      holds.batch_frame (kept (.batch i) (by simp) (by simp)), holds.refused, holds.stats⟩
    simp only [Function.update_self]
    exact holds'
  · simp only [Function.update_of_ne away]
    refine (represents.loops j).frame (kept (.done j) (by simp) ?_)
      (kept (.batch j) (by simp) (by simp))
    exact fun same => away (JobPlace.done.inj same)

/-- What a worker does is a step of the pipeline, and it leaves the sockets alone. -/
theorem System.workerStep_refines (represents : Represents s p) (ok : PipeOk p)
    (few : nloops ≤ maxXsks) (w : Fin numWorkers) (answer : Answer) :
    ∃ s' p', s.workerStep w answer = some s' ∧ PipeStep p p' ∧ Represents s' p' ∧
      ∀ j, (s'.loops j).xsk = (s.loops j).xsk ∧ (s'.loops j).pc = (s.loops j).pc := by
  have workers := represents.workers
  unfold System.workerStep
  cases pc : s.workers w with
  | waiting =>
      have waiting : p.workers w = .waiting := workers ▸ pc
      rcases represents.pop ok with
        ⟨empty, popped⟩ | ⟨addr, rest, pendingQ, heap, first, popped, next⟩
      · simp only [popped, Option.bind_eq_bind, Option.bind_some]
        cases closed : s.pendingQ.shutdown with
        | false => exact ⟨_, _, rfl, .quiet, represents, fun _ => ⟨rfl, rfl⟩⟩
        | true =>
            exact ⟨_, _, rfl, .exit w waiting empty (represents.shutdown ▸ closed),
              represents.setWorker w .exited, fun _ => ⟨rfl, rfl⟩⟩
      · simp only [popped, Option.bind_eq_bind, Option.bind_some]
        exact ⟨_, _, rfl, .pop w waiting first, next.setWorker w (.resolving addr),
          fun _ => ⟨rfl, rfl⟩⟩
  | resolving addr =>
      have has : p.workers w = .resolving addr := workers ▸ pc
      have member : addr ∈ (p.workers w).job := by simp [has, WorkerPc.job]
      obtain ⟨node, live, job⟩ := represents.live_of_mem ok.custody (.worker w) member
      have drops : ∃ s' p', s.dropJob w addr = some s' ∧ PipeStep p p' ∧ Represents s' p' ∧
          ∀ j, (s'.loops j).xsk = (s.loops j).xsk ∧ (s'.loops j).pc = (s.loops j).pc := by
        have next := (represents.store ok member none (Heap.lt_fresh live)).setWorker w .waiting
        simp only [System.dropJob, Heap.free_of_live live, Option.bind_eq_bind, Option.bind_some]
        exact ⟨_, _, rfl, .drop w has,
          { next with resolvedDrop := congrArg (· + 1) represents.resolvedDrop },
          fun _ => ⟨rfl, rfl⟩⟩
      cases answer with
      | none => exact drops
      | some reply =>
          dsimp only
          split
          · exact drops
          next nonempty =>
          have next := (represents.store ok member (some { node with resp := reply.val })
            (Heap.lt_fresh live)).setWorker w (.resolved addr)
          simp only [System.answerJob, Heap.modify_of_live live, Option.bind_eq_bind,
            Option.bind_some]
          exact ⟨_, _, rfl, .answer w has job (Nat.pos_of_ne_zero nonempty) reply.property,
            { next with resolvedOk := congrArg (· + 1) represents.resolvedOk },
            fun _ => ⟨rfl, rfl⟩⟩
  | resolved addr =>
      have has : p.workers w = .resolved addr := workers ▸ pc
      have member : addr ∈ (p.workers w).job := by simp [has, WorkerPc.job]
      obtain ⟨node, live, job⟩ := represents.live_of_mem ok.custody (.worker w) member
      obtain ⟨entry, _, home⟩ := ok.records.home few job
      obtain ⟨doneQ, heap, pushed, next⟩ := represents.give ok member entry.1
      have inside : node.loopIdx.toNat < nloops := by
        rw [show node.loopIdx.toNat = entry.1 from home]
        exact entry.1.isLt
      have same : (⟨node.loopIdx.toNat, inside⟩ : Fin nloops) = entry.1 := Fin.ext home
      simp only [System.returnJob, Heap.read, live, Option.bind_eq_bind, Option.bind_some, inside,
        ↓reduceDIte, same, pushed, ↓reduceIte]
      refine ⟨_, _, rfl, .give w has job home, next.setWorker w .waiting, fun j => ?_⟩
      by_cases here : j = entry.1
      · subst here
        simp [System.setLoop]
      · simp [System.setLoop, Function.update_of_ne here]
  | exited => exact ⟨_, _, rfl, .quiet, represents, fun _ => ⟨rfl, rfl⟩⟩

/-! ## Transmitting -/

/-- The done queue of a loop becomes its list. -/
theorem Represents.drain (represents : Represents s p) {i : Fin nloops}
    (idle : (s.loops i).pc = .idle) :
    p.batch i = [] ∧ Represents (s.drainDoneAndTx i)
      { p with
        batch := Function.update p.batch i (p.done i)
        done := Function.update p.done i [] } := by
  have holds := represents.loops i
  obtain ⟨chain, emptied⟩ := queueDrain_holds holds.done
  obtain ⟨rest, split, ended⟩ := holds.batch
  rw [idle] at split ended
  constructor
  · cases rest with
    | nil => exact split
    | cons addr rest => cases ended.1
  refine { represents with loops := LoopHolds.update i ?_ fun j away => ?_ }
  · refine ⟨?_, holds.unbounded, holds.running, ⟨p.done i, ?_, chain⟩, ?_, holds.stats⟩
    · simp only [Function.update_self]
      exact emptied
    · simp only [Function.update_self]
      rfl
    · rw [holds.refused, idle]
      rfl
  · simp only [Function.update_of_ne away]
    exact represents.loops j

/-- What can be sent of a batch is found out. -/
theorem System.chooseWant_refines (represents : Represents s p) {i : Fin nloops}
    {list : Option Addr} {batch : List Addr} (pc : (s.loops i).pc = .collect list batch) :
    ∃ p' stats want, PipeStep p p' ∧ Represents (s.chooseWant i list batch) p' ∧
      want ≤ ((s.loops i).xsk.tx.nbFree batch.length).cachedFree ∧
      want ≤ (s.loops i).xsk.umemFrameAddr.length ∧ want ≤ batch.length ∧
      (s.chooseWant i list batch).loops = Function.update s.loops i
        { s.loops i with
          xsk := { (s.loops i).xsk with
            tx := (s.loops i).xsk.tx.nbFree batch.length, stats := stats }
          pc := .send list batch want } := by
  have holds := represents.loops i
  obtain ⟨rest, split, chain⟩ := holds.batch
  have none := holds.refused
  rw [pc] at split chain none
  unfold System.chooseWant
  dsimp only
  obtain ⟨noSlot, noSlotEq⟩ : ∃ noSlot, noSlot =
    batch.length - ((s.loops i).xsk.tx.nbFree batch.length).cachedFree := ⟨_, rfl⟩
  obtain ⟨noFrame, noFrameEq⟩ : ∃ noFrame, noFrame =
    batch.length - noSlot - (s.loops i).xsk.umemFrameAddr.length := ⟨_, rfl⟩
  rw [← noSlotEq, ← noFrameEq]
  have within : noSlot + noFrame ≤ batch.length := by omega
  have counted : StatsGrown (p.stats i)
      { (s.loops i).xsk.stats with
        txNoSlot := (s.loops i).xsk.stats.txNoSlot + noSlot
        txNoFrame := (s.loops i).xsk.stats.txNoFrame + noFrame } 0 0 0 0 noSlot noFrame := by
    rw [holds.stats]
    constructor <;> rfl
  refine ⟨_, _, _, .choose i none ?_ counted, ?_, ?_, ?_, ?_, rfl⟩
  · rw [split, List.length_append]
    exact Nat.le_add_right_of_le within
  · refine { represents with loops := LoopHolds.update i ?_ fun j away => ?_ }
    · refine ⟨holds.done, holds.unbounded, holds.running, ⟨rest, split, chain⟩, ?_, ?_⟩
      · simp only [Function.update_self, LoopPc.refused]
        omega
      · simp only [Function.update_self]
    · simp only [Function.update_of_ne away]
      exact represents.loops j
  all_goals omega

/-- A loop thread fills its batch. Every job in its list has a response that fits. -/
theorem System.collect_refines (represents : Represents s p) (ok : PipeOk p) {i : Fin nloops}
    {list : Option Addr} {batch : List Addr} (pc : (s.loops i).pc = .collect list batch) :
    ∃ s' p' xsk' pc', s.collect i list batch = some s' ∧ PipeStep p p' ∧ Represents s' p' ∧
      s'.loops = Function.update s.loops i { s.loops i with xsk := xsk', pc := pc' } ∧
      SocketStep (s.loops i).xsk (.collect list batch) 0 [] xsk' pc' := by
  have holds := represents.loops i
  obtain ⟨rest, split, chain⟩ := holds.batch
  rw [pc] at split chain
  have chooses : ∃ s' p' xsk' pc', some (s.chooseWant i list batch) = some s' ∧ PipeStep p p' ∧
      Represents s' p' ∧
      s'.loops = Function.update s.loops i { s.loops i with xsk := xsk', pc := pc' } ∧
      SocketStep (s.loops i).xsk (.collect list batch) 0 [] xsk' pc' := by
    obtain ⟨p', stats, want, step, next, slots, enough, within, loops⟩ :=
      System.chooseWant_refines represents pc
    exact ⟨_, p', _, _, rfl, step, next, loops, .chooseWant stats want slots enough within⟩
  unfold System.collect
  cases list with
  | none =>
      dsimp only
      by_cases nothing : batch.isEmpty
      · rw [List.isEmpty_iff] at nothing
        subst nothing
        refine ⟨_, p, _, _, rfl, .quiet, represents.setXsk i ?_ rfl, rfl, .drained⟩
        rw [pc]
        exact ⟨rfl, rfl, rfl⟩
      · rw [if_neg nothing]
        exact chooses
  | some addr =>
      dsimp only
      by_cases room : batch.length < txBatchSize
      · rw [if_pos room]
        cases rest with
        | nil => cases chain
        | cons first rest =>
            obtain ⟨same, node, live, chain⟩ := chain
            cases same
            have member : addr ∈ p.batch i := by
              rw [split]
              exact List.mem_append_right _ List.mem_cons_self
            have job : p.jobs addr = some (jobLink.body node) := by
              rw [← represents.jobs addr, live, Option.map_some]
            obtain ⟨nonempty, fits⟩ := ok.records.answered addr _ job (.inl ⟨i, .inr member⟩)
            have good : ¬(node.resp.length = 0 ∨ node.resp.length > dnsMaxMsgLen) := by
              rintro (empty | long)
              · exact Nat.ne_of_gt nonempty empty
              · exact Nat.not_lt.mpr fits long
            simp only [Heap.read, live, Option.bind_eq_bind, Option.bind_some, if_neg good]
            refine ⟨_, p, _, _, rfl, .quiet, ?_, rfl, .collect _ _⟩
            refine { represents with loops := LoopHolds.update i ?_ fun j _ => represents.loops j }
            refine ⟨holds.done, holds.unbounded, holds.running, ⟨rest, ?_, chain⟩, ?_, holds.stats⟩
            · rw [split]
              exact List.append_cons _ _ _
            · rw [holds.refused, pc]
              rfl
      · rw [if_neg room]
        exact chooses

/-- Jobs that are in the heap can be read. -/
theorem System.readAll_of_live {heap : Heap DnsJob} {addrs : List Addr}
    (live : ∀ addr ∈ addrs, ∃ node, heap.cells addr = some node) :
    ∃ jobs, System.readAll addrs heap = some jobs ∧
      List.Forall₂ (fun addr job => heap.cells addr = some job) addrs jobs := by
  induction addrs with
  | nil => exact ⟨[], rfl, .nil⟩
  | cons addr rest ih =>
      obtain ⟨node, found⟩ := live addr List.mem_cons_self
      obtain ⟨jobs, read, all⟩ := ih fun other member => live other (List.mem_cons_of_mem _ member)
      refine ⟨node :: jobs, ?_, .cons found all⟩
      simp only [System.readAll, Heap.read, found, read, Option.bind_eq_bind, Option.bind_some]

/-- Jobs that are in the heap can be freed. -/
theorem System.freeAll_of_live {heap : Heap DnsJob} {addrs : List Addr} (nodup : addrs.Nodup)
    (live : ∀ addr ∈ addrs, ∃ node, heap.cells addr = some node) :
    ∃ after, System.freeAll addrs heap = some after ∧ after.fresh = heap.fresh ∧
      ∀ addr, after.cells addr = if addr ∈ addrs then none else heap.cells addr := by
  induction addrs generalizing heap with
  | nil => exact ⟨heap, rfl, rfl, fun _ => rfl⟩
  | cons addr rest ih =>
      obtain ⟨node, found⟩ := live addr List.mem_cons_self
      obtain ⟨apart, nodup⟩ := List.nodup_cons.mp nodup
      obtain ⟨after, freed, fresh, cells⟩ := @ih (heap.store addr none (Heap.lt_fresh found)) nodup
        (by
          intro other member
          have differ : other ≠ addr := fun same => apart (same ▸ member)
          rw [Heap.store_cells, Function.update_of_ne differ]
          exact live other (List.mem_cons_of_mem _ member))
      refine ⟨after, ?_, fresh, fun other => ?_⟩
      · simp only [System.freeAll, Heap.free_of_live found, Option.bind_eq_bind, Option.bind_some,
          freed]
      · rw [cells other, Heap.store_cells]
        by_cases same : other = addr <;> simp [Function.update, same]

/-- The frames that are sent are the responses to the jobs. -/
theorem Represents.built (represents : Represents s p) {addrs : List Addr} {jobs : List DnsJob}
    (frames : List UInt64) (count : frames.length = jobs.length)
    (read : List.Forall₂ (fun addr job => s.heap.cells addr = some job) addrs jobs) :
    List.Forall₂ (fun addr desc => ∃ job, p.jobs addr = some job ∧
        desc.packet = buildResponseFrame job) addrs
      (List.zipWith (fun frame job => (⟨frame, buildResponseFrame job⟩ : XdpDesc)) frames
        jobs) := by
  induction read generalizing frames with
  | nil =>
      rw [List.zipWith_nil_right]
      exact .nil
  | @cons addr job addrs jobs found _ ih =>
      cases frames with
      | nil => cases count
      | cons frame frames =>
          refine .cons ⟨jobLink.body job, ?_, rfl⟩ (ih frames (Nat.succ.inj count))
          rw [← represents.jobs addr, found, Option.map_some]

/-- The jobs of a batch are the first in the hands of its loop; all of them are in the heap. -/
theorem Represents.sending (represents : Represents s p) (ok : PipeOk p) {i : Fin nloops}
    {list : Option Addr} {batch : List Addr} {want : Nat}
    (pc : (s.loops i).pc = .send list batch want) :
    ∃ rest, p.batch i = batch ++ rest ∧ Chain jobLink s.heap.cells list rest ∧
      p.refused i = batch.length - want ∧ (batch ++ rest).Nodup ∧
      (∀ addr ∈ batch, addr ∈ p.held (.batch i)) ∧
      ∀ addr ∈ batch, ∃ node, s.heap.cells addr = some node := by
  have holds := represents.loops i
  obtain ⟨rest, split, chain⟩ := holds.batch
  have refused := holds.refused
  rw [pc] at split chain refused
  have nodup := ok.custody.nodup (.batch i)
  rw [Pipeline.held, split] at nodup
  have inside : ∀ addr ∈ batch, addr ∈ p.held (.batch i) := by
    intro addr member
    rw [Pipeline.held, split]
    exact List.mem_append_left _ member
  refine ⟨rest, split, chain, refused, nodup, inside, fun addr member => ?_⟩
  obtain ⟨node, found, _⟩ := represents.live_of_mem ok.custody _ (inside addr member)
  exact ⟨node, found⟩

/-- A batch is done with: its first jobs are transmitted, and all are freed. -/
theorem Represents.finish (represents : Represents s p) (ok : PipeOk p) {i : Fin nloops}
    {list : Option Addr} {batch : List Addr} {want : Nat}
    (pc : (s.loops i).pc = .send list batch want) (within : want ≤ batch.length)
    (xsk : XskSocketInfo) {descs : List XdpDesc} (count : descs.length = want)
    (built : List.Forall₂ (fun addr desc => ∃ job, p.jobs addr = some job ∧
      desc.packet = buildResponseFrame job) (batch.take want) descs)
    (counted : StatsGrown (p.stats i) xsk.stats 0 0 0 want 0 0)
    {heap : Heap DnsJob} (freed : System.freeAll batch s.heap = some heap) :
    ∃ p', PipeStep p p' ∧
      Represents
        { s with
          heap := heap
          sent := s.sent ++ (List.zip batch descs).map (Prod.mk i)
          loops := Function.update s.loops i
            { s.loops i with xsk := xsk, pc := .collect list [] } } p' := by
  have holds := represents.loops i
  obtain ⟨rest, split, chain, refused, nodup, inside, live⟩ := represents.sending ok pc
  subst count
  refine ⟨_, .finish i split (by omega) built counted, ?_⟩
  obtain ⟨after, freed', fresh, cells⟩ :=
    System.freeAll_of_live (List.nodup_append.mp nodup).1 live
  rw [freed] at freed'
  cases freed'
  have others : ∀ addr, addr ∉ batch → heap.cells addr = s.heap.cells addr := fun addr away => by
    rw [cells, if_neg away]
  have kept := ok.custody.kept (.batch i) inside others
  refine
    { represents with
      pending := represents.pending.frame (kept .pending (by simp))
      loops := LoopHolds.update i ?_ fun j away => ?_
      jobs := fun addr => ?_
      fresh := fresh.trans represents.fresh
      sent := congrArg (· ++ _) represents.sent }
  · refine ⟨holds.done.frame (kept (.done i) (by simp)), holds.unbounded, holds.running,
      ⟨rest, ?_, ?_⟩, ?_, ?_⟩
    · simp only [Function.update_self]
      rfl
    · refine chain.congr fun addr member => ?_
      rw [others addr fun also => (List.nodup_append.mp nodup).2.2 addr also addr member rfl]
    · simp only [Function.update_self]
      rfl
    · simp only [Function.update_self]
  · simp only [Function.update_of_ne away]
    refine (represents.loops j).frame (kept (.done j) (by simp)) (kept (.batch j) ?_)
    exact fun same => away (JobPlace.batch.inj same)
  · simp only [cells]
    split
    · rfl
    · exact represents.jobs addr

/-- A batch is transmitted as far as it was found possible, and freed. -/
theorem System.sendBatch_refines (represents : Represents s p) (ok : PipeOk p) {i : Fin nloops}
    {list : Option Addr} {batch : List Addr} {want : Nat}
    (pc : (s.loops i).pc = .send list batch want)
    (frames : FramesOk (s.loops i).xsk (.send list batch want)) :
    ∃ s' p' xsk' pc' descs, s.sendBatch i list batch want = some s' ∧ PipeStep p p' ∧
      Represents s' p' ∧
      s'.loops = Function.update s.loops i { s.loops i with xsk := xsk', pc := pc' } ∧
      SocketStep (s.loops i).xsk (.send list batch want) 0 descs xsk' pc' ∧
      ∀ desc ∈ descs, ∃ addr, (i, addr, desc) ∈ s'.sent := by
  have holds := represents.loops i
  have within : want ≤ batch.length := frames.ready.2.2
  obtain ⟨rest, _, _, _, nodup, _, live⟩ := represents.sending ok pc
  obtain ⟨jobs, read, jobsOf⟩ := System.readAll_of_live fun addr member =>
    live addr (List.mem_of_mem_take (i := want) member)
  obtain ⟨heap, freed, _⟩ := System.freeAll_of_live (List.nodup_append.mp nodup).1 live
  unfold System.sendBatch
  simp only [read, Option.bind_eq_bind, Option.bind_some]
  by_cases nothing : want = 0
  · subst nothing
    have counted : StatsGrown (p.stats i) (s.loops i).xsk.stats 0 0 0 0 0 0 := by
      rw [holds.stats]
      constructor <;> rfl
    obtain ⟨p', step, next⟩ := represents.finish ok pc within _ rfl .nil counted freed
    simp only [List.zip_nil_right, List.map_nil, List.append_nil] at next
    simp only [↓reduceIte, freed, Option.bind_some]
    exact ⟨_, p', _, _, [], rfl, step, next, rfl, .sendNone, nofun⟩
  · have jobsCount : jobs.length = want := by
      rw [← jobsOf.length_eq, List.length_take_of_le within]
    obtain ⟨descs, tx, alloc, descsEq, count, produced, _⟩ := frames.transmit jobsCount
    have built := represents.built ((s.loops i).xsk.umemFrameAddr.take want)
      (by rw [List.length_take_of_le frames.ready.1, jobsCount]) jobsOf
    rw [descsEq] at built
    have counted :
        StatsGrown (p.stats i) ((s.loops i).xsk.stats.transmitted want descs) 0 0 0 want 0 0 := by
      rw [holds.stats]
      constructor <;> rfl
    have inBatch : ∀ desc ∈ descs, ∃ addr, (i, addr, desc) ∈
        s.sent ++ (List.zip batch descs).map (Prod.mk i) := by
      intro desc member
      have all : (List.zip batch descs).map Prod.snd = descs := List.map_snd_zip (by omega)
      rw [← all] at member
      obtain ⟨⟨addr, _⟩, pair, rfl⟩ := List.mem_map.mp member
      exact ⟨addr, List.mem_append_right _ (List.mem_map.mpr ⟨_, pair, rfl⟩)⟩
    obtain ⟨p', step, next⟩ := represents.finish ok pc within
      { (s.loops i).xsk with
        tx := tx
        umemFrameAddr := (s.loops i).xsk.umemFrameAddr.drop want
        outstandingTx := (s.loops i).xsk.outstandingTx + want
        stats := (s.loops i).xsk.stats.transmitted want descs } count built counted freed
    simp only [if_neg nothing, System.transmit, alloc, descsEq, produced, System.setXsk,
      System.setLoop, freed, Option.bind_some, Function.update_self, Function.update_idem]
    exact ⟨_, p', _, _, descs, rfl, step, next, rfl,
      .transmit _ jobs descs jobsCount descsEq produced, inBatch⟩

end

end FizzDns
