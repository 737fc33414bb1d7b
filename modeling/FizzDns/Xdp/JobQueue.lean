import FizzDns.Foundation.LinkedList
import FizzDns.Xdp.Frame

/-!
# Job queues

`struct job_queue`: jobs linked through their `next` fields, with a head, a tail and a count.
Each operation holds the queue's mutex from its first access to its last and is one step here;
the wakeups it sends are left out, since a waiting thread may look at the queue at any time.

`JobQueue.Holds` says that a queue holds a given list of jobs. Every operation has one lemma
that gives the list it leaves, and changes no more than the links of the jobs it handles
(`Relinked`), so that what is known about other queues and threads stays true.
-/

namespace FizzDns

/-- Jobs are chained through `next`. -/
def jobLink : CLink DnsJob DnsJob where
  link := DnsJob.next
  setLink target job := { job with next := target }
  body job := { job with next := none }
  link_setLink _ _ := rfl
  body_setLink _ _ := rfl

/-- `struct job_queue` without its lock and wakeups. `pushed` and `popped` record the jobs that
went through the queue; no operation reads them. -/
structure JobQueue where
  head : Option Addr
  tail : Option Addr
  count : Nat
  cap : Nat
  shutdown : Bool
  pushed : List Addr
  popped : List Addr

/-- `queue_init`. -/
def queueInit (cap : Nat) : JobQueue :=
  ⟨none, none, 0, cap, false, [], []⟩

namespace JobQueue

/-- A push is refused: the queue is shut down or at its capacity. -/
def refuses (q : JobQueue) : Bool :=
  q.shutdown || (decide (q.cap ≠ 0) && decide (q.count ≥ q.cap))

/-- The queue with a job behind its last one. -/
def append (q : JobQueue) (head : Option Addr) (job : Addr) : JobQueue :=
  { q with head := head, tail := some job, count := q.count + 1, pushed := q.pushed ++ [job] }

/-- The queue without its first job. -/
def behind (q : JobQueue) (job : Addr) (next : Option Addr) : JobQueue :=
  { q with
    head := next
    tail := if next = none then none else q.tail
    count := q.count - 1
    popped := q.popped ++ [job] }

end JobQueue

/-- `queue_push`: whether the job was taken. -/
def queuePush (q : JobQueue) (job : Addr) (heap : Heap DnsJob) :
    Option (Bool × JobQueue × Heap DnsJob) :=
  if q.refuses then some (false, q, heap)
  else do
    let heap ← heap.modify job (jobLink.setLink none)
    let (head, heap) ← match q.tail with
      | some last => do
          let heap ← heap.modify last (jobLink.setLink (some job))
          some (q.head, heap)
      | none => some (some job, heap)
    some (true, q.append head job, heap)

/-- `queue_pop_wait` behind its wait: the first job, or `none` if there is none. -/
def queuePopWait (q : JobQueue) (heap : Heap DnsJob) :
    Option (Option Addr × JobQueue × Heap DnsJob) :=
  match q.head with
  | none => some (none, q, heap)
  | some job => do
      let node ← heap.read job
      let heap ← heap.modify job (jobLink.setLink none)
      some (some job, q.behind job node.next, heap)

/-- `queue_drain`: the whole list, which is detached. -/
def queueDrain (q : JobQueue) : Option Addr × JobQueue :=
  (q.head, { q with head := none, tail := none, count := 0, popped := q.pushed })

/-- `queue_shutdown`. -/
def queueShutdown (q : JobQueue) : JobQueue :=
  { q with shutdown := true }

/-! ## What a queue holds -/

/-- A queue holds a list of jobs: they are linked in this order, the tail is the last and the
count their number, and they are the jobs pushed and not yet popped, in the order they came. -/
structure JobQueue.Holds (q : JobQueue) (heap : Heap DnsJob) (jobs : List Addr) : Prop where
  nodup : jobs.Nodup
  chain : Chain jobLink heap.cells q.head jobs
  tail_eq : q.tail = jobs.getLast?
  count_eq : q.count = jobs.length
  fifo : q.pushed = q.popped ++ jobs

/-- The heap is changed in the links of some jobs only. -/
structure Relinked (touched : List Addr) (before after : Heap DnsJob) : Prop where
  bodies : Chain.SameBodies jobLink after before
  others : ∀ address, address ∉ touched → after.cells address = before.cells address

section

variable {q : JobQueue} {heap after : Heap DnsJob} {jobs touched : List Addr} {job : Addr}

/-- One job is linked to another target. -/
theorem Relinked.store {node : DnsJob} (live : heap.cells job = some node) (target : Option Addr) :
    Relinked [job] heap
      (heap.store job (some (jobLink.setLink target node)) (Heap.lt_fresh live)) := by
  refine ⟨Chain.sameBodies_store live (jobLink.body_setLink _ _), fun address away => ?_⟩
  rw [Heap.store_cells, Function.update_of_ne (by simpa using away)]

theorem Relinked.trans {middle : Heap DnsJob} {first second : List Addr}
    (left : Relinked first heap middle) (right : Relinked second middle after)
    (inFirst : first ⊆ touched) (inSecond : second ⊆ touched) : Relinked touched heap after := by
  refine ⟨right.bodies.trans left.bodies, fun address away => ?_⟩
  rw [right.others address fun member => away (inSecond member),
    left.others address fun member => away (inFirst member)]

theorem Relinked.chain {start : Option Addr} (relinked : Relinked touched heap after)
    (chain : Chain jobLink heap.cells start jobs) (apart : ∀ address ∈ jobs, address ∉ touched) :
    Chain jobLink after.cells start jobs := by
  refine chain.congr fun address member => ?_
  rw [relinked.others address (apart address member)]

/-- The cells of the jobs in a queue are all that it depends on. -/
theorem JobQueue.Holds.frame (holds : q.Holds heap jobs)
    (same : ∀ address ∈ jobs, after.cells address = heap.cells address) : q.Holds after jobs :=
  { holds with chain := holds.chain.congr fun address member => by rw [same address member] }

theorem queueInit_holds (cap : Nat) (heap : Heap DnsJob) : (queueInit cap).Holds heap [] :=
  ⟨List.nodup_nil, rfl, rfl, rfl, rfl⟩

/-- A job that is pushed comes last. -/
theorem queuePush_holds (holds : q.Holds heap jobs) {node : DnsJob}
    (live : heap.cells job = some node) (apart : job ∉ jobs) (accepts : q.refuses = false) :
    ∃ pushed after, queuePush q job heap = some (true, pushed, after) ∧
      pushed.Holds after (jobs ++ [job]) ∧ Relinked (job :: jobs) heap after ∧
      pushed.cap = q.cap ∧ pushed.shutdown = q.shutdown := by
  have nodup : (jobs ++ [job]).Nodup := by
    simpa [List.nodup_append] using ⟨holds.nodup, fun a member same => apart (same ▸ member)⟩
  have unlinked := Relinked.store live none
  have alone : Chain jobLink (heap.store job (some (jobLink.setLink none node))
      (Heap.lt_fresh live)).cells (some job) [job] :=
    ⟨rfl, _, Function.update_self .., rfl⟩
  rcases List.eq_nil_or_concat jobs with rfl | ⟨front, last, rfl⟩
  · have tail : q.tail = none := holds.tail_eq
    refine ⟨q.append (some job) job, _, ?_, ⟨nodup, alone, rfl, ?_, ?_⟩, unlinked, rfl, rfl⟩
    · simp only [queuePush, accepts, Bool.false_eq_true, ↓reduceIte, Heap.modify_of_live live, tail,
        Option.bind_eq_bind, Option.bind_some]
    · simp [JobQueue.append, holds.count_eq]
    · simp [JobQueue.append, holds.fifo]
  · rw [List.concat_eq_append] at *
    have tail : q.tail = some last := by
      rw [holds.tail_eq, List.getLast?_append]
      rfl
    have kept := unlinked.chain holds.chain fun address member same =>
      apart (List.mem_singleton.mp same ▸ member)
    obtain ⟨lastNode, lastLive⟩ := kept.live (List.mem_append_right front List.mem_cons_self)
    have differ : last ≠ job := by
      rintro rfl
      exact apart (by simp)
    have linked := Chain.concat_redirect kept holds.nodup lastLive alone (by simpa using differ)
    have relinked : Relinked (job :: (front ++ [last])) heap _ :=
      unlinked.trans (Relinked.store lastLive (some job)) (by simp) (by simp)
    refine ⟨q.append q.head job, _, ?_, ⟨nodup, ?_, ?_, ?_, ?_⟩, relinked, rfl, rfl⟩
    · simp only [queuePush, accepts, Bool.false_eq_true, ↓reduceIte, Heap.modify_of_live live, tail,
        Heap.modify_of_live lastLive, Option.bind_eq_bind, Option.bind_some]
    · simpa [JobQueue.append] using linked
    · simp [JobQueue.append]
    · simp [JobQueue.append, holds.count_eq]
    · simp [JobQueue.append, holds.fifo]

/-- The first job is popped, if there is one. -/
theorem queuePopWait_holds (holds : q.Holds heap jobs) :
    jobs = [] ∧ queuePopWait q heap = some (none, q, heap) ∨
    ∃ job rest popped after, jobs = job :: rest ∧
      queuePopWait q heap = some (some job, popped, after) ∧
      popped.Holds after rest ∧ Relinked [job] heap after ∧
      popped.cap = q.cap ∧ popped.shutdown = q.shutdown := by
  cases jobs with
  | nil =>
      have head : q.head = none := holds.chain
      exact Or.inl ⟨rfl, by simp only [queuePopWait, head]⟩
  | cons job rest =>
      obtain ⟨head, node, live, chain⟩ := holds.chain
      have unlinked := Relinked.store live none
      have apart : ∀ address ∈ rest, address ∉ [job] := by
        rintro address member same
        rw [List.mem_singleton] at same
        exact (List.nodup_cons.mp holds.nodup).1 (same ▸ member)
      refine Or.inr ⟨job, rest, q.behind job node.next, _, rfl, ?_,
        ⟨(List.nodup_cons.mp holds.nodup).2, unlinked.chain chain apart, ?_, ?_, ?_⟩, unlinked,
        rfl, rfl⟩
      · simp only [queuePopWait, head, Heap.read, live, Heap.modify_of_live live,
          Option.bind_eq_bind, Option.bind_some]
      · cases rest with
        | nil =>
            have last : node.next = none := chain
            simp [JobQueue.behind, last]
        | cons second others =>
            have more : node.next = some second := chain.1
            simp [JobQueue.behind, more, holds.tail_eq]
      · simp [JobQueue.behind, holds.count_eq]
      · simp [JobQueue.behind, holds.fifo]

/-- A drained queue is empty, and its jobs are a list of their own. -/
theorem queueDrain_holds (holds : q.Holds heap jobs) :
    Chain jobLink heap.cells (queueDrain q).1 jobs ∧ (queueDrain q).2.Holds heap [] :=
  ⟨holds.chain, List.nodup_nil, rfl, rfl, rfl, by simp [queueDrain]⟩

end

end FizzDns
