import FizzDns.Backend.Contract
import FizzDns.Xdp.Wakeup

/-!
# What goes out answers what came in

With `dns_resolve_query` as the backend of the workers: the jobs that a loop makes are those of
packets that the kernel has handed to its socket, each packet once and in order (`Derived`), a
response that is in a job was returned for the query of that job (`ResponsesReturned`), and so every
frame that is put on a TX ring carries a reply to a query that came in on the same socket, back to
where it came from, and no query is answered twice (`xdp_replies_answer`).
-/

namespace FizzDns

open FizzDns.System Process

variable {μ : Type} {nloops numWorkers : Nat} {backend : μ → Bytes → Answer}

/-! ## Arrivals -/

/-- The packets that a loop thread has taken off its RX ring and not come to. -/
def LoopPc.arrived : LoopPc → List Bytes
  | .rx left _ => left.map XdpDesc.packet
  | _ => []

/-- The packets that a loop has been handed and its thread has not come to. -/
def LoopCtx.unseen (lp : LoopCtx) : List Bytes :=
  lp.pc.arrived ++ lp.xsk.rx.entries.map XdpDesc.packet

/-- The jobs that a loop has made. -/
def System.jobsOf (i : Fin nloops) (s : System nloops numWorkers) : List DnsJob :=
  s.created.filterMap fun entry => if entry.1 = i then some entry.2 else none

/-- What an action does to the packets and the jobs of a loop. -/
inductive Takes (action : Action nloops numWorkers) (i : Fin nloops)
    (s s' : System nloops numWorkers) : Prop
  | nothing (unseen : (s'.loops i).unseen = (s.loops i).unseen) (jobs : s'.jobsOf i = s.jobsOf i)
  | skips {packet : Bytes} (unseen : (s.loops i).unseen = packet :: (s'.loops i).unseen)
      (jobs : s'.jobsOf i = s.jobsOf i)
  | makes {packet : Bytes} {job : DnsJob}
      (unseen : (s.loops i).unseen = packet :: (s'.loops i).unseen)
      (parsed : parseFrame packet i = some job) (jobs : s'.jobsOf i = s.jobsOf i ++ [job])
  | arrives {which : Nat} {offset : Fin frameSize} {packet : Bytes}
      (received : action = .kernel i (.receive which offset packet))
      (unseen : (s'.loops i).unseen = (s.loops i).unseen ++ [packet])
      (jobs : s'.jobsOf i = s.jobsOf i)

namespace System

variable {s s' : System nloops numWorkers} {i j : Fin nloops}

theorem unseen_setXsk (xsk : XskSocketInfo) (pc : LoopPc) :
    ((s.setXsk i xsk pc).loops i).unseen = pc.arrived ++ xsk.rx.entries.map XdpDesc.packet := by
  simp [setXsk, setLoop, LoopCtx.unseen]

/-- Work on a socket that does not concern its RX ring. -/
theorem takes_setXsk {action : Action nloops numWorkers} {middle : System nloops numWorkers}
    {xsk : XskSocketInfo} {pc : LoopPc} (created : middle.created = s.created)
    (rx : xsk.rx.entries = (s.loops i).xsk.rx.entries)
    (arrived : pc.arrived = (s.loops i).pc.arrived) :
    Takes action i s (middle.setXsk i xsk pc) := by
  refine .nothing ?_ ?_
  · rw [unseen_setXsk, rx, arrived]
    rfl
  · exact congrArg (List.filterMap _) created

/-- A step of another loop. -/
theorem loops_setXsk_of_ne (away : i ≠ j) (xsk : XskSocketInfo) (pc : LoopPc) :
    (s.setXsk j xsk pc).loops i = s.loops i := by
  simp [setXsk, setLoop, Function.update_of_ne away]

/-- Only `receive` puts something on an RX ring. -/
theorem takes_kernel (step : KernelStep) :
    Takes (.kernel i step) i s (s.setXsk i ((s.loops i).xsk.kernel step) (s.loops i).pc) := by
  have quiet : ((s.loops i).xsk.kernel step).rx.entries = (s.loops i).xsk.rx.entries →
      Takes (.kernel i step) i s (s.setXsk i ((s.loops i).xsk.kernel step) (s.loops i).pc) :=
    fun same => takes_setXsk rfl same rfl
  cases step with
  | takeFill =>
      apply quiet
      simp only [XskSocketInfo.kernel]
      split <;> rfl
  | publishFill count => exact quiet rfl
  | receive which offset packet =>
      cases taken : (s.loops i).xsk.driver[which]? with
      | none => exact quiet (by simp [XskSocketInfo.kernel, taken])
      | some frame =>
          cases offered : (s.loops i).xsk.rx.offer ⟨frame + UInt64.ofNat offset, packet⟩ with
          | none => exact quiet (by simp [XskSocketInfo.kernel, taken, offered])
          | some rx =>
              refine .arrives rfl ?_ rfl
              rw [unseen_setXsk]
              simp [XskSocketInfo.kernel, taken, offered, ConsRing.offer_some offered,
                LoopCtx.unseen]
  | takeTx =>
      apply quiet
      simp only [XskSocketInfo.kernel]
      split <;> rfl
  | publishTx count => exact quiet rfl
  | complete which =>
      apply quiet
      simp only [XskSocketInfo.kernel]
      split
      · rfl
      · split <;> rfl

/-- The result of `rxJob` on the jobs. -/
theorem rxJob_created {allocates : Bool} {packet : Bytes}
    (done : s.rxJob i allocates packet = some s') :
    (s'.created = s.created ∨
        ∃ job, parseFrame packet i = some job ∧ s'.created = s.created ++ [(i, job)]) ∧
      (s'.loops i).pc = (s.loops i).pc ∧ (s'.loops i).xsk.rx = (s.loops i).xsk.rx := by
  unfold rxJob at done
  split at done
  · cases done
    exact ⟨Or.inl rfl, by simp [setStats, setXsk, setLoop]⟩
  · next job found =>
      have parsed : parseFrame packet i = some job := by
        cases allocates with
        | false => cases found
        | true => exact found
      obtain ⟨⟨taken, pendingQ, heap⟩, _, rest⟩ := Option.bind_eq_some_iff.mp done
      dsimp only at rest
      split at rest
      · cases rest
        exact ⟨Or.inr ⟨job, parsed, rfl⟩, by simp [setStats, setXsk, setLoop]⟩
      · obtain ⟨freed, _, rest⟩ := Option.bind_eq_some_iff.mp rest
        cases rest
        exact ⟨Or.inr ⟨job, parsed, rfl⟩, by simp [setStats, setXsk, setLoop]⟩

/-- The packet that a loop thread comes to is taken, and may become a job. -/
theorem takes_rxPacket {allocates : Bool} {desc : XdpDesc} {left : List XdpDesc} {rcvd : Nat}
    (here : (s.loops i).pc = .rx (desc :: left) rcvd)
    (done : s.rxPacket i allocates desc left rcvd = some s') :
    Takes (.loop i allocates) i s s' := by
  obtain ⟨middle, received, rest⟩ := Option.bind_eq_some_iff.mp done
  obtain ⟨free, _, rest⟩ := Option.bind_eq_some_iff.mp rest
  cases rest
  obtain ⟨created, _, rx⟩ := rxJob_created received
  have unseen : (s.loops i).unseen = desc.packet ::
      ((middle.setXsk i { (middle.loops i).xsk with umemFrameAddr := free } (.rx left rcvd)).loops
        i).unseen := by
    rw [unseen_setXsk]
    simp [LoopCtx.unseen, here, LoopPc.arrived, rx]
  rcases created with same | ⟨job, parsed, more⟩
  · exact .skips unseen (congrArg (List.filterMap _) same)
  · refine .makes unseen parsed ?_
    have more : (middle.setXsk i { (middle.loops i).xsk with umemFrameAddr := free }
        (.rx left rcvd)).created = s.created ++ [(i, job)] := more
    simp [jobsOf, more]

theorem takes_collect {allocates : Bool} {list : Option Addr} {batch : List Addr}
    (here : (s.loops i).pc = .collect list batch) (done : s.collect i list batch = some s') :
    Takes (.loop i allocates) i s s' := by
  have arrived : (s.loops i).pc.arrived = [] := by
    rw [here]
    rfl
  unfold collect at done
  split at done
  · cases done
    split
    · exact takes_setXsk rfl rfl arrived.symm
    · exact takes_setXsk rfl rfl arrived.symm
  · split at done
    · obtain ⟨job, _, rest⟩ := Option.bind_eq_some_iff.mp done
      split at rest
      · obtain ⟨heap, _, rest⟩ := Option.bind_eq_some_iff.mp rest
        cases rest
        exact takes_setXsk (by rfl) rfl arrived.symm
      · cases rest
        exact takes_setXsk rfl rfl arrived.symm
    · cases done
      exact takes_setXsk rfl rfl arrived.symm

theorem takes_sendBatch {allocates : Bool} {list : Option Addr} {batch : List Addr} {want : Nat}
    (here : (s.loops i).pc = .send list batch want)
    (done : s.sendBatch i list batch want = some s') : Takes (.loop i allocates) i s s' := by
  have arrived : (s.loops i).pc.arrived = [] := by
    rw [here]
    rfl
  simp only [sendBatch, Option.bind_eq_bind, Option.bind_eq_some_iff] at done
  obtain ⟨jobs, _, heap, _, rest⟩ := done
  cases rest
  have kept : ∀ middle : System nloops numWorkers,
      middle = s ∨ middle = s.transmit i batch want jobs →
      middle.created = s.created ∧ (middle.loops i).xsk.rx = (s.loops i).xsk.rx := by
    rintro middle (rfl | rfl)
    · exact ⟨rfl, rfl⟩
    · unfold transmit
      dsimp only
      split
      · exact ⟨rfl, by simp [setXsk, setLoop]⟩
      · exact ⟨rfl, by simp [setXsk, setLoop]⟩
  split
  · exact takes_setXsk (by rfl) rfl arrived.symm
  · obtain ⟨created, rx⟩ := kept _ (Or.inr rfl)
    exact takes_setXsk created (congrArg ConsRing.entries rx) arrived.symm

/-- A step of a loop thread. -/
theorem takes_loopStep {allocates : Bool} (done : s.loopStep i allocates = some s') :
    Takes (.loop i allocates) i s s' := by
  unfold loopStep at done
  split at done
  · cases done
    exact .nothing rfl rfl
  · next here =>
      cases done
      refine takes_setXsk rfl (ConsRing.release_entries _) ?_
      rw [here]
      rfl
  · next here => exact takes_rxPacket here done
  · next here =>
      cases done
      refine takes_setXsk rfl rfl ?_
      rw [here]
      split <;> rfl
  · next here =>
      cases done
      unfold reserveFill
      dsimp only
      split
      · exact takes_setXsk rfl rfl (by rw [here]; rfl)
      · exact takes_setXsk rfl rfl (by rw [here]; rfl)
  · next here => exact takes_collect here done
  · next here => exact takes_sendBatch here done
  · next here =>
      cases done
      exact takes_setXsk rfl rfl (by rw [here]; rfl)
  · next here =>
      obtain ⟨free, _, rest⟩ := Option.bind_eq_some_iff.mp done
      cases rest
      exact takes_setXsk rfl rfl (by rw [here]; rfl)

/-- A loop thread makes jobs for its own loop only. -/
theorem loopStep_created {allocates : Bool} (done : s.loopStep i allocates = some s') :
    s'.created = s.created ∨ ∃ job, s'.created = s.created ++ [(i, job)] := by
  unfold loopStep at done
  split at done
  case h_3 desc left rcvd here =>
      obtain ⟨middle, received, rest⟩ := Option.bind_eq_some_iff.mp done
      obtain ⟨free, _, rest⟩ := Option.bind_eq_some_iff.mp rest
      cases rest
      rcases (rxJob_created received).1 with same | ⟨job, _, more⟩
      · exact Or.inl same
      · exact Or.inr ⟨job, more⟩
  case h_5 n here =>
      cases done
      left
      unfold reserveFill
      dsimp only
      split <;> rfl
  case h_6 list batch here =>
      left
      unfold collect at done
      split at done
      · cases done
        split <;> rfl
      · split at done
        · obtain ⟨job, _, rest⟩ := Option.bind_eq_some_iff.mp done
          split at rest
          · obtain ⟨heap, _, rest⟩ := Option.bind_eq_some_iff.mp rest
            cases rest
            rfl
          · cases rest
            rfl
        · cases done
          rfl
  case h_7 list batch want here =>
      simp only [sendBatch, Option.bind_eq_bind, Option.bind_eq_some_iff] at done
      obtain ⟨jobs, _, heap, _, rest⟩ := done
      cases rest
      left
      split
      · rfl
      · change (s.transmit i batch want jobs).created = s.created
        unfold transmit
        dsimp only
        split <;> rfl
  case h_9 addr left completed here =>
      obtain ⟨free, _, rest⟩ := Option.bind_eq_some_iff.mp done
      cases rest
      exact Or.inl rfl
  all_goals
    cases done
    exact Or.inl rfl

/-- A job of another loop. -/
theorem jobsOf_of_ne {job : DnsJob} (away : i ≠ j) (more : s'.created = s.created ++ [(j, job)]) :
    s'.jobsOf i = s.jobsOf i := by
  simp [jobsOf, more, away.symm]

/-- Another done queue. -/
theorem unseen_setDoneQ {middle : System nloops numWorkers} (same : middle.loops = s.loops)
    (doneQ : JobQueue) :
    ((middle.setLoop j { s.loops j with doneQ := doneQ }).loops i).unseen = (s.loops i).unseen := by
  by_cases here : i = j
  · subst here
    simp [setLoop, LoopCtx.unseen]
  · simp [setLoop, Function.update_of_ne here, same]

/-- Workers make no jobs, and leave the sockets alone. -/
theorem takes_worker {w : Fin numWorkers} {answer : Answer}
    (done : s.workerStep w answer = some s') : Takes (.worker w answer) i s s' := by
  unfold workerStep at done
  split at done
  · obtain ⟨⟨job, pendingQ, heap⟩, _, rest⟩ := Option.bind_eq_some_iff.mp done
    dsimp only at rest
    split at rest
    · cases rest
      exact .nothing rfl rfl
    · cases rest
      split
      · exact .nothing rfl rfl
      · exact .nothing rfl rfl
  · have dropped : ∀ {addr}, s.dropJob w addr = some s' → Takes (.worker w answer) i s s' := by
      intro addr dropped
      obtain ⟨heap, _, rest⟩ := Option.bind_eq_some_iff.mp dropped
      cases rest
      exact .nothing rfl rfl
    split at done
    · exact dropped done
    · split at done
      · exact dropped done
      · obtain ⟨heap, _, rest⟩ := Option.bind_eq_some_iff.mp done
        cases rest
        exact .nothing rfl rfl
  · obtain ⟨job, _, rest⟩ := Option.bind_eq_some_iff.mp done
    split at rest
    · next inside =>
        obtain ⟨⟨taken, doneQ, heap⟩, _, rest⟩ := Option.bind_eq_some_iff.mp rest
        dsimp only at rest
        split at rest
        · cases rest
          exact .nothing (unseen_setDoneQ (by rfl) doneQ) rfl
        · obtain ⟨freed, _, rest⟩ := Option.bind_eq_some_iff.mp rest
          cases rest
          exact .nothing (unseen_setDoneQ (by rfl) doneQ) rfl
    · cases rest
  · cases done
    exact .nothing rfl rfl

/-- A call that a loop thread starts. -/
theorem takes_call {action : Action nloops numWorkers}
    {body : System nloops numWorkers → System nloops numWorkers}
    (takes : (s.loops j).pc = .idle → Takes action i s (body s)) :
    Takes action i s (s.call j body) := by
  unfold call
  split
  · next idle => exact takes idle
  · exact .nothing rfl rfl

/-- What an action does to the packets and the jobs of each loop. -/
theorem takes_step {action : Action nloops numWorkers} (done : s.step action = some s')
    (i : Fin nloops) : Takes action i s s' := by
  cases action with
  | kernel j step =>
      cases done
      by_cases same : i = j
      · subst same
        exact takes_kernel step
      · exact .nothing (by rw [loops_setXsk_of_ne same]) rfl
  | drainRx j =>
      cases done
      refine takes_call fun idle => ?_
      by_cases same : i = j
      · subst same
        refine .nothing ?_ rfl
        have whole := congrArg (List.map XdpDesc.packet)
          (@ConsRing.peek_append _ (s.loops i).xsk.rx rxBatchSize)
        rw [List.map_append] at whole
        rw [drainRx, unseen_setXsk, LoopCtx.unseen, idle]
        refine Eq.trans (congrArg (· ++ _) ?_) whole
        split
        · next none =>
            rw [List.isEmpty_iff.mp none]
            rfl
        · rfl
      · exact .nothing (by rw [drainRx, loops_setXsk_of_ne same]) rfl
  | drainDoneAndTx j =>
      cases done
      refine takes_call fun idle => .nothing ?_ rfl
      by_cases same : i = j
      · subst same
        simp [drainDoneAndTx, setLoop, LoopCtx.unseen, idle, LoopPc.arrived]
      · simp [drainDoneAndTx, setLoop, Function.update_of_ne same]
  | reclaimTx j =>
      cases done
      refine takes_call fun idle => ?_
      unfold reclaimTx
      dsimp only
      split
      · exact .nothing rfl rfl
      · by_cases same : i = j
        · subst same
          refine takes_setXsk rfl rfl ?_
          rw [idle]
          split <;> rfl
        · exact .nothing (by rw [loops_setXsk_of_ne same]) rfl
  | loop j allocates =>
      by_cases same : i = j
      · subst same
        exact takes_loopStep done
      · refine .nothing (by rw [(loopStep_moved done).others i same]) ?_
        rcases loopStep_created done with kept | ⟨job, more⟩
        · exact congrArg (List.filterMap _) kept
        · exact jobsOf_of_ne same more
  | worker w answer => exact takes_worker done
  | shutdown =>
      cases done
      exact .nothing rfl rfl

end System

/-! ## Packets and jobs -/

/-- The packets that the kernel was given for a loop. -/
def received (i : Fin nloops) (events : List (ProcessEvent μ nloops numWorkers)) : List Bytes :=
  events.filterMap fun
    | .kernel j (.receive _ _ packet) => if j = i then some packet else none
    | _ => none

theorem received_append (i : Fin nloops) (past more : List (ProcessEvent μ nloops numWorkers)) :
    received i (past ++ more) = received i past ++ received i more :=
  List.filterMap_append

/-- The jobs of a loop were made from packets that it received, in this order and each from one of
its own, all of them before the packets that the loop has not come to. -/
def Derived (i : Fin nloops) (events : List (ProcessEvent μ nloops numWorkers))
    (s : System nloops numWorkers) : Prop :=
  ∃ packets : List Bytes, packets.map (parseFrame · i) = (s.jobsOf i).map some ∧
    (packets ++ (s.loops i).unseen).Sublist (received i events)

theorem Derived.step {i : Fin nloops} {past : List (ProcessEvent μ nloops numWorkers)}
    {event : ProcessEvent μ nloops numWorkers} {s s' : System nloops numWorkers}
    (derived : Derived i past s) (acts : Acts backend event s s') :
    Derived i (past ++ [event]) s' := by
  obtain ⟨packets, parsed, within⟩ := derived
  have more : (received i past).Sublist (received i (past ++ [event])) := by
    rw [received_append]
    exact List.sublist_append_left _ _
  rcases acts with rfl | ⟨action, stepped, isKernel, _⟩
  · exact ⟨packets, parsed, within.trans more⟩
  rcases System.takes_step stepped i with
    ⟨unseen, jobs⟩ | ⟨unseen, jobs⟩ | ⟨unseen, isJob, jobs⟩ | ⟨arrives, unseen, jobs⟩
  · exact ⟨packets, jobs ▸ parsed, unseen ▸ within.trans more⟩
  · refine ⟨packets, jobs ▸ parsed, ?_⟩
    rw [unseen] at within
    refine List.Sublist.trans ?_ (within.trans more)
    exact List.Sublist.append_left (List.sublist_cons_self _ _) _
  · rename_i packet job
    refine ⟨packets ++ [packet], ?_, ?_⟩
    · rw [jobs, List.map_append, List.map_append, parsed]
      simp [isJob]
    · rw [unseen] at within
      rw [List.append_assoc]
      exact within.trans more
  · rename_i which offset packet
    cases isKernel _ _ arrives
    refine ⟨packets, jobs ▸ parsed, ?_⟩
    rw [unseen, ← List.append_assoc, received_append]
    exact within.append (by simp [received])

/-! ## Responses -/

/-- What is in a job as its response was returned for its query. -/
def Sourced (backend : μ → Bytes → Answer) (job : DnsJob) : Prop :=
  job.resp = [] ∨ ∃ moment reply, backend moment job.query = some reply ∧ job.resp = reply.val

/-- The responses in jobs, and those that were sent, are what the backend returned. -/
structure ResponsesReturned (backend : μ → Bytes → Answer) (s : System nloops numWorkers) :
    Prop where
  jobs : ∀ addr job, s.heap.read addr = some job → Sourced backend job
  sent : ∀ i addr desc, (i, addr, desc) ∈ s.sent → ∃ job moment reply,
    s.created[addr]? = some (i, job) ∧ backend moment job.query = some reply ∧
      desc.packet = buildResponseFrame { job with resp := reply.val }

namespace ResponsesReturned

variable {s s' : System nloops numWorkers} {pipe pipe' : Pipeline nloops numWorkers}

/-- A worker moves itself only. -/
theorem workerStep_workers {w : Fin numWorkers} {answer : Answer}
    (done : s.workerStep w answer = some s') :
    ∃ pc, s'.workers = Function.update s.workers w pc := by
  unfold workerStep at done
  split at done
  · obtain ⟨⟨job, pendingQ, heap⟩, _, rest⟩ := Option.bind_eq_some_iff.mp done
    dsimp only at rest
    split at rest
    · cases rest
      exact ⟨_, rfl⟩
    · cases rest
      split
      · exact ⟨_, rfl⟩
      · exact ⟨_, (Function.update_eq_self _ _).symm⟩
  · have dropped : ∀ {addr}, s.dropJob w addr = some s' →
        ∃ pc, s'.workers = Function.update s.workers w pc := by
      intro addr dropped
      obtain ⟨heap, _, rest⟩ := Option.bind_eq_some_iff.mp dropped
      cases rest
      exact ⟨_, rfl⟩
    split at done
    · exact dropped done
    · split at done
      · exact dropped done
      · obtain ⟨heap, _, rest⟩ := Option.bind_eq_some_iff.mp done
        cases rest
        exact ⟨_, rfl⟩
  · obtain ⟨job, _, rest⟩ := Option.bind_eq_some_iff.mp done
    split at rest
    · obtain ⟨⟨taken, doneQ, heap⟩, _, rest⟩ := Option.bind_eq_some_iff.mp rest
      dsimp only at rest
      split at rest
      · cases rest
        exact ⟨_, rfl⟩
      · obtain ⟨freed, _, rest⟩ := Option.bind_eq_some_iff.mp rest
        cases rest
        exact ⟨_, rfl⟩
    · cases rest
  · cases done
    exact ⟨_, (Function.update_eq_self _ _).symm⟩

/-- A worker that gets from a query to a response has put the answer it got into its job. -/
theorem answer_of_step {action : Action nloops numWorkers} (done : s.step action = some s')
    {w : Fin numWorkers} {addr : Addr} (before : s.workers w = .resolving addr)
    (after : s'.workers w = .resolved addr) :
    ∃ reply, action = .worker w (some reply) ∧
      ∃ job, s'.heap.read addr = some job ∧ job.resp = reply.val := by
  have moved : s'.workers ≠ s.workers := by
    intro same
    rw [same, before] at after
    cases after
  cases action with
  | kernel i step =>
      cases done
      exact absurd rfl moved
  | drainRx i =>
      cases done
      exact absurd (call_moved _ drainRx_moved).workers moved
  | drainDoneAndTx i =>
      cases done
      refine absurd ?_ moved
      unfold call
      split <;> rfl
  | reclaimTx i =>
      cases done
      exact absurd (call_moved _ reclaimTx_moved).workers moved
  | loop i allocates => exact absurd (loopStep_moved done).workers moved
  | shutdown =>
      cases done
      exact absurd rfl moved
  | worker v answer =>
      obtain ⟨pc, workers⟩ := workerStep_workers done
      have same : w = v := by
        by_contra differ
        rw [workers, Function.update_of_ne differ, before] at after
        cases after
      subst same
      have dropped : s.dropJob w addr = some s' → False := by
        intro dropped
        obtain ⟨heap, _, rest⟩ := Option.bind_eq_some_iff.mp dropped
        cases rest
        simp at after
      simp only [System.step, workerStep, before] at done
      split at done
      · exact (dropped done).elim
      · next reply =>
          split at done
          · exact (dropped done).elim
          · refine ⟨reply, rfl, ?_⟩
            obtain ⟨heap, written, rest⟩ := Option.bind_eq_some_iff.mp done
            cases rest
            unfold Heap.modify at written
            split at written
            · cases written
            · cases written
              exact ⟨_, Function.update_self .., rfl⟩

/-- A job on the heap is one of the pipeline's, but for its link. -/
theorem read_iff (represents : Represents s pipe) {addr : Addr} {job : DnsJob} :
    pipe.jobs addr = some job ↔ ∃ node, s.heap.read addr = some node ∧ jobLink.body node = job := by
  rw [← represents.jobs addr, Option.map_eq_some_iff]
  rfl

/-- What a step of the pipeline keeps, given where a new response comes from. -/
theorem jobs_of_pipeStep (step : PipeStep pipe pipe')
    (jobs : ∀ addr job, pipe.jobs addr = some job → Sourced backend job)
    (answered : ∀ w addr job reply, pipe.workers w = .resolving addr →
      pipe'.workers w = .resolved addr → pipe.jobs addr = some job →
      pipe'.jobs addr = some { job with resp := reply } →
        Sourced backend { job with resp := reply }) :
    ∀ addr job, pipe'.jobs addr = some job → Sourced backend job := by
  intro addr job live
  cases step with
  | @accept i packet made stats parsed running room counted =>
      by_cases same : addr = pipe.created.length
      · subst same
        simp only [Function.update_self, Option.some.injEq] at live
        subst live
        exact Or.inl (parseFrame_some parsed).2.2
      · exact jobs addr job ((Function.update_of_ne same _ _).symm.trans live)
  | @drop w other has =>
      by_cases same : addr = other
      · subst same
        simp at live
      · exact jobs addr job ((Function.update_of_ne same _ _).symm.trans live)
  | @answer w other before reply has found nonempty fits =>
      by_cases same : addr = other
      · subst same
        have written := (Function.update_self addr _ pipe.jobs).symm.trans live
        cases written
        exact answered w addr before reply has (Function.update_self ..) found live
      · exact jobs addr job ((Function.update_of_ne same _ _).symm.trans live)
  | finish i split count built counted =>
      dsimp only at live
      split at live
      · cases live
      · exact jobs addr job live
  | _ => exact jobs addr job live

/-- The same for what was sent. -/
theorem sent_of_pipeStep (step : PipeStep pipe pipe') (ok : PipeOk pipe)
    (jobs : ∀ addr job, pipe.jobs addr = some job → Sourced backend job)
    (sent : ∀ i addr desc, (i, addr, desc) ∈ pipe.sent → ∃ job moment reply,
      pipe.created[addr]? = some (i, job) ∧ backend moment job.query = some reply ∧
        desc.packet = buildResponseFrame { job with resp := reply.val }) :
    ∀ i addr desc, (i, addr, desc) ∈ pipe'.sent → ∃ job moment reply,
      pipe'.created[addr]? = some (i, job) ∧ backend moment job.query = some reply ∧
        desc.packet = buildResponseFrame { job with resp := reply.val } := by
  have grown : ∀ more i addr desc, (i, addr, desc) ∈ pipe.sent → ∃ job moment reply,
      (pipe.created ++ more)[addr]? = some (i, job) ∧ backend moment job.query = some reply ∧
        desc.packet = buildResponseFrame { job with resp := reply.val } := by
    intro more i addr desc member
    obtain ⟨job, moment, reply, found, rest⟩ := sent i addr desc member
    refine ⟨job, moment, reply, ?_, rest⟩
    rw [List.getElem?_append_left (List.getElem?_eq_some_iff.mp found).1]
    exact found
  intro i addr desc member
  cases step with
  | accept _ _ _ _ _ => exact grown _ i addr desc member
  | refuse _ _ _ => exact grown _ i addr desc member
  | @finish j now later descs stats split count built counted =>
      rcases List.mem_append.mp member with old | new
      · exact sent i addr desc old
      · obtain ⟨pair, zipped, same⟩ := List.mem_map.mp new
        cases same
        have pairs : List.zip now descs = List.zip (now.take descs.length) descs := by
          rw [List.zip_eq_zip_take_min, Nat.min_eq_right (by omega), List.take_length]
        rw [pairs] at zipped
        have listed : addr ∈ pipe.batch i := by
          rw [split]
          exact List.mem_append_left _ (List.mem_of_mem_take (List.of_mem_zip zipped).1)
        obtain ⟨job, live, packet⟩ := (List.forall₂_iff_zip.mp built).2 zipped
        obtain ⟨origin, found⟩ := ok.records.routed i addr (Or.inr listed)
        obtain ⟨entry, found', equal⟩ := ok.records.made addr job live
        cases found.symm.trans found'
        have nonempty := (ok.records.answered addr job live (Or.inl ⟨i, Or.inr listed⟩)).1
        rcases jobs addr job live with none | ⟨moment, reply, returned, resp⟩
        · rw [none] at nonempty
          cases nonempty
        · refine ⟨origin, moment, reply, found, ?_, ?_⟩
          · rw [equal] at returned
            exact returned
          · rw [← resp, packet, equal]
  | _ => exact sent i addr desc member

/-- Every event keeps the responses. -/
theorem step (replied : ResponsesReturned backend s) (few : nloops ≤ maxXsks) (sound : s.Sound pipe)
    {event : ProcessEvent μ nloops numWorkers} (acts : Acts backend event s s') :
    ResponsesReturned backend s' := by
  rcases acts with rfl | ⟨action, stepped, _, asked⟩
  · exact replied
  obtain ⟨s'', pipe', result, step, represents, _⟩ :=
    System.step_refines sound.represents sound.pipe few sound.frames action
  cases stepped.symm.trans result
  have jobs : ∀ addr job, pipe.jobs addr = some job → Sourced backend job := by
    intro addr job live
    obtain ⟨node, found, rfl⟩ := (read_iff sound.represents).mp live
    exact replied.jobs addr node found
  have sent := replied.sent
  rw [sound.represents.sent, sound.represents.created] at sent
  have answered : ∀ w addr job reply, pipe.workers w = .resolving addr →
      pipe'.workers w = .resolved addr → pipe.jobs addr = some job →
      pipe'.jobs addr = some { job with resp := reply } →
        Sourced backend { job with resp := reply } := by
    intro w addr job reply before after live written
    rw [← sound.represents.workers] at before
    rw [← represents.workers] at after
    obtain ⟨answer, rfl, node, found, resp⟩ := answer_of_step stepped before after
    obtain ⟨origin, moment, read, returned⟩ := asked w _ addr rfl before
    obtain ⟨node', found', body'⟩ := (read_iff represents).mp written
    cases found.symm.trans found'
    obtain ⟨origin', read', rfl⟩ := (read_iff sound.represents).mp live
    cases read.symm.trans read'
    refine Or.inr ⟨moment, answer, returned.symm, ?_⟩
    rw [← resp]
    exact (congrArg DnsJob.resp body').symm
  refine ⟨fun addr job live => ?_, ?_⟩
  · have backed := jobs_of_pipeStep step jobs answered addr _
      ((read_iff represents).mpr ⟨job, live, rfl⟩)
    exact backed
  · rw [represents.sent, represents.created]
    exact sent_of_pipeStep step sound.pipe jobs sent

end ResponsesReturned

/-! ## Runs -/

/-- What holds after the given events. -/
structure Traced (backend : μ → Bytes → Answer)
    (past : List (ProcessEvent μ nloops numWorkers)) (p : Process nloops numWorkers) : Prop where
  sound : ∃ pipe, p.system.Sound pipe
  replied : ResponsesReturned backend p.system
  derived : ∀ i, Derived i past p.system

namespace Traced

variable {past : List (ProcessEvent μ nloops numWorkers)} {p next : Process nloops numWorkers}

/-- The rings are empty at the start. -/
theorem start_unseen {s : System nloops numWorkers}
    (started : System.start nloops numWorkers = some s) (i : Fin nloops) :
    (s.loops i).unseen = [] := by
  obtain ⟨xsk, setup, _, _, _, rx, _⟩ := xskEnvSetupSocket_some
  simp only [System.start, setup, Option.bind_eq_bind, Option.bind_some,
    Option.some.injEq] at started
  subst started
  simp [LoopCtx.unseen, LoopPc.arrived, rx]

theorem start {created : Fin nloops → Bool}
    (started : Process.start nloops numWorkers created = some p) : Traced backend [] p := by
  have fresh := (start_spec started).1
  obtain ⟨s, same, sound, _⟩ := @System.start_sound nloops numWorkers
  cases same.symm.trans fresh
  refine ⟨⟨_, sound⟩, ⟨fun addr job live => ?_, fun i addr desc member => ?_⟩, fun i => ?_⟩
  · have none := sound.represents.jobs addr
    rw [show p.system.heap.cells addr = some job from live] at none
    cases none
  · rw [sound.represents.sent] at member
    cases member
  · refine ⟨[], ?_, ?_⟩
    · simp [System.jobsOf, sound.represents.created, Pipeline.start]
    · rw [start_unseen fresh]
      exact List.nil_sublist _

theorem step (few : nloops ≤ maxXsks) {event : ProcessEvent μ nloops numWorkers}
    (traced : Traced backend past p) (done : p.step backend event = some next) :
    Traced backend (past ++ [event]) next := by
  obtain ⟨pipe, sound⟩ := traced.sound
  have acts := step_acts done
  exact ⟨acts.sound few sound, traced.replied.step few sound acts,
    fun i => (traced.derived i).step acts⟩

theorem run (few : nloops ≤ maxXsks) {created : Fin nloops → Bool}
    {events : List (ProcessEvent μ nloops numWorkers)}
    (done : (Process.start nloops numWorkers created).bind
      (Schedule.run (Process.step backend) events) = some p) : Traced backend events p := by
  obtain ⟨start, started, ran⟩ := Option.bind_eq_some_iff.mp done
  have steps : ∀ past event (p next : Process nloops numWorkers), True → Traced backend past p →
      p.step backend event = some next → Traced backend (past ++ [event]) next :=
    fun _ _ _ _ _ traced stepped => traced.step few stepped
  have traced := Schedule.run_invariant steps (fun _ _ => trivial) (Traced.start started) ran
  exact traced

end Traced

/-! ## The backend -/

section

variable {β σ : Type} {bloom : BloomOps β} {law : FilterLaw bloom}

/-- `dns_resolve_query` as the workers call it. -/
def resolveXdp (law : FilterLaw bloom) (ask : Ask σ) (roots : List Bytes) (moment : Moment law σ)
    (query : Bytes) : Answer :=
  match returned : moment.resolve ask roots true dnsMaxMsgLen query with
  | none => none
  | some reply =>
      some ⟨reply, (Moment.isReply_of_resolve (by decide) (by decide) returned).length_le⟩

theorem resolveXdp_isReply {ask : Ask σ} {roots : List Bytes} {moment : Moment law σ}
    {query : Bytes} {reply : { reply : Bytes // reply.length ≤ dnsMaxMsgLen }}
    (returned : resolveXdp law ask roots moment query = some reply) :
    IsReply true dnsMaxMsgLen query reply.val := by
  unfold resolveXdp at returned
  split at returned
  · cases returned
  · next answered =>
      cases returned
      exact Moment.isReply_of_resolve (by decide) (by decide) answered

/-- A job that is on record was made by its loop. -/
theorem mem_jobsOf {s : System nloops numWorkers} {i : Fin nloops} {addr : Addr} {job : DnsJob}
    (found : s.created[addr]? = some (i, job)) : job ∈ s.jobsOf i :=
  List.mem_filterMap.mpr ⟨(i, job), List.mem_of_getElem? found, if_pos rfl⟩

/-- Whatever the threads' interleaving, the cache and the servers: the jobs of a loop are those of
packets that were handed to it, each packet once; what is on a TX ring was sent for a job, nothing
was sent twice for a job, and what was sent for a job is a reply to the query of its packet, in a
frame back to the sender. -/
theorem xdp_replies_answer (few : nloops ≤ maxXsks) (ask : Ask σ) (roots : List Bytes)
    {created : Fin nloops → Bool} {events : List (ProcessEvent (Moment law σ) nloops numWorkers)}
    {p : Process nloops numWorkers}
    (done : (Process.start nloops numWorkers created).bind
      (Schedule.run (Process.step (resolveXdp law ask roots)) events) = some p) :
    (∀ i, ∃ packets : List Bytes, packets.Sublist (received i events) ∧
      packets.map (parseFrame · i) = (p.system.jobsOf i).map some) ∧
    (∀ i, ∀ desc ∈ (p.system.loops i).xsk.tx.entries ++ (p.system.loops i).xsk.sending,
      ∃ addr, (i, addr, desc) ∈ p.system.sent) ∧
    (p.system.sent.map fun event => event.2.1).Nodup ∧
    ∀ i addr desc, (i, addr, desc) ∈ p.system.sent → ∃ packet ∈ received i events, ∃ job reply,
      parseFrame packet i = some job ∧ p.system.created[addr]? = some (i, job) ∧
        IsReply true dnsMaxMsgLen job.query reply ∧
        desc.packet = buildResponseFrame { job with resp := reply } := by
  obtain ⟨⟨pipe, sound⟩, replied, derived⟩ := Traced.run few done
  have conserved := sound.conserved
  refine ⟨fun i => ?_, conserved.transmitted, conserved.sentOnce, fun i addr desc member => ?_⟩
  · obtain ⟨packets, parsed, within⟩ := derived i
    exact ⟨packets, (List.sublist_append_left _ _).trans within, parsed⟩
  · obtain ⟨job, moment, reply, found, returned, packet⟩ := replied.sent i addr desc member
    obtain ⟨packets, parsed, within⟩ := derived i
    have made : some job ∈ packets.map (parseFrame · i) := by
      rw [parsed]
      exact List.mem_map_of_mem (mem_jobsOf found)
    obtain ⟨origin, arrived, isJob⟩ := List.mem_map.mp made
    exact ⟨origin, within.subset (List.mem_append_left _ arrived), job, reply.val, isJob, found,
      resolveXdp_isReply returned, packet⟩

end

/-- One query is received, resolved and answered. -/
def queryRoundTrip (i w : Fin 1) : List (ProcessEvent (Moment disabledLaw Unit) 1 1) :=
  [.kernel i .takeFill, .kernel i (.publishFill 1), .kernel i queryArrives,
    .turn i false, .turn i false, .turn i false, .loop i true, .signal i none, .loop i true,
    .loop i true, .loop i true, .worker w emptyMoment, .worker w emptyMoment, .worker w emptyMoment,
    .notify w, .turn i false, .loop i true, .loop i true, .loop i true, .loop i true]

/-- The query is answered, with one record. -/
theorem xdp_replies_answer_example :
    ∃ p, (Process.start 1 1 fun _ => true).bind
        (Schedule.run (Process.step (resolveXdp disabledLaw addressAsk [inetNtop fun _ => 1]))
          (queryRoundTrip 0 0)) = some p ∧
      ∃ addr desc, p.system.sent = [(0, addr, desc)] ∧
        (dnsParseHeader (desc.packet.drop (ethHlen + ipHlen + udpHlen)) dnsHdrLen).map
          DnsHeader.ancount = some 1 ∧
        ∃ (job : DnsJob) (reply : Bytes), IsReply true dnsMaxMsgLen job.query reply ∧
          desc.packet = buildResponseFrame { job with resp := reply } := by
  have ran : ((Process.start 1 1 fun _ => true).bind
      (Schedule.run (Process.step (resolveXdp disabledLaw addressAsk [inetNtop fun _ => 1]))
        (queryRoundTrip 0 0))).map (fun p => p.system.sent.map fun event =>
          (dnsParseHeader (event.2.2.packet.drop (ethHlen + ipHlen + udpHlen)) dnsHdrLen).map
            DnsHeader.ancount) = some [some 1] := by
    decide +kernel
  obtain ⟨p, done, counts⟩ := Option.map_eq_some_iff.mp ran
  obtain ⟨⟨i, addr, desc⟩, rest, sent, count, none⟩ := List.map_eq_cons_iff.mp counts
  obtain rfl := List.map_eq_nil_iff.mp none
  obtain rfl : i = 0 := Subsingleton.elim i 0
  obtain ⟨_, _, job, reply, _, _, replies, packet⟩ :=
    (xdp_replies_answer (by decide) _ _ done).2.2.2 0 addr desc (by simp [sent])
  exact ⟨p, done, addr, desc, sent, count, job, reply, replies, packet⟩

end FizzDns
