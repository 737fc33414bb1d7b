import FizzDns.Backend.ResolveQuery
import FizzDns.Xdp.Refinement

/-!
# Frames and jobs are conserved

What every interleaving of the loop threads, the workers and the kernel leaves, from the setup of
the sockets on: no assertion fails and no freed job is touched; each frame of a socket is in one
place (`frames_conserved`), and so is each job (`jobs_conserved`). The frames of the receiving
side are all there exactly as long as every refill has found enough free slots on the fill ring
(`receive_pool_full_iff`): a refill that is cut short is not made up for.
-/

namespace FizzDns

open Finset

variable {nloops numWorkers : Nat}

/-! ## The start -/

/-- No jobs yet. -/
def Pipeline.start (nloops numWorkers : Nat) : Pipeline nloops numWorkers where
  pending := []
  shutdown := false
  workers := fun _ => .waiting
  done := fun _ => []
  batch := fun _ => []
  refused := fun _ => 0
  jobs := fun _ => none
  created := []
  sent := []
  stats := fun _ => {}
  resolvedOk := 0
  resolvedDrop := 0

theorem Pipeline.start_ok : PipeOk (Pipeline.start nloops numWorkers) := by
  have nothing : ∀ place, (Pipeline.start nloops numWorkers).held place = [] := by
    rintro (_ | _ | _ | _) <;> rfl
  refine ⟨⟨?_, ?_, ?_⟩, ⟨nofun, nofun, ?_, nofun, nofun, List.nodup_nil⟩, ⟨?_, ?_, nofun⟩, ⟨?_, ?_⟩⟩
  · intro place
    rw [nothing]
    exact List.nodup_nil
  · intro here there addr member
    rw [nothing] at member
    cases member
  · intro addr
    simp only [nothing, List.not_mem_nil, exists_false, iff_false]
    exact nofun
  · rintro i addr (member | member) <;> cases member
  · exact Nat.zero_le _
  · exact fun i => Nat.zero_le _
  all_goals simp [Pipeline.start, Pipeline.awaiting, WorkerPc.unresolved, WorkerPc.returning]

/-- All frames are free before the fill ring gets its first. -/
private theorem custody_unused :
    Custody (fun place => if place = FramePlace.free then frameBases.reverse else [])
      (· ∈ frameBases) where
  nodup place := by
    split
    · exact List.nodup_reverse.mpr nodup_frameBases
    · exact List.nodup_nil
  unique := by
    intro here there frame first second
    split at first
    · split at second
      · next left right => rw [left, right]
      · cases second
    · cases first
  complete frame := by
    constructor
    · exact fun member => ⟨.free, by simpa using member⟩
    · rintro ⟨place, member⟩
      split at member
      · exact List.mem_reverse.mp member
      · cases member

/-- A socket that has been set up has half of its frames on the fill ring. -/
theorem xskEnvSetupSocket_framesOk {xsk : XskSocketInfo} (setup : xskEnvSetupSocket = some xsk) :
    FramesOk xsk .idle ∧ xsk.level .idle = fillRingFrames ∧ xsk.tx.entries ++ xsk.sending = [] ∧
      xsk.stats = {} := by
  obtain ⟨_, same, fill, free, cq, rx, tx, outstanding, driver, sending, stats⟩ :=
    xskEnvSetupSocket_some
  rw [setup, Option.some.injEq] at same
  subst same
  refine ⟨⟨?_, ?_, trivial⟩, ?_, ?_, stats⟩
  · refine custody_unused.move .free .fill (frameBases.reverse.take fillRingFrames) nofun ?_ ?_ ?_
    · simp only [↓reduceIte, XskSocketInfo.frames, free, List.take_append_drop]
      exact List.Perm.refl _
    · simp only [reduceCtorEq, ↓reduceIte, XskSocketInfo.frames, fill, driver]
      exact List.Perm.refl _
    · rintro (_ | _ | _ | _ | _ | _) notFree notFill
      · exact absurd rfl notFree
      · exact absurd rfl notFill
      · simp [XskSocketInfo.frames, rx]
      · simp [XskSocketInfo.frames, tx, sending]
      · simp [XskSocketInfo.frames, cq]
      · rfl
  · simp [XskSocketInfo.frames, LoopPc.completed, outstanding, tx, sending, cq]
  · have enough : fillRingFrames ≤ frameBases.reverse.length := by
      simp [frameBases, fillRingFrames, numFrames]
    simp only [XskSocketInfo.level, XskSocketInfo.pool, LoopPc.owed, fill, driver, rx,
      List.length_take_of_le enough, List.length_nil, Nat.add_zero]
  · rw [tx, sending]
    rfl

/-- The threads start in a sound state. -/
theorem System.start_sound :
    ∃ s, System.start nloops numWorkers = some s ∧ s.Sound (Pipeline.start nloops numWorkers) ∧
      ∀ i, (s.loops i).xsk.level (s.loops i).pc = fillRingFrames := by
  obtain ⟨xsk, setup, _⟩ := xskEnvSetupSocket_some
  obtain ⟨frames, level, nothing, stats⟩ := xskEnvSetupSocket_framesOk setup
  refine ⟨_, by rw [System.start, setup]; rfl, ⟨?_, Pipeline.start_ok, fun _ => frames, ?_⟩,
    fun _ => level⟩
  · refine
      { pending := queueInit_holds _ _
        capacity := rfl
        shutdown := rfl
        loops := fun i => ⟨queueInit_holds _ _, rfl, rfl, ⟨[], rfl, rfl⟩, rfl, stats.symm⟩
        workers := rfl
        jobs := fun _ => rfl
        fresh := rfl
        created := rfl
        sent := rfl
        resolvedOk := rfl
        resolvedDrop := rfl }
  · intro i desc member
    rw [nothing] at member
    cases member

/-- Every run succeeds and ends in a sound state. -/
theorem System.run_start (few : nloops ≤ maxXsks) (schedule : List (Action nloops numWorkers)) :
    ∃ s₀ s p, System.start nloops numWorkers = some s₀ ∧ s₀.run schedule = some s ∧ s.Sound p ∧
      ∀ i, (s.loops i).xsk.level (s.loops i).pc = fillRingFrames ↔
        System.Throughout (System.RefillFits i) schedule s₀ := by
  obtain ⟨s₀, started, sound, level⟩ := @System.start_sound nloops numWorkers
  obtain ⟨s, p, ran, soundEnd, levels⟩ := sound.run few schedule
  refine ⟨s₀, s, p, started, ran, soundEnd, fun i => ?_⟩
  rw [← level i]
  exact (levels i).2

/-- What `dns_resolve_query` leaves for a worker is one of the answers that the threads are
modelled with, whatever the query, the cache and the servers. -/
theorem dnsResolveQuery_answer {β σ : Type} {bloom : BloomOps β} {law : FilterLaw bloom}
    (ask : Ask σ) (roots : List Bytes) (call : QueryCall) (buffer : call.respCap = dnsMaxMsgLen)
    (up : σ) {cacheState : CacheState β} {cache : LruCache}
    (refines : Refines law cacheState cache) :
    ∃ reply next up' after, dnsResolveQuery bloom ask roots call cacheState up =
        some (reply, next, up') ∧ Refines law next after ∧
      ∃ answer : Answer, answer.map Subtype.val = reply.map BuiltResponse.bytes := by
  unfold dnsResolveQuery
  cases parsed : dnsParseQuery call.query call.query.length with
  | none => exact ⟨none, cacheState, up, cache, rfl, refines, none, rfl⟩
  | some q =>
      obtain ⟨resolved, next, up', after, answered, result, few, _⟩ :=
        @answerQuestion_outcome _ _ bloom law ask roots call q up cacheState cache refines
      obtain ⟨built, builds, replies⟩ := dnsBuildResponse_replyTo parsed few resolved.rcode
        (by rw [buffer]; decide) (by rw [buffer]; decide)
      simp only [answered, builds, Option.bind_eq_bind, Option.bind_some]
      exact ⟨_, next, up', after, rfl, result, some ⟨built.bytes, buffer ▸ replies.fits⟩, rfl⟩

/-! ## Frames -/

/-- What is to be known of the frames of a socket. -/
structure FramesConserved (xsk : XskSocketInfo) (pc : LoopPc) : Prop where
  /-- Between two calls of the thread each frame is in one container. -/
  place : pc = .idle → ∀ index < numFrames,
    ∃! place, place ≠ .hand ∧ frameAddr index ∈ xsk.frames pc place
  /-- No container has a frame twice. -/
  once : ∀ place, (xsk.frames pc place).Nodup
  /-- A container has nothing but frames. -/
  valid : ∀ place, ∀ addr ∈ xsk.frames pc place, addr ∈ frameBases
  outstanding : pc = .idle →
    xsk.outstandingTx = (xsk.frames pc .tx).length + (xsk.frames pc .completion).length
  /-- The stack has as many frames as are about to be allocated. -/
  refill : ∀ n, pc = .reserveFill n → n ≤ xsk.umemFrameAddr.length
  send : ∀ list batch want, pc = .send list batch want → want ≤ xsk.umemFrameAddr.length
  /-- No entry of a ring is the mark of a failed allocation. -/
  fill_addr : ∀ addr ∈ xsk.fq.entries ++ xsk.driver, addr ≠ invalidUmemFrame
  rx_addr : ∀ desc ∈ xsk.rx.entries, desc.addr ≠ invalidUmemFrame
  tx_addr : ∀ desc ∈ xsk.tx.entries ++ xsk.sending, desc.addr ≠ invalidUmemFrame
  completion_addr : ∀ addr ∈ xsk.cq.entries, addr ≠ invalidUmemFrame

theorem FramesOk.conserved {xsk : XskSocketInfo} {pc : LoopPc} (ok : FramesOk xsk pc) :
    FramesConserved xsk pc := by
  have valid : ∀ place, ∀ addr ∈ xsk.frames pc place, addr ∈ frameBases :=
    fun place addr member => ok.custody.live_of_mem place member
  have marked : ∀ place, ∀ addr ∈ xsk.frames pc place, addr ≠ invalidUmemFrame := by
    intro place addr member same
    exact invalidUmemFrame_notMem.1 (same ▸ valid place addr member)
  constructor
  case place =>
      rintro rfl index inside
      have frame : frameAddr index ∈ frameBases := mem_frameBases.mpr ⟨index, inside, rfl⟩
      obtain ⟨place, member, unique⟩ := ok.custody.existsUnique frame
      refine ⟨place, ⟨?_, member⟩, fun other also => unique other also.2⟩
      rintro rfl
      cases member
  case once => exact ok.custody.nodup
  case valid => exact valid
  case outstanding =>
      rintro rfl
      exact ok.outstanding
  case refill =>
      rintro n rfl
      exact ok.ready.1
  case send =>
      rintro list batch want rfl
      exact ok.ready.1
  case fill_addr => exact marked .fill
  case rx_addr =>
      intro desc member same
      have base : xskFrameBase desc.addr ∈ frameBases := valid .rx _ (List.mem_map_of_mem member)
      rw [same] at base
      exact invalidUmemFrame_notMem.2 base
  case tx_addr => exact fun desc member => marked .tx _ (List.mem_map_of_mem member)
  case completion_addr => exact marked .completion

/-- Every interleaving keeps the frames of every socket: no assertion fails, each frame is in one
container between two calls, no allocation meets an empty stack, and `outstanding_tx` counts
the frames on the TX and completion rings. -/
theorem frames_conserved (few : nloops ≤ maxXsks) (schedule : List (Action nloops numWorkers)) :
    ∃ s, (System.start nloops numWorkers).bind (System.run schedule) = some s ∧
      ∀ i, FramesConserved (s.loops i).xsk (s.loops i).pc := by
  obtain ⟨s₀, s, p, started, ran, sound, _⟩ := System.run_start few schedule
  refine ⟨s, ?_, fun i => (sound.frames i).conserved⟩
  rw [started, Option.bind_some, ran]

/-- A query for the root's address, from port 4660 of 10.0.0.2. -/
def queryFrame : Bytes :=
  [2, 0, 0, 0, 0, 1, 2, 0, 0, 0, 0, 2, 8, 0,
    0x45, 0, 0, 45, 0, 0, 0, 0, 64, 17, 0, 0, 10, 0, 0, 2, 10, 0, 0, 1,
    0x12, 0x34, 0, 53, 0, 25, 0, 0,
    0, 7, 1, 0, 0, 1, 0, 0, 0, 0, 0, 0, 0, 0, 1, 0, 1]

/-- The kernel puts the query into the first frame that it has. -/
def queryArrives : KernelStep :=
  .receive 0 ⟨256, by decide⟩ queryFrame

/-- A query is received and answered, and its frames come back. -/
def roundTrip : List (Action 1 1) :=
  [.kernel 0 .takeFill, .kernel 0 (.publishFill 1), .kernel 0 queryArrives,
    .drainRx 0, .loop 0 true, .loop 0 true, .loop 0 true, .loop 0 true,
    .worker 0 none, .worker 0 (some ⟨[0, 7, 0x81, 0x80], by decide⟩), .worker 0 none,
    .drainDoneAndTx 0, .loop 0 true, .loop 0 true, .loop 0 true, .loop 0 true,
    .kernel 0 .takeTx, .kernel 0 (.publishTx 1), .kernel 0 (.complete 0),
    .reclaimTx 0, .loop 0 true, .loop 0 true]

example : ((System.start 1 1).bind (System.run roundTrip)).map (fun s =>
    (s.sent.length, (s.loops 0).xsk.umemFrameAddr.length, (s.loops 0).xsk.pool,
      (s.loops 0).xsk.outstandingTx)) = some (1, 2048, 2048, 0) := by
  decide +kernel

theorem frames_conserved_roundTrip :
    1 ≤ maxXsks ∧ ∃ s, (System.start 1 1).bind (System.run roundTrip) = some s ∧
      ∀ i, FramesConserved (s.loops i).xsk (s.loops i).pc :=
  ⟨by decide, frames_conserved (by decide) roundTrip⟩

/-! ## The receiving side -/

/-- Between two calls of its thread, all frames of the receiving side are there if and only if
every refill so far has found as many free slots as it needed. -/
theorem receive_pool_full_iff (few : nloops ≤ maxXsks)
    (schedule : List (Action nloops numWorkers)) :
    ∃ s₀ s, System.start nloops numWorkers = some s₀ ∧ s₀.run schedule = some s ∧
      ∀ i, (s.loops i).pc = .idle →
        ((s.loops i).xsk.pool = fillRingFrames ↔
          System.Throughout (System.RefillFits i) schedule s₀) := by
  obtain ⟨s₀, s, p, started, ran, sound, levels⟩ := System.run_start few schedule
  refine ⟨s₀, s, started, ran, fun i idle => ?_⟩
  rw [← levels i, idle]
  exact Iff.rfl

theorem receive_pool_full_iff_roundTrip :
    1 ≤ maxXsks ∧ ∃ s₀ s, System.start 1 1 = some s₀ ∧ s₀.run roundTrip = some s ∧
      ∀ i, (s.loops i).pc = .idle →
        ((s.loops i).xsk.pool = fillRingFrames ↔
          System.Throughout (System.RefillFits i) roundTrip s₀) :=
  ⟨by decide, receive_pool_full_iff (by decide) roundTrip⟩

/-- The kernel hands a packet over before it publishes that it took the frame off the fill ring,
and publishes it only after the loop thread is through its calls. -/
def latePublication : List (Action 1 1) :=
  [.kernel 0 .takeFill, .kernel 0 queryArrives,
    .drainRx 0, .loop 0 true, .loop 0 true, .loop 0 true,
    .drainDoneAndTx 0, .loop 0 true, .reclaimTx 0,
    .kernel 0 (.publishFill 1)]

/-- Another packet is received, all of it published in time. -/
def timelyPublication : List (Action 1 1) :=
  [.kernel 0 .takeFill, .kernel 0 (.publishFill 1), .kernel 0 queryArrives,
    .drainRx 0, .loop 0 true, .loop 0 true, .loop 0 true, .loop 0 true]

/-- Whether a loop thread is between two calls, what the kernel has not published of the fill
ring, the packets received, and the frames of the receiving side. -/
def System.receiving (s : System 1 1) : Bool × Nat × Nat × Nat :=
  ((s.loops 0).pc matches .idle, (s.loops 0).xsk.fq.taken, (s.loops 0).xsk.stats.rxPackets,
    (s.loops 0).xsk.pool)

/-- A frame is lost to the receiving side in the first batch, and the refill of the second does
not make up for it, though the kernel has published everything. -/
theorem short_refill_not_made_up :
    ((System.start 1 1).bind (System.run latePublication)).map System.receiving =
        some (true, 0, 1, fillRingFrames - 1) ∧
      ((System.start 1 1).bind (System.run (latePublication ++ timelyPublication))).map
        System.receiving = some (true, 0, 2, fillRingFrames - 1) := by
  decide +kernel

/-! ## Jobs -/

/-- What is to be known of the jobs. -/
structure JobsConserved (s : System nloops numWorkers) (p : Pipeline nloops numWorkers) :
    Prop where
  /-- The queues, the workers and the loops have the jobs of the pipeline; a queue has them in
  the order in which they came, and counts them. -/
  represents : Represents s p
  /-- A job that is not freed is in one place. -/
  place : ∀ addr, (s.heap.read addr).isSome → ∃! place, addr ∈ p.held place
  /-- No place has a job twice, or one that is freed. -/
  once : ∀ place, (p.held place).Nodup ∧ ∀ addr ∈ p.held place, (s.heap.read addr).isSome
  /-- A job keeps what its loop has read in a packet. -/
  kept : ∀ addr job, s.heap.read addr = some job → ∃ i received packet,
    s.created[addr]? = some (i, received) ∧ parseFrame packet i = some received ∧
      job = { received with next := job.next, resp := job.resp }
  /-- A job that is answered comes back to the loop that made it. -/
  routed : ∀ i addr, addr ∈ p.done i ∨ addr ∈ p.batch i → ∃ job, s.created[addr]? = some (i, job)
  /-- What is on a TX ring was sent for a job. -/
  transmitted : ∀ i, ∀ desc ∈ (s.loops i).xsk.tx.entries ++ (s.loops i).xsk.sending,
    ∃ addr, (i, addr, desc) ∈ s.sent
  /-- What was sent for a job, which is then freed, went through the loop that made the job, and
  it has the addresses of that job. -/
  sent : ∀ i addr desc, (i, addr, desc) ∈ s.sent → s.heap.read addr = none ∧
    ∃ job reply, s.created[addr]? = some (i, job) ∧
      desc.packet = buildResponseFrame { job with resp := reply }
  /-- Nothing is sent twice for a job. -/
  sentOnce : (s.sent.map fun event => event.2.1).Nodup
  bounded : s.pendingQ.count ≤ maxPending
  /-- The packets received are dropped, refused, pending, with a worker or resolved. -/
  received : ∑ i, (s.loops i).xsk.stats.rxPackets =
    ∑ i, ((s.loops i).xsk.stats.rxDropped + (s.loops i).xsk.stats.queueFull) +
      (s.pendingQ.count + ∑ w, (s.workers w).unresolved) + s.resolvedOk + s.resolvedDrop
  /-- The jobs that were answered are on their way back, transmitted or given up. -/
  resolved : s.resolvedOk =
    ∑ w, (s.workers w).returning +
        ∑ i, ((s.loops i).doneQ.count + ((p.batch i).length - p.refused i)) +
      ∑ i, ((s.loops i).xsk.stats.txPackets + (s.loops i).xsk.stats.txNoSlot +
        (s.loops i).xsk.stats.txNoFrame)
  /-- A worker takes the first pending job, also after a shutdown. -/
  taken : ∀ w answer addr, s.workers w = .waiting → s.pendingQ.head = some addr →
    ∃ s', s.step (.worker w answer) = some s' ∧ s'.workers w = .resolving addr
  /-- A worker has exited only after a shutdown, and when all pending jobs were taken. -/
  exited : ∀ w, s.workers w = .exited → s.pendingQ.shutdown = true ∧
    s.pendingQ.popped = s.pendingQ.pushed

theorem System.Sound.conserved {s : System nloops numWorkers} {p : Pipeline nloops numWorkers}
    (sound : s.Sound p) : JobsConserved s p := by
  have ⟨represents, ⟨custody, records, limits, accounts⟩, _, transmitted⟩ := sound
  have live : ∀ addr, (s.heap.read addr).isSome ↔ (p.jobs addr).isSome := by
    intro addr
    rw [← represents.jobs addr, Option.isSome_map]
    rfl
  have stats : ∀ i, p.stats i = (s.loops i).xsk.stats := fun i => (represents.loops i).stats
  have count : s.pendingQ.count = p.pending.length := represents.pending.count_eq
  constructor
  case represents => exact represents
  case place => exact fun addr alive => custody.existsUnique ((live addr).mp alive)
  case once =>
      exact fun place => ⟨custody.nodup place,
        fun addr member => (live addr).mpr (custody.live_of_mem place member)⟩
  case kept =>
      intro addr job found
      have body : p.jobs addr = some (jobLink.body job) := by
        rw [← represents.jobs addr]
        exact congrArg (Option.map jobLink.body) found
      obtain ⟨⟨i, received⟩, made, same⟩ := records.made addr _ body
      obtain ⟨packet, parsed⟩ := records.parsed (i, received) (List.mem_of_getElem? made)
      refine ⟨i, received, packet, represents.created ▸ made, parsed, ?_⟩
      exact congrArg (fun body : DnsJob => { body with next := job.next }) same
  case routed =>
      rw [represents.created]
      exact records.routed
  case transmitted => exact transmitted
  case sent =>
      rw [represents.sent, represents.created]
      intro i addr desc member
      obtain ⟨gone, job, reply, made, _, _, packet⟩ := records.sent i addr desc member
      refine ⟨?_, job, reply, made, packet⟩
      rw [← Option.not_isSome_iff_eq_none, live addr, gone]
      exact nofun
  case sentOnce =>
      rw [represents.sent]
      exact records.sentOnce
  case bounded =>
      rw [count]
      exact limits.bounded
  case received =>
      rw [count, represents.workers, represents.resolvedOk, represents.resolvedDrop]
      simp only [← stats]
      exact accounts.received
  case resolved =>
      rw [represents.workers, represents.resolvedOk]
      simp only [← stats, fun i => (represents.loops i).done.count_eq]
      exact accounts.resolved
  case taken =>
      intro w answer addr waiting head
      have chain := represents.pending.chain
      rcases represents.pop sound.pipe with
        ⟨empty, _⟩ | ⟨first, rest, pendingQ, heap, shape, popped, _⟩
      · rw [empty, head] at chain
        cases chain
      · rw [shape, head] at chain
        cases chain.1
        simp only [System.step, System.workerStep, waiting, popped, Option.bind_eq_bind,
          Option.bind_some]
        exact ⟨_, rfl, Function.update_self ..⟩
  case exited =>
      intro w exited
      rw [represents.workers] at exited
      obtain ⟨closed, empty⟩ := limits.exited w exited
      refine ⟨represents.shutdown.trans closed, ?_⟩
      rw [represents.pending.fifo, empty, List.append_nil]

/-- Every interleaving keeps the jobs: each is in one place until it is freed, comes back to the
loop that made it and is answered at most once; and the counters account for all of them. -/
theorem jobs_conserved (few : nloops ≤ maxXsks) (schedule : List (Action nloops numWorkers)) :
    ∃ s p, (System.start nloops numWorkers).bind (System.run schedule) = some s ∧
      JobsConserved s p := by
  obtain ⟨s₀, s, p, started, ran, sound, _⟩ := System.run_start few schedule
  refine ⟨s, p, ?_, sound.conserved⟩
  rw [started, Option.bind_some, ran]

theorem jobs_conserved_roundTrip :
    1 ≤ maxXsks ∧ ∃ s p, (System.start 1 1).bind (System.run roundTrip) = some s ∧
      JobsConserved s p :=
  ⟨by decide, jobs_conserved (by decide) roundTrip⟩

end FizzDns
