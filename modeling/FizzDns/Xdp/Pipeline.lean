import FizzDns.Foundation.Custody
import FizzDns.Foundation.Schedule
import FizzDns.Xdp.System

/-!
# The way of a job

`Pipeline` is what the threads do with jobs, without pointers and rings: a job waits in the
pending queue, is in the hands of a worker, waits in the done queue of the loop it came from, is
in the hands of that loop, and is freed. `PipeStep` lists how it gets from one to the next and
what is counted on the way.

`PipeOk` is what holds of every run: each job is in one place (`custody`), keeps what was
received for it, gets back to the loop it came from and is transmitted at most once; and the
counters account for all packets (`received`) and all responses (`resolved`).
-/

namespace FizzDns

open Finset

/-- The job that a worker has. -/
def WorkerPc.job : WorkerPc → List Addr
  | .resolving addr => [addr]
  | .resolved addr => [addr]
  | _ => []

/-- The jobs that a worker has not resolved yet. -/
def WorkerPc.unresolved : WorkerPc → Nat
  | .resolving _ => 1
  | _ => 0

/-- The jobs that a worker has resolved and still has. -/
def WorkerPc.returning : WorkerPc → Nat
  | .resolved _ => 1
  | _ => 0

/-- Where a job can be. -/
inductive JobPlace (nloops numWorkers : Nat)
  | pending
  | worker (w : Fin numWorkers)
  | done (i : Fin nloops)
  | batch (i : Fin nloops)

/-- The jobs and where they are. `refused` counts the jobs of a batch that were found to have no
slot or frame and are not yet freed. -/
structure Pipeline (nloops numWorkers : Nat) where
  pending : List Addr
  shutdown : Bool
  workers : Fin numWorkers → WorkerPc
  done : Fin nloops → List Addr
  batch : Fin nloops → List Addr
  refused : Fin nloops → Nat
  jobs : Addr → Option DnsJob
  created : List (Fin nloops × DnsJob)
  sent : List (Fin nloops × Addr × XdpDesc)
  stats : Fin nloops → XskStats
  resolvedOk : Nat
  resolvedDrop : Nat

/-- The counters of a loop have grown by the given amounts. -/
structure StatsGrown (before after : XskStats)
    (received dropped full transmitted noSlot noFrame : Nat) : Prop where
  rxPackets : after.rxPackets = before.rxPackets + received
  rxDropped : after.rxDropped = before.rxDropped + dropped
  queueFull : after.queueFull = before.queueFull + full
  txPackets : after.txPackets = before.txPackets + transmitted
  txNoSlot : after.txNoSlot = before.txNoSlot + noSlot
  txNoFrame : after.txNoFrame = before.txNoFrame + noFrame

variable {nloops numWorkers : Nat}

/-- How a pipeline goes on. -/
inductive PipeStep (p : Pipeline nloops numWorkers) : Pipeline nloops numWorkers → Prop
  /-- An action that does not concern the jobs. -/
  | quiet : PipeStep p p
  | dropPacket (i : Fin nloops) {stats : XskStats}
      (counted : StatsGrown (p.stats i) stats 1 1 0 0 0 0) :
      PipeStep p { p with stats := Function.update p.stats i stats }
  | accept (i : Fin nloops) {packet : Bytes} {job : DnsJob} {stats : XskStats}
      (parsed : parseFrame packet i = some job) (running : p.shutdown = false)
      (room : p.pending.length < maxPending) (counted : StatsGrown (p.stats i) stats 1 0 0 0 0 0) :
      PipeStep p
        { p with
          pending := p.pending ++ [p.created.length]
          jobs := Function.update p.jobs p.created.length (some job)
          created := p.created ++ [(i, job)]
          stats := Function.update p.stats i stats }
  | refuse (i : Fin nloops) {packet : Bytes} {job : DnsJob} {stats : XskStats}
      (parsed : parseFrame packet i = some job)
      (counted : StatsGrown (p.stats i) stats 1 0 1 0 0 0) :
      PipeStep p
        { p with
          created := p.created ++ [(i, job)]
          stats := Function.update p.stats i stats }
  | pop (w : Fin numWorkers) {addr : Addr} {rest : List Addr} (waiting : p.workers w = .waiting)
      (first : p.pending = addr :: rest) :
      PipeStep p
        { p with
          pending := rest
          workers := Function.update p.workers w (.resolving addr) }
  | exit (w : Fin numWorkers) (waiting : p.workers w = .waiting) (empty : p.pending = [])
      (closed : p.shutdown = true) :
      PipeStep p { p with workers := Function.update p.workers w .exited }
  | drop (w : Fin numWorkers) {addr : Addr} (has : p.workers w = .resolving addr) :
      PipeStep p
        { p with
          jobs := Function.update p.jobs addr none
          workers := Function.update p.workers w .waiting
          resolvedDrop := p.resolvedDrop + 1 }
  | answer (w : Fin numWorkers) {addr : Addr} {job : DnsJob} {reply : Bytes}
      (has : p.workers w = .resolving addr) (live : p.jobs addr = some job)
      (nonempty : 0 < reply.length) (fits : reply.length ≤ dnsMaxMsgLen) :
      PipeStep p
        { p with
          jobs := Function.update p.jobs addr (some { job with resp := reply })
          workers := Function.update p.workers w (.resolved addr)
          resolvedOk := p.resolvedOk + 1 }
  | give (w : Fin numWorkers) {addr : Addr} {job : DnsJob} {i : Fin nloops}
      (has : p.workers w = .resolved addr) (live : p.jobs addr = some job)
      (home : job.loopIdx.toNat = i) :
      PipeStep p
        { p with
          done := Function.update p.done i (p.done i ++ [addr])
          workers := Function.update p.workers w .waiting }
  | drain (i : Fin nloops) (empty : p.batch i = []) :
      PipeStep p
        { p with
          batch := Function.update p.batch i (p.done i)
          done := Function.update p.done i [] }
  | choose (i : Fin nloops) {stats : XskStats} {noSlot noFrame : Nat} (none : p.refused i = 0)
      (within : noSlot + noFrame ≤ (p.batch i).length)
      (counted : StatsGrown (p.stats i) stats 0 0 0 0 noSlot noFrame) :
      PipeStep p
        { p with
          refused := Function.update p.refused i (noSlot + noFrame)
          stats := Function.update p.stats i stats }
  | finish (i : Fin nloops) {now later : List Addr} {descs : List XdpDesc} {stats : XskStats}
      (split : p.batch i = now ++ later) (count : descs.length + p.refused i = now.length)
      (built : List.Forall₂ (fun addr desc => ∃ job, p.jobs addr = some job ∧
        desc.packet = buildResponseFrame job) (now.take descs.length) descs)
      (counted : StatsGrown (p.stats i) stats 0 0 0 descs.length 0 0) :
      PipeStep p
        { p with
          batch := Function.update p.batch i later
          refused := Function.update p.refused i 0
          jobs := fun addr => if addr ∈ now then Option.none else p.jobs addr
          sent := p.sent ++ (List.zip now descs).map (Prod.mk i)
          stats := Function.update p.stats i stats }
  | shutdown : PipeStep p { p with shutdown := true }

namespace Pipeline

/-- The jobs in each place. -/
def held (p : Pipeline nloops numWorkers) : JobPlace nloops numWorkers → List Addr
  | .pending => p.pending
  | .worker w => (p.workers w).job
  | .done i => p.done i
  | .batch i => p.batch i

/-- A job that has got a response. -/
def Answered (p : Pipeline nloops numWorkers) (addr : Addr) : Prop :=
  (∃ i, addr ∈ p.done i ∨ addr ∈ p.batch i) ∨ ∃ w, p.workers w = .resolved addr

end Pipeline

section

variable {p p' : Pipeline nloops numWorkers}

/-! ## Custody -/

/-- Every job is held in one place. -/
def JobCustody (p : Pipeline nloops numWorkers) : Prop :=
  Custody p.held fun addr => (p.jobs addr).isSome

/-- A worker that turns to another job leaves the other places alone. -/
private theorem held_worker_of_ne {w : Fin numWorkers} {pc : WorkerPc} {v : Fin numWorkers}
    (away : (.worker v : JobPlace nloops numWorkers) ≠ .worker w) :
    (Function.update p.workers w pc v).job = (p.workers v).job := by
  rw [Function.update_of_ne fun same => away (congrArg _ same)]

theorem PipeStep.custody (step : PipeStep p p') (custody : JobCustody p)
    (fresh : p.jobs p.created.length = none) : JobCustody p' := by
  unfold JobCustody at custody ⊢
  cases step with
  | quiet | dropPacket _ _ | refuse _ _ _ | choose _ _ _ _ | shutdown => exact custody
  | accept i parsed running room counted =>
      refine custody.add .pending [p.created.length] (List.nodup_singleton _) ?_
        List.perm_append_comm ?_ ?_
      · simp [fresh]
      · rintro (_ | _ | _ | _) away
        · exact absurd rfl away
        all_goals rfl
      · intro addr
        by_cases same : addr = p.created.length <;> simp [Function.update, same]
  | @pop w addr rest waiting first =>
      refine custody.move .pending (.worker w) [addr] nofun ?_ ?_ ?_
      · exact List.Perm.of_eq first
      · simp [Pipeline.held, WorkerPc.job, waiting]
      · rintro (_ | v | _ | _) notSource notTarget
        · exact absurd rfl notSource
        · exact held_worker_of_ne notTarget
        all_goals rfl
  | exit w waiting empty closed =>
      refine custody.reorder ?_
      rintro (_ | v | _ | _)
      · exact List.Perm.refl _
      · by_cases same : v = w
        · subst same
          simp [Pipeline.held, WorkerPc.job, waiting]
        · simp [Pipeline.held, Function.update_of_ne same]
      all_goals exact List.Perm.refl _
  | @drop w addr has =>
      refine custody.take (.worker w) [addr] ?_ ?_ ?_
      · simp [Pipeline.held, WorkerPc.job, has]
      · rintro (_ | v | _ | _) away
        · rfl
        · exact held_worker_of_ne away
        all_goals rfl
      · intro other
        by_cases same : other = addr <;> simp [Function.update, same]
  | @answer w addr job reply has live nonempty fits =>
      have alive : (fun other => (Function.update p.jobs addr (some { job with resp := reply })
          other).isSome = true) = fun other => (p.jobs other).isSome = true := by
        funext other
        by_cases same : other = addr
        · simp [same, live]
        · simp [Function.update_of_ne same]
      simp only [alive]
      refine custody.reorder ?_
      rintro (_ | v | _ | _)
      · exact List.Perm.refl _
      · by_cases same : v = w
        · subst same
          simp [Pipeline.held, WorkerPc.job, has]
        · simp [Pipeline.held, Function.update_of_ne same]
      all_goals exact List.Perm.refl _
  | @give w addr job i has live home =>
      refine custody.move (.worker w) (.done i) [addr] nofun ?_ ?_ ?_
      · simp [Pipeline.held, WorkerPc.job, has]
      · simp [Pipeline.held]
      · rintro (_ | v | j | _) notSource notTarget
        · rfl
        · exact held_worker_of_ne notSource
        · exact Function.update_of_ne (fun same => notTarget (congrArg _ same)) _ _
        · rfl
  | drain i empty =>
      refine custody.move (.done i) (.batch i) (p.done i) nofun ?_ ?_ ?_
      · simp [Pipeline.held]
      · simp [Pipeline.held, empty]
      · rintro (_ | _ | j | j) notSource notTarget
        · rfl
        · rfl
        · exact Function.update_of_ne (fun same => notSource (congrArg _ same)) _ _
        · exact Function.update_of_ne (fun same => notTarget (congrArg _ same)) _ _
  | @finish i now later descs stats split count built counted =>
      refine custody.take (.batch i) now ?_ ?_ ?_
      · simp [Pipeline.held, split]
      · rintro (_ | _ | _ | j) away
        · rfl
        · rfl
        · rfl
        · exact Function.update_of_ne (fun same => away (congrArg _ same)) _ _
      · intro addr
        by_cases member : addr ∈ now <;> simp [member]

/-! ## Records -/

/-- What is known of the jobs: they keep what was received for them, those on their way back
have a response and are with the loop that they came from, and those transmitted are gone. -/
structure JobRecords (p : Pipeline nloops numWorkers) : Prop where
  parsed : ∀ entry ∈ p.created, ∃ packet, parseFrame packet entry.1 = some entry.2
  made : ∀ addr job, p.jobs addr = some job → ∃ entry, p.created[addr]? = some entry ∧
    job = { entry.2 with resp := job.resp }
  routed : ∀ i addr, addr ∈ p.done i ∨ addr ∈ p.batch i → ∃ job, p.created[addr]? = some (i, job)
  answered : ∀ addr job, p.jobs addr = some job → p.Answered addr →
    0 < job.resp.length ∧ job.resp.length ≤ dnsMaxMsgLen
  sent : ∀ i addr desc, (i, addr, desc) ∈ p.sent → p.jobs addr = none ∧
    ∃ job reply, p.created[addr]? = some (i, job) ∧ 0 < reply.length ∧
      reply.length ≤ dnsMaxMsgLen ∧ desc.packet = buildResponseFrame { job with resp := reply }
  sentOnce : (p.sent.map fun event => event.2.1).Nodup

theorem JobRecords.fresh (records : JobRecords p) : p.jobs p.created.length = none := by
  cases live : p.jobs p.created.length with
  | none => rfl
  | some job =>
      obtain ⟨entry, found, _⟩ := records.made _ job live
      rw [List.getElem?_eq_none (Nat.le_refl _)] at found
      cases found

theorem Pipeline.Answered.live {addr : Addr} (answered : p.Answered addr)
    (custody : JobCustody p) : (p.jobs addr).isSome := by
  rcases answered with ⟨i, done | batch⟩ | ⟨w, resolved⟩
  · exact custody.live_of_mem (.done i) done
  · exact custody.live_of_mem (.batch i) batch
  · apply custody.live_of_mem (.worker w)
    simp [Pipeline.held, WorkerPc.job, resolved]

private theorem getElem?_append_some {α : Type} {list more : List α} {index : Nat} {item : α}
    (found : list[index]? = some item) : (list ++ more)[index]? = some item := by
  rw [List.getElem?_append_left (List.getElem?_eq_some_iff.mp found).1]
  exact found

/-- The job of a worker knows the loop that it came from. -/
theorem JobRecords.home (records : JobRecords p) (few : nloops ≤ maxXsks) {addr : Addr}
    {job : DnsJob} (live : p.jobs addr = some job) :
    ∃ entry, p.created[addr]? = some entry ∧ job.loopIdx.toNat = entry.1 := by
  obtain ⟨entry, found, same⟩ := records.made addr job live
  obtain ⟨packet, parsed⟩ := records.parsed entry (List.mem_of_getElem? found)
  have index : job.loopIdx = UInt8.ofNat entry.1 := by
    rw [same]
    exact (parseFrame_some parsed).2.1
  refine ⟨entry, found, ?_⟩
  have small := entry.1.isLt
  rw [maxXsks] at few
  rw [index, UInt8.toNat_ofNat']
  omega

/-- A step that makes no new job and answers none keeps the records. -/
theorem JobRecords.shrink (records : JobRecords p) (extra : List (Fin nloops × DnsJob))
    (created : p'.created = p.created ++ extra)
    (parsed : ∀ entry ∈ extra, ∃ packet, parseFrame packet entry.1 = some entry.2)
    (jobs : ∀ addr job, p'.jobs addr = some job → p.jobs addr = some job)
    (back : ∀ i addr, addr ∈ p'.done i ∨ addr ∈ p'.batch i → addr ∈ p.done i ∨ addr ∈ p.batch i)
    (answered : ∀ addr, p'.Answered addr → p.Answered addr) (sent : p'.sent = p.sent) :
    JobRecords p' := by
  constructor
  case parsed =>
      rw [created]
      intro entry member
      rcases List.mem_append.mp member with old | new
      · exact records.parsed entry old
      · exact parsed entry new
  case made =>
      intro addr job live
      obtain ⟨entry, found, same⟩ := records.made addr job (jobs addr job live)
      exact ⟨entry, created ▸ getElem?_append_some found, same⟩
  case routed =>
      intro i addr there
      obtain ⟨job, found⟩ := records.routed i addr (back i addr there)
      exact ⟨job, created ▸ getElem?_append_some found⟩
  case answered =>
      intro addr job live reached
      exact records.answered addr job (jobs addr job live) (answered addr reached)
  case sent =>
      rw [sent]
      intro i addr desc event
      obtain ⟨gone, job, reply, found, rest⟩ := records.sent i addr desc event
      refine ⟨?_, job, reply, created ▸ getElem?_append_some found, rest⟩
      cases live : p'.jobs addr with
      | none => rfl
      | some other =>
          rw [jobs addr other live] at gone
          cases gone
  case sentOnce =>
      rw [sent]
      exact records.sentOnce

/-- A worker that is not handing a job back has answered none. -/
private theorem answered_of_update (p : Pipeline nloops numWorkers) (w : Fin numWorkers)
    (pc : WorkerPc) {addr : Addr} (other : pc ≠ .resolved addr)
    (answered : (∃ i, addr ∈ p.done i ∨ addr ∈ p.batch i) ∨
      ∃ v, Function.update p.workers w pc v = .resolved addr) : p.Answered addr := by
  refine answered.imp_right ?_
  rintro ⟨v, resolved⟩
  by_cases same : v = w
  · subst same
    rw [Function.update_self] at resolved
    exact absurd resolved other
  · exact ⟨v, by rwa [Function.update_of_ne same] at resolved⟩

/-- A job that is accepted is a new one. -/
theorem JobRecords.accept (records : JobRecords p) (custody : JobCustody p) {i : Fin nloops}
    {packet : Bytes} {job : DnsJob} (stats : XskStats)
    (parses : parseFrame packet i = some job) :
    JobRecords
      { p with
        pending := p.pending ++ [p.created.length]
        jobs := Function.update p.jobs p.created.length (some job)
        created := p.created ++ [(i, job)]
        stats := Function.update p.stats i stats } := by
  have ⟨parsed, made, routed, answered, sent, sentOnce⟩ := records
  refine ⟨?_, ?_, ?_, ?_, ?_, sentOnce⟩
  · rintro entry member
    rcases List.mem_append.mp member with old | new
    · exact parsed entry old
    · rw [List.mem_singleton] at new
      exact ⟨packet, new ▸ parses⟩
  · intro addr other live
    by_cases same : addr = p.created.length
    · subst same
      simp only [Function.update_self, Option.some.injEq] at live
      subst live
      exact ⟨(i, job), by simp, rfl⟩
    · simp only [Function.update_of_ne same] at live
      obtain ⟨entry, found, equal⟩ := made addr other live
      exact ⟨entry, getElem?_append_some found, equal⟩
  · intro j addr there
    obtain ⟨origin, found⟩ := routed j addr there
    exact ⟨origin, getElem?_append_some found⟩
  · intro addr other live reached
    have same : addr ≠ p.created.length := by
      rintro rfl
      have alive := @Pipeline.Answered.live _ _ p _ reached custody
      rw [records.fresh] at alive
      cases alive
    simp only [Function.update_of_ne same] at live
    exact answered addr other live reached
  · intro j addr desc event
    obtain ⟨gone, origin, reply, found, rest⟩ := sent j addr desc event
    have same : addr ≠ p.created.length := by
      rintro rfl
      rw [List.getElem?_eq_none (Nat.le_refl _)] at found
      cases found
    simp only [Function.update_of_ne same]
    exact ⟨gone, origin, reply, getElem?_append_some found, rest⟩

/-- A response is stored in the job of a worker. -/
theorem JobRecords.answer (records : JobRecords p) {w : Fin numWorkers} {addr : Addr}
    {job : DnsJob} {reply : Bytes} (live : p.jobs addr = some job)
    (nonempty : 0 < reply.length) (fits : reply.length ≤ dnsMaxMsgLen) :
    JobRecords
      { p with
        jobs := Function.update p.jobs addr (some { job with resp := reply })
        workers := Function.update p.workers w (.resolved addr)
        resolvedOk := p.resolvedOk + 1 } := by
  have ⟨parsed, made, routed, answered, sent, sentOnce⟩ := records
  refine ⟨parsed, ?_, routed, ?_, ?_, sentOnce⟩
  · intro other found alive
    by_cases same : other = addr
    · subst same
      simp only [Function.update_self, Option.some.injEq] at alive
      subst alive
      obtain ⟨entry, origin, equal⟩ := made other job live
      refine ⟨entry, origin, ?_⟩
      rw [equal]
    · exact made other found (by simpa [Function.update_of_ne same] using alive)
  · intro other found alive reached
    by_cases same : other = addr
    · subst same
      simp only [Function.update_self, Option.some.injEq] at alive
      subst alive
      exact ⟨nonempty, fits⟩
    · refine answered other found (by simpa [Function.update_of_ne same] using alive) ?_
      exact answered_of_update p w (.resolved addr) (by simpa using Ne.symm same) reached
  · intro i other desc event
    obtain ⟨gone, rest⟩ := sent i other desc event
    have same : other ≠ addr := by
      rintro rfl
      rw [live] at gone
      cases gone
    exact ⟨by simpa [Function.update_of_ne same] using gone, rest⟩

/-- A job that is handed back goes to the loop that made it. -/
theorem JobRecords.give (records : JobRecords p) (few : nloops ≤ maxXsks) {w : Fin numWorkers}
    {addr : Addr} {job : DnsJob} {i : Fin nloops} (has : p.workers w = .resolved addr)
    (live : p.jobs addr = some job) (home : job.loopIdx.toNat = i) :
    JobRecords
      { p with
        done := Function.update p.done i (p.done i ++ [addr])
        workers := Function.update p.workers w .waiting } := by
  have ⟨parsed, made, routed, answered, sent, sentOnce⟩ := records
  refine ⟨parsed, made, ?_, ?_, sent, sentOnce⟩
  · intro j other there
    by_cases same : j = i
    · subst same
      simp only [Function.update_self, List.mem_append, List.mem_singleton] at there
      rcases there with (old | rfl) | batch
      · exact routed j other (Or.inl old)
      · obtain ⟨entry, found, index⟩ := records.home few live
        refine ⟨entry.2, ?_⟩
        rw [found, ← Fin.ext (index.symm.trans home)]
      · exact routed j other (Or.inr batch)
    · simp only [Function.update_of_ne same] at there
      exact routed j other there
  · intro other found alive reached
    refine answered other found alive ?_
    rcases reached with ⟨j, there⟩ | resolved
    · by_cases same : j = i
      · subst same
        simp only [Function.update_self, List.mem_append, List.mem_singleton] at there
        rcases there with (old | rfl) | batch
        · exact Or.inl ⟨j, Or.inl old⟩
        · exact Or.inr ⟨w, has⟩
        · exact Or.inl ⟨j, Or.inr batch⟩
      · simp only [Function.update_of_ne same] at there
        exact Or.inl ⟨j, there⟩
    · exact answered_of_update p w .waiting nofun (Or.inr resolved)

/-- Jobs that are through are freed, and the first of them transmitted. -/
theorem JobRecords.finish (records : JobRecords p) (custody : JobCustody p) {i : Fin nloops}
    {now later : List Addr} {descs : List XdpDesc} (stats : XskStats)
    (split : p.batch i = now ++ later) (count : descs.length + p.refused i = now.length)
    (built : List.Forall₂ (fun addr desc => ∃ job, p.jobs addr = some job ∧
      desc.packet = buildResponseFrame job) (now.take descs.length) descs) :
    JobRecords
      { p with
        batch := Function.update p.batch i later
        refused := Function.update p.refused i 0
        jobs := fun addr => if addr ∈ now then Option.none else p.jobs addr
        sent := p.sent ++ (List.zip now descs).map (Prod.mk i)
        stats := Function.update p.stats i stats } := by
  have ⟨parsed, made, routed, answered, sent, sentOnce⟩ := records
  have inBatch : ∀ addr ∈ now, addr ∈ p.batch i := by
    intro addr member
    rw [split]
    exact List.mem_append_left _ member
  have pairs : List.zip now descs = List.zip (now.take descs.length) descs := by
    rw [List.zip_eq_zip_take_min, Nat.min_eq_right (by omega), List.take_length]
  have back : ∀ j addr, addr ∈ p.done j ∨ addr ∈ Function.update p.batch i later j →
      addr ∈ p.done j ∨ addr ∈ p.batch j := by
    intro j addr there
    by_cases same : j = i
    · subst same
      rw [Function.update_self] at there
      refine there.imp_right fun member => ?_
      rw [split]
      exact List.mem_append_right _ member
    · rwa [Function.update_of_ne same] at there
  have left : ∀ addr job, (if addr ∈ now then none else p.jobs addr) = some job →
      p.jobs addr = some job := by
    intro addr job live
    split at live
    · cases live
    · exact live
  constructor
  case parsed => exact parsed
  case made => exact fun addr job live => made addr job (left addr job live)
  case routed => exact fun j addr there => routed j addr (back j addr there)
  case answered =>
      intro addr job live reached
      refine answered addr job (left addr job live) (reached.imp_left ?_)
      exact fun ⟨j, there⟩ => ⟨j, back j addr there⟩
  case sent =>
      intro j addr desc event
      rcases List.mem_append.mp event with old | new
      · obtain ⟨gone, rest⟩ := sent j addr desc old
        exact ⟨by simp [gone], rest⟩
      · obtain ⟨pair, member, same⟩ := List.mem_map.mp new
        cases same
        rw [pairs] at member
        have listed : addr ∈ now := List.mem_of_mem_take (List.of_mem_zip member).1
        obtain ⟨job, live, packet⟩ := (List.forall₂_iff_zip.mp built).2 member
        obtain ⟨origin, found⟩ := routed i addr (Or.inr (inBatch addr listed))
        obtain ⟨entry, found', equal⟩ := made addr job live
        rw [found] at found'
        cases found'
        obtain ⟨nonempty, fits⟩ :=
          answered addr job live (Or.inl ⟨i, Or.inr (inBatch addr listed)⟩)
        exact ⟨if_pos listed, origin, job.resp, found, nonempty, fits, equal ▸ packet⟩
  case sentOnce =>
      have nodup : now.Nodup := by
        have whole := custody.nodup (.batch i)
        simp only [Pipeline.held, split] at whole
        exact (List.nodup_append.mp whole).1
      have firsts : (List.zip now descs).map (fun pair => pair.1) = now.take descs.length := by
        rw [pairs]
        exact List.map_fst_zip (by rw [List.length_take]; omega)
      rw [List.map_append, List.map_map]
      change (_ ++ (List.zip now descs).map fun pair => pair.1).Nodup
      rw [firsts]
      refine List.nodup_append.mpr ⟨sentOnce, nodup.sublist (List.take_sublist _ _), ?_⟩
      rintro addr old _ new rfl
      obtain ⟨⟨j, other, desc⟩, event, rfl⟩ := List.mem_map.mp old
      have gone := (sent j other desc event).1
      have alive := custody.live_of_mem (.batch i) (inBatch other (List.mem_of_mem_take new))
      rw [gone] at alive
      cases alive

theorem PipeStep.records (step : PipeStep p p') (few : nloops ≤ maxXsks) (custody : JobCustody p)
    (records : JobRecords p) : JobRecords p' := by
  cases step with
  | quiet => exact records
  | dropPacket _ _ | choose _ _ _ _ | shutdown =>
      obtain ⟨parsed, made, routed, answered, sent, sentOnce⟩ := records
      exact ⟨parsed, made, routed, answered, sent, sentOnce⟩
  | @accept i packet job stats parses running room counted =>
      exact records.accept custody stats parses
  | @refuse i packet job stats parses counted =>
      refine records.shrink [(i, job)] rfl ?_ (fun _ _ => id) (fun _ _ => id) (fun _ => id) rfl
      intro entry member
      rw [List.mem_singleton] at member
      exact ⟨packet, member ▸ parses⟩
  | @pop w addr rest waiting first =>
      exact records.shrink [] (List.append_nil _).symm nofun (fun _ _ => id) (fun _ _ => id)
        (fun _ => answered_of_update p w (.resolving addr) nofun) rfl
  | exit w waiting empty closed =>
      exact records.shrink [] (List.append_nil _).symm nofun (fun _ _ => id) (fun _ _ => id)
        (fun _ => answered_of_update p w .exited nofun) rfl
  | @drop w addr has =>
      refine records.shrink [] (List.append_nil _).symm nofun ?_ (fun _ _ => id)
        (fun _ => answered_of_update p w .waiting nofun) rfl
      intro other job live
      by_cases same : other = addr
      · simp [same] at live
      · simpa [Function.update_of_ne same] using live
  | @answer w addr job reply has live nonempty fits => exact records.answer live nonempty fits
  | @give w addr job i has live home => exact records.give few has live home
  | drain i empty =>
      have back : ∀ j addr, addr ∈ Function.update p.done i [] j ∨
          addr ∈ Function.update p.batch i (p.done i) j → addr ∈ p.done j ∨ addr ∈ p.batch j := by
        intro j addr there
        by_cases same : j = i
        · subst same
          simp only [Function.update_self, List.not_mem_nil, false_or] at there
          exact Or.inl there
        · simpa only [Function.update_of_ne same] using there
      refine records.shrink [] (List.append_nil _).symm nofun (fun _ _ => id) back ?_ rfl
      rintro addr (⟨j, there⟩ | resolved)
      · exact Or.inl ⟨j, back j addr there⟩
      · exact Or.inr resolved
  | @finish i now later descs stats split count built counted =>
      exact records.finish custody stats split count built

/-! ## Limits -/

/-- How many jobs can be where. -/
structure JobLimits (p : Pipeline nloops numWorkers) : Prop where
  bounded : p.pending.length ≤ maxPending
  refused : ∀ i, p.refused i ≤ (p.batch i).length
  exited : ∀ w, p.workers w = .exited → p.shutdown = true ∧ p.pending = []

/-- A worker that goes on has not exited. -/
private theorem exited_of_update (p : Pipeline nloops numWorkers) (w : Fin numWorkers)
    (pc : WorkerPc) {v : Fin numWorkers} (running : pc ≠ .exited)
    (exited : Function.update p.workers w pc v = .exited) :
    p.workers v = .exited := by
  by_cases same : v = w
  · subst same
    rw [Function.update_self] at exited
    exact absurd exited running
  · rwa [Function.update_of_ne same] at exited

/-- The jobs in the hands of another loop are not concerned. -/
private theorem refused_of_update {i : Fin nloops} {count : Nat} {jobs : List Addr}
    {refused : Fin nloops → Nat} {batch : Fin nloops → List Addr} (here : count ≤ jobs.length)
    (others : ∀ j, refused j ≤ (batch j).length) (j : Fin nloops) :
    Function.update refused i count j ≤ (Function.update batch i jobs j).length := by
  by_cases same : j = i
  · subst same
    rw [Function.update_self, Function.update_self]
    exact here
  · rw [Function.update_of_ne same, Function.update_of_ne same]
    exact others j

theorem PipeStep.limits (step : PipeStep p p') (limits : JobLimits p) : JobLimits p' := by
  have ⟨bounded, refused, exited⟩ := limits
  cases step with
  | quiet | dropPacket _ _ | refuse _ _ _ => exact ⟨bounded, refused, exited⟩
  | accept i parsed running room counted =>
      refine ⟨?_, refused, fun w gone => ?_⟩
      · rw [List.length_append, List.length_singleton]
        exact room
      · rw [(exited w gone).1] at running
        cases running
  | @pop w addr rest waiting first =>
      rw [first, List.length_cons] at bounded
      refine ⟨Nat.le_of_succ_le bounded, refused, fun v gone => ?_⟩
      have empty := (exited v (exited_of_update p w (.resolving addr) nofun gone)).2
      rw [first] at empty
      cases empty
  | exit w waiting empty closed => exact ⟨bounded, refused, fun _ _ => ⟨closed, empty⟩⟩
  | drop w has =>
      exact ⟨bounded, refused, fun v gone => exited v (exited_of_update p w .waiting nofun gone)⟩
  | @answer w addr job reply has live nonempty fits =>
      exact ⟨bounded, refused,
        fun v gone => exited v (exited_of_update p w (.resolved addr) nofun gone)⟩
  | give w has live home =>
      exact ⟨bounded, refused, fun v gone => exited v (exited_of_update p w .waiting nofun gone)⟩
  | drain i empty =>
      have none := refused i
      rw [empty] at none
      refine ⟨bounded, fun j => ?_, exited⟩
      rw [← Function.update_eq_self i p.refused]
      exact refused_of_update (none.trans (Nat.zero_le _)) refused j
  | choose i none within counted =>
      refine ⟨bounded, fun j => ?_, exited⟩
      rw [← Function.update_eq_self i p.batch]
      exact refused_of_update within refused j
  | finish i split count built counted =>
      exact ⟨bounded, refused_of_update (Nat.zero_le _) refused, exited⟩
  | shutdown => exact ⟨bounded, refused, fun w gone => ⟨rfl, (exited w gone).2⟩⟩

/-! ## Accounts -/

/-- The jobs that have a response which is not yet on its way: with a worker, in a done queue,
or in the hands of a loop and not refused. -/
def Pipeline.awaiting (p : Pipeline nloops numWorkers) : Nat :=
  ∑ w, (p.workers w).returning + ∑ i, ((p.done i).length + ((p.batch i).length - p.refused i))

/-- The counters account for every packet and every response. -/
structure JobAccounts (p : Pipeline nloops numWorkers) : Prop where
  received : ∑ i, (p.stats i).rxPackets =
    ∑ i, ((p.stats i).rxDropped + (p.stats i).queueFull) +
      (p.pending.length + ∑ w, (p.workers w).unresolved) + p.resolvedOk + p.resolvedDrop
  resolved : p.resolvedOk = p.awaiting +
    ∑ i, ((p.stats i).txPackets + (p.stats i).txNoSlot + (p.stats i).txNoFrame)

/-- The sums of the counters when those of one loop have grown. -/
private theorem sum_statsGrown (p : Pipeline nloops numWorkers) {i : Fin nloops} {stats : XskStats}
    {received dropped full transmitted noSlot noFrame : Nat}
    (counted : StatsGrown (p.stats i) stats received dropped full transmitted noSlot noFrame) :
    ∑ j, (Function.update p.stats i stats j).rxPackets =
        ∑ j, (p.stats j).rxPackets + received ∧
      ∑ j, ((Function.update p.stats i stats j).rxDropped +
          (Function.update p.stats i stats j).queueFull) =
        ∑ j, ((p.stats j).rxDropped + (p.stats j).queueFull) + (dropped + full) ∧
      ∑ j, ((Function.update p.stats i stats j).txPackets +
          (Function.update p.stats i stats j).txNoSlot +
          (Function.update p.stats i stats j).txNoFrame) =
        ∑ j, ((p.stats j).txPackets + (p.stats j).txNoSlot + (p.stats j).txNoFrame) +
          (transmitted + noSlot + noFrame) := by
  have packets := Schedule.sum_weight_update XskStats.rxPackets p.stats i stats
  have losses := Schedule.sum_weight_update (fun stats => stats.rxDropped + stats.queueFull)
    p.stats i stats
  have sends := Schedule.sum_weight_update
    (fun stats => stats.txPackets + stats.txNoSlot + stats.txNoFrame) p.stats i stats
  obtain ⟨rxPackets, rxDropped, queueFull, txPackets, txNoSlot, txNoFrame⟩ := counted
  omega

/-- The sums over the workers when one has turned to something else. -/
private theorem sum_workers (p : Pipeline nloops numWorkers) (w : Fin numWorkers) (pc : WorkerPc) :
    ∑ v, (Function.update p.workers w pc v).unresolved + (p.workers w).unresolved =
        ∑ v, (p.workers v).unresolved + pc.unresolved ∧
      ∑ v, (Function.update p.workers w pc v).returning + (p.workers w).returning =
        ∑ v, (p.workers v).returning + pc.returning :=
  ⟨Schedule.sum_weight_update WorkerPc.unresolved p.workers w pc,
    Schedule.sum_weight_update WorkerPc.returning p.workers w pc⟩

/-- The sum over the loops' jobs when one loop's have changed. -/
private theorem sum_jobs (p : Pipeline nloops numWorkers) (i : Fin nloops)
    (done batch : List Addr) (refused : Nat) :
    ∑ j, ((Function.update p.done i done j).length +
        ((Function.update p.batch i batch j).length - Function.update p.refused i refused j)) +
        ((p.done i).length + ((p.batch i).length - p.refused i)) =
      ∑ j, ((p.done j).length + ((p.batch j).length - p.refused j)) +
        (done.length + (batch.length - refused)) := by
  have moved := Schedule.sum_weight_update
    (fun hands : List Addr × List Addr × Nat => hands.1.length + (hands.2.1.length - hands.2.2))
    (fun j => (p.done j, p.batch j, p.refused j)) i (done, batch, refused)
  have apart : ∀ j, Function.update (fun j => (p.done j, p.batch j, p.refused j)) i
      (done, batch, refused) j = (Function.update p.done i done j,
        Function.update p.batch i batch j, Function.update p.refused i refused j) := by
    intro j
    by_cases same : j = i
    · subst same
      simp only [Function.update_self]
    · simp only [Function.update_of_ne same]
  simpa only [apart] using moved

theorem PipeStep.accounts (step : PipeStep p p') (limits : JobLimits p)
    (accounts : JobAccounts p) : JobAccounts p' := by
  have ⟨received, resolved⟩ := accounts
  unfold Pipeline.awaiting at resolved
  cases step with
  | quiet | shutdown => exact ⟨received, accounts.resolved⟩
  | dropPacket i counted =>
      obtain ⟨packets, losses, sends⟩ := sum_statsGrown p counted
      constructor <;> simp only [Pipeline.awaiting] <;> omega
  | accept i parsed running room counted =>
      obtain ⟨packets, losses, sends⟩ := sum_statsGrown p counted
      constructor <;>
        simp only [Pipeline.awaiting, List.length_append, List.length_singleton] <;> omega
  | refuse i parsed counted =>
      obtain ⟨packets, losses, sends⟩ := sum_statsGrown p counted
      constructor <;> simp only [Pipeline.awaiting] <;> omega
  | @pop w addr rest waiting first =>
      obtain ⟨unresolved, returning⟩ := sum_workers p w (.resolving addr)
      rw [waiting] at unresolved returning
      rw [first, List.length_cons] at received
      change _ + 0 = _ + 1 at unresolved
      change _ + 0 = _ + 0 at returning
      constructor <;> simp only [Pipeline.awaiting] <;> omega
  | exit w waiting empty closed =>
      obtain ⟨unresolved, returning⟩ := sum_workers p w .exited
      rw [waiting] at unresolved returning
      change _ + 0 = _ + 0 at unresolved
      change _ + 0 = _ + 0 at returning
      constructor <;> simp only [Pipeline.awaiting] <;> omega
  | drop w has =>
      obtain ⟨unresolved, returning⟩ := sum_workers p w .waiting
      rw [has] at unresolved returning
      change _ + 1 = _ + 0 at unresolved
      change _ + 0 = _ + 0 at returning
      constructor <;> simp only [Pipeline.awaiting] <;> omega
  | @answer w addr job reply has live nonempty fits =>
      obtain ⟨unresolved, returning⟩ := sum_workers p w (.resolved addr)
      rw [has] at unresolved returning
      change _ + 1 = _ + 0 at unresolved
      change _ + 0 = _ + 1 at returning
      constructor <;> simp only [Pipeline.awaiting] <;> omega
  | @give w addr job i has live home =>
      obtain ⟨unresolved, returning⟩ := sum_workers p w .waiting
      rw [has] at unresolved returning
      change _ + 0 = _ + 0 at unresolved
      change _ + 1 = _ + 0 at returning
      have jobs := sum_jobs p i (p.done i ++ [addr]) (p.batch i) (p.refused i)
      rw [Function.update_eq_self, Function.update_eq_self, List.length_append,
        List.length_singleton] at jobs
      constructor <;> simp only [Pipeline.awaiting] <;> omega
  | drain i empty =>
      have none := limits.refused i
      have jobs := sum_jobs p i [] (p.done i) (p.refused i)
      rw [empty, List.length_nil] at none
      rw [Function.update_eq_self i p.refused, empty, List.length_nil] at jobs
      constructor
      · exact received
      · simp only [Pipeline.awaiting]
        omega
  | @choose i stats noSlot noFrame none within counted =>
      obtain ⟨packets, losses, sends⟩ := sum_statsGrown p counted
      have jobs := sum_jobs p i (p.done i) (p.batch i) (noSlot + noFrame)
      rw [Function.update_eq_self, Function.update_eq_self, none] at jobs
      constructor <;> simp only [Pipeline.awaiting] <;> omega
  | @finish i now later descs stats split count built counted =>
      obtain ⟨packets, losses, sends⟩ := sum_statsGrown p counted
      have jobs := sum_jobs p i (p.done i) later 0
      rw [Function.update_eq_self, split, List.length_append] at jobs
      constructor <;> simp only [Pipeline.awaiting] <;> omega

/-- What holds of a pipeline in every run. -/
structure PipeOk (p : Pipeline nloops numWorkers) : Prop where
  custody : JobCustody p
  records : JobRecords p
  limits : JobLimits p
  accounts : JobAccounts p

theorem PipeStep.ok (step : PipeStep p p') (few : nloops ≤ maxXsks) (ok : PipeOk p) : PipeOk p' :=
  ⟨step.custody ok.custody ok.records.fresh, step.records few ok.custody ok.records,
    step.limits ok.limits, step.accounts ok.limits ok.accounts⟩

/-- The jobs that were transmitted stay on record. -/
theorem PipeStep.sent_subset (step : PipeStep p p') : p.sent ⊆ p'.sent := by
  cases step with
  | finish i split count built counted => exact List.subset_append_left _ _
  | _ => exact fun _ member => member

end

end FizzDns
