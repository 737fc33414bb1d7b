import FizzDns.Xdp.JobQueue
import FizzDns.Xdp.Socket

/-!
# The packet path

The threads of `af_xdp_user.c`: one loop thread for each socket, which receives queries and
transmits responses, and workers that answer the queries. They share the heap of jobs, the
pending queue and two counters; a worker and a loop thread share the loop's done queue. The
kernel is on the other side of each socket's rings.

`System.step` is one action of one of them, and `System.run` any interleaving. What a thread
does between two accesses to shared state is one action: an operation on a queue, or one on a
ring. A loop thread can make its three calls in any order (`drain_rx`, `drain_done_and_tx`,
`reclaim_tx`), which covers both `loop_main` and the end of `main`. A result of `none` stands
for a failed assertion or an access to memory that is not allocated.
-/

namespace FizzDns

/-- `MAX_XSKS`. -/
def maxXsks : Nat := 16

/-- `MAX_PENDING`. -/
def maxPending : Nat := 4096

/-- Where a loop thread is in its calls, with the local variables it still needs. -/
inductive LoopPc
  /-- Between two calls. -/
  | idle
  /-- In the loop of `drain_rx`, with the descriptors it has not come to. -/
  | rx (left : List XdpDesc) (rcvd : Nat)
  /-- At the start of `refill_fq`. -/
  | refill (n : Nat)
  /-- In `refill_fq`, before the reservation. -/
  | reserveFill (n : Nat)
  /-- In `drain_done_and_tx`, filling a batch from the list. -/
  | collect (list : Option Addr) (batch : List Addr)
  /-- In `drain_done_and_tx`, before the reservation for a batch. -/
  | send (list : Option Addr) (batch : List Addr) (want : Nat)
  /-- In the loop of `reclaim_tx`, with the addresses it has not come to. -/
  | reclaim (left : List UInt64) (completed : Nat)

/-- `struct loop_ctx`, as far as its thread uses it. -/
structure LoopCtx where
  xsk : XskSocketInfo
  doneQ : JobQueue
  pc : LoopPc

/-- Where a worker is in `worker_main`. -/
inductive WorkerPc
  /-- In `queue_pop_wait`. -/
  | waiting
  /-- In `dns_resolve_query`. -/
  | resolving (job : Addr)
  /-- With the response in the job, before it is pushed. -/
  | resolved (job : Addr)
  | exited

/-- The threads and what they share. `created` records every job with the loop that made it,
and `sent` what was put on a TX ring for which job; no action reads them. Nor does one read the
counters, which are of 64 bits in the source and hold these numbers modulo `2 ^ 64`. -/
structure System (nloops numWorkers : Nat) where
  heap : Heap DnsJob
  pendingQ : JobQueue
  loops : Fin nloops → LoopCtx
  workers : Fin numWorkers → WorkerPc
  resolvedOk : Nat
  resolvedDrop : Nat
  created : List (Fin nloops × DnsJob)
  sent : List (Fin nloops × Addr × XdpDesc)

/-- What `dns_resolve_query` can leave for a worker: nothing (`DNS_DROP`), or a response that
fits the buffer. -/
abbrev Answer : Type := Option { reply : Bytes // reply.length ≤ dnsMaxMsgLen }

/-- A packet is counted. -/
def XskStats.received (stats : XskStats) (packet : Bytes) : XskStats :=
  { stats with rxPackets := stats.rxPackets + 1, rxBytes := stats.rxBytes + packet.length }

/-- Packets that are put on the TX ring are counted. -/
def XskStats.transmitted (stats : XskStats) (count : Nat) (descs : List XdpDesc) : XskStats :=
  { stats with
    txPackets := stats.txPackets + count
    txBytes := stats.txBytes + (descs.map fun desc => desc.packet.length).sum }

namespace System

variable {nloops numWorkers : Nat}

/-- Replace the context of a loop. -/
def setLoop (i : Fin nloops) (lp : LoopCtx) (s : System nloops numWorkers) :
    System nloops numWorkers :=
  { s with loops := Function.update s.loops i lp }

/-- Replace the socket of a loop and move its thread on. -/
def setXsk (i : Fin nloops) (xsk : XskSocketInfo) (pc : LoopPc) (s : System nloops numWorkers) :
    System nloops numWorkers :=
  s.setLoop i { s.loops i with xsk := xsk, pc := pc }

/-- Replace the counters of a loop. -/
def setStats (i : Fin nloops) (stats : XskStats) (s : System nloops numWorkers) :
    System nloops numWorkers :=
  s.setXsk i { (s.loops i).xsk with stats := stats } (s.loops i).pc

/-! ## Receiving -/

/-- The start of `drain_rx`. -/
def drainRx (i : Fin nloops) (s : System nloops numWorkers) : System nloops numWorkers :=
  let xsk := (s.loops i).xsk
  let (descs, rx) := xsk.rx.peek rxBatchSize
  s.setXsk i { xsk with rx := rx } (if descs.isEmpty then .idle else .rx descs descs.length)

/-- The query of a packet is handed to the workers, or the packet is dropped and counted:
`drain_rx` up to the release of the frame. -/
def rxJob (i : Fin nloops) (allocates : Bool) (packet : Bytes) (s : System nloops numWorkers) :
    Option (System nloops numWorkers) :=
  let stats := (s.loops i).xsk.stats.received packet
  match if allocates then parseFrame packet i else none with
  | none => some (s.setStats i { stats with rxDropped := stats.rxDropped + 1 })
  | some job => do
      let addr := s.heap.fresh
      let (taken, pendingQ, heap) ← queuePush s.pendingQ addr (s.heap.alloc job)
      let s := { s with pendingQ := pendingQ, created := s.created ++ [(i, job)] }
      if taken then some ({ s with heap := heap }.setStats i stats)
      else
        let heap ← heap.free addr
        some ({ s with heap := heap }.setStats i { stats with queueFull := stats.queueFull + 1 })

/-- A turn of the loop of `drain_rx`. -/
def rxPacket (i : Fin nloops) (allocates : Bool) (desc : XdpDesc) (left : List XdpDesc)
    (rcvd : Nat) (s : System nloops numWorkers) : Option (System nloops numWorkers) := do
  let s ← s.rxJob i allocates desc.packet
  let xsk := (s.loops i).xsk
  let free ← xskFreeFrame (xskFrameBase desc.addr) xsk.umemFrameAddr
  some (s.setXsk i { xsk with umemFrameAddr := free } (.rx left rcvd))

/-- The end of `drain_rx`, before the refill. -/
def rxRelease (i : Fin nloops) (rcvd : Nat) (s : System nloops numWorkers) :
    System nloops numWorkers :=
  let xsk := (s.loops i).xsk
  s.setXsk i { xsk with rx := xsk.rx.release rcvd } (.refill rcvd)

/-- The number of frames that `refill_fq` hands back when `n` are asked for. -/
def refillCount (n : Nat) (fq : ProdRing UInt64) (free : List UInt64) : Nat :=
  let avail := (fq.nbFree n).cachedFree
  let n := if n > avail then avail else n
  if n > free.length then free.length else n

/-- `refill_fq` up to the reservation. -/
def refillFq (i : Fin nloops) (n : Nat) (s : System nloops numWorkers) :
    System nloops numWorkers :=
  let xsk := (s.loops i).xsk
  let count := refillCount n xsk.fq xsk.umemFrameAddr
  s.setXsk i { xsk with fq := xsk.fq.nbFree n } (if count = 0 then .idle else .reserveFill count)

/-- `refill_fq` from the reservation on. -/
def reserveFill (i : Fin nloops) (n : Nat) (s : System nloops numWorkers) :
    System nloops numWorkers :=
  let xsk := (s.loops i).xsk
  let (frames, free) := allocFrames n xsk.umemFrameAddr
  match xsk.fq.produce frames with
  | none => s.setXsk i { xsk with fq := xsk.fq.nbFree n } .idle
  | some fq => s.setXsk i { xsk with fq := fq, umemFrameAddr := free } .idle

/-! ## Transmitting -/

/-- The start of `drain_done_and_tx`. -/
def drainDoneAndTx (i : Fin nloops) (s : System nloops numWorkers) : System nloops numWorkers :=
  let (list, doneQ) := queueDrain (s.loops i).doneQ
  s.setLoop i { s.loops i with doneQ := doneQ, pc := .collect list [] }

/-- The slots and frames for a batch are counted, and what cannot be sent. -/
def chooseWant (i : Fin nloops) (list : Option Addr) (batch : List Addr)
    (s : System nloops numWorkers) : System nloops numWorkers :=
  let xsk := (s.loops i).xsk
  let tx := xsk.tx.nbFree batch.length
  let slots := tx.cachedFree
  let noSlot := batch.length - slots
  let want := batch.length - noSlot
  let noFrame := want - xsk.umemFrameAddr.length
  let stats :=
    { xsk.stats with
      txNoSlot := xsk.stats.txNoSlot + noSlot
      txNoFrame := xsk.stats.txNoFrame + noFrame }
  s.setXsk i { xsk with tx := tx, stats := stats } (.send list batch (want - noFrame))

/-- A turn of the loop that fills a batch, and its end. A batch stays empty only if the list is
at its end. -/
def collect (i : Fin nloops) (list : Option Addr) (batch : List Addr)
    (s : System nloops numWorkers) : Option (System nloops numWorkers) :=
  match list with
  | none =>
      some (if batch.isEmpty then s.setXsk i (s.loops i).xsk .idle else s.chooseWant i none batch)
  | some addr =>
      if batch.length < txBatchSize then do
        let job ← s.heap.read addr
        if job.resp.length = 0 ∨ job.resp.length > dnsMaxMsgLen then do
          let heap ← s.heap.free addr
          some ({ s with heap := heap }.setXsk i (s.loops i).xsk (.collect job.next batch))
        else some (s.setXsk i (s.loops i).xsk (.collect job.next (batch ++ [addr])))
      else some (s.chooseWant i list batch)

/-- Free all jobs of a batch. -/
def freeAll : List Addr → Heap DnsJob → Option (Heap DnsJob)
  | [], heap => some heap
  | addr :: rest, heap => do
      let heap ← heap.free addr
      freeAll rest heap

/-- Read all jobs of a batch. -/
def readAll : List Addr → Heap DnsJob → Option (List DnsJob)
  | [], _ => some []
  | addr :: rest, heap => do
      let job ← heap.read addr
      let jobs ← readAll rest heap
      some (job :: jobs)

/-- The first `want` jobs of a batch are put on the TX ring. -/
def transmit (i : Fin nloops) (batch : List Addr) (want : Nat) (jobs : List DnsJob)
    (s : System nloops numWorkers) : System nloops numWorkers :=
  let xsk := (s.loops i).xsk
  let (frames, free) := allocFrames want xsk.umemFrameAddr
  let descs := List.zipWith (fun frame job => ⟨frame, buildResponseFrame job⟩) frames jobs
  match xsk.tx.produce descs with
  | none => s.setXsk i { xsk with tx := xsk.tx.nbFree want } (s.loops i).pc
  | some tx =>
      let xsk :=
        { xsk with
          tx := tx
          umemFrameAddr := free
          outstandingTx := xsk.outstandingTx + want
          stats := xsk.stats.transmitted want descs }
      { s with sent := s.sent ++ (List.zip batch descs).map (Prod.mk i) }.setXsk i xsk
        (s.loops i).pc

/-- The reservation for a batch, the transmission and the end of its jobs. -/
def sendBatch (i : Fin nloops) (list : Option Addr) (batch : List Addr) (want : Nat)
    (s : System nloops numWorkers) : Option (System nloops numWorkers) := do
  let jobs ← readAll (batch.take want) s.heap
  let s := if want = 0 then s else s.transmit i batch want jobs
  let heap ← freeAll batch s.heap
  some ({ s with heap := heap }.setXsk i (s.loops i).xsk (.collect list []))

/-- The start of `reclaim_tx`. -/
def reclaimTx (i : Fin nloops) (s : System nloops numWorkers) : System nloops numWorkers :=
  let xsk := (s.loops i).xsk
  if xsk.outstandingTx = 0 then s
  else
    let (addrs, cq) := xsk.cq.peek txBatchSize
    s.setXsk i { xsk with cq := cq } (if addrs.isEmpty then .idle else .reclaim addrs addrs.length)

/-- A turn of the loop of `reclaim_tx`. -/
def reclaimFrame (i : Fin nloops) (addr : UInt64) (left : List UInt64) (completed : Nat)
    (s : System nloops numWorkers) : Option (System nloops numWorkers) := do
  let xsk := (s.loops i).xsk
  let free ← xskFreeFrame (xskFrameBase addr) xsk.umemFrameAddr
  some (s.setXsk i { xsk with umemFrameAddr := free } (.reclaim left completed))

/-- The end of `reclaim_tx`. -/
def reclaimRelease (i : Fin nloops) (completed : Nat) (s : System nloops numWorkers) :
    System nloops numWorkers :=
  let xsk := (s.loops i).xsk
  let reclaimed := if completed < xsk.outstandingTx then completed else xsk.outstandingTx
  s.setXsk i
    { xsk with cq := xsk.cq.release completed, outstandingTx := xsk.outstandingTx - reclaimed }
    .idle

/-- A loop thread goes on in the call that it is in. -/
def loopStep (i : Fin nloops) (allocates : Bool) (s : System nloops numWorkers) :
    Option (System nloops numWorkers) :=
  match (s.loops i).pc with
  | .idle => some s
  | .rx [] rcvd => some (s.rxRelease i rcvd)
  | .rx (desc :: left) rcvd => s.rxPacket i allocates desc left rcvd
  | .refill n => some (s.refillFq i n)
  | .reserveFill n => some (s.reserveFill i n)
  | .collect list batch => s.collect i list batch
  | .send list batch want => s.sendBatch i list batch want
  | .reclaim [] completed => some (s.reclaimRelease i completed)
  | .reclaim (addr :: left) completed => s.reclaimFrame i addr left completed

/-! ## Answering -/

/-- A worker drops its job. -/
def dropJob (w : Fin numWorkers) (addr : Addr) (s : System nloops numWorkers) :
    Option (System nloops numWorkers) := do
  let heap ← s.heap.free addr
  some
    { s with
      heap := heap
      resolvedDrop := s.resolvedDrop + 1
      workers := Function.update s.workers w .waiting }

/-- A worker puts a response into its job. -/
def answerJob (w : Fin numWorkers) (addr : Addr) (reply : Bytes) (s : System nloops numWorkers) :
    Option (System nloops numWorkers) := do
  let heap ← s.heap.modify addr fun job => { job with resp := reply }
  some
    { s with
      heap := heap
      resolvedOk := s.resolvedOk + 1
      workers := Function.update s.workers w (.resolved addr) }

/-- A worker hands its job to the loop that it came from. -/
def returnJob (w : Fin numWorkers) (addr : Addr) (s : System nloops numWorkers) :
    Option (System nloops numWorkers) := do
  let job ← s.heap.read addr
  if inside : job.loopIdx.toNat < nloops then
    let i : Fin nloops := ⟨job.loopIdx.toNat, inside⟩
    let (taken, doneQ, heap) ← queuePush (s.loops i).doneQ addr s.heap
    let heap ← if taken then some heap else heap.free addr
    some ({ s with heap := heap, workers := Function.update s.workers w .waiting }.setLoop i
      { s.loops i with doneQ := doneQ })
  else none

/-- A worker goes on in `worker_main`. Without a job and without a shutdown it waits. -/
def workerStep (w : Fin numWorkers) (answer : Answer) (s : System nloops numWorkers) :
    Option (System nloops numWorkers) :=
  match s.workers w with
  | .waiting => do
      let (job, pendingQ, heap) ← queuePopWait s.pendingQ s.heap
      match job with
      | some addr =>
          some
            { s with
              heap := heap
              pendingQ := pendingQ
              workers := Function.update s.workers w (.resolving addr) }
      | none =>
          some (if s.pendingQ.shutdown then
            { s with workers := Function.update s.workers w .exited } else s)
  | .resolving addr =>
      match answer with
      | none => s.dropJob w addr
      | some reply =>
          if reply.val.length = 0 then s.dropJob w addr else s.answerJob w addr reply.val
  | .resolved addr => s.returnJob w addr
  | .exited => some s

end System

/-! ## Interleavings -/

/-- Who acts next, and what it meets: a loop thread the success of an allocation, a worker the
result of `dns_resolve_query`. -/
inductive Action (nloops numWorkers : Nat)
  | kernel (i : Fin nloops) (step : KernelStep)
  | drainRx (i : Fin nloops)
  | drainDoneAndTx (i : Fin nloops)
  | reclaimTx (i : Fin nloops)
  | loop (i : Fin nloops) (allocates : Bool)
  | worker (w : Fin numWorkers) (answer : Answer)
  | shutdown

namespace System

variable {nloops numWorkers : Nat}

/-- Start a call if the loop thread is between two. -/
def call (i : Fin nloops) (body : System nloops numWorkers → System nloops numWorkers)
    (s : System nloops numWorkers) : System nloops numWorkers :=
  match (s.loops i).pc with
  | .idle => body s
  | _ => s

/-- One action. -/
def step (action : Action nloops numWorkers) (s : System nloops numWorkers) :
    Option (System nloops numWorkers) :=
  match action with
  | .kernel i step => some (s.setXsk i ((s.loops i).xsk.kernel step) (s.loops i).pc)
  | .drainRx i => some (s.call i (drainRx i))
  | .drainDoneAndTx i => some (s.call i (drainDoneAndTx i))
  | .reclaimTx i => some (s.call i (reclaimTx i))
  | .loop i allocates => s.loopStep i allocates
  | .worker w answer => s.workerStep w answer
  | .shutdown => some { s with pendingQ := queueShutdown s.pendingQ }

/-- Actions one after the other. -/
def run : List (Action nloops numWorkers) → System nloops numWorkers →
    Option (System nloops numWorkers)
  | [], s => some s
  | action :: schedule, s => do
      let s ← s.step action
      run schedule s

/-- The threads at their start, each loop with a socket that has been set up. -/
def start (nloops numWorkers : Nat) : Option (System nloops numWorkers) := do
  let xsk ← xskEnvSetupSocket
  some
    { heap := .empty
      pendingQ := queueInit maxPending
      loops := fun _ => ⟨xsk, queueInit 0, .idle⟩
      workers := fun _ => .waiting
      resolvedOk := 0
      resolvedDrop := 0
      created := []
      sent := [] }

end System

end FizzDns
