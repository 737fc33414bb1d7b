import FizzDns.Xdp.FrameCustody

/-!
# What can happen to a socket

`SocketStep` lists what one action can do to the socket of a loop and to the point where its
thread is. Two labels say what the rest of the program has to know of it: how many frames a
refill leaves out, and which descriptors are put on the TX ring. Facts about frames are facts
about these steps (`SocketStep.framesOk`), whoever else runs.

The frames that circulate on the receiving side (fill ring, driver, RX ring) are counted by
`level`, together with those that the loop thread still owes to the fill ring. They change only
when a refill leaves some out (`SocketStep.level_add`).
-/

namespace FizzDns

/-- One action on a socket, with the number of frames a refill leaves out and the descriptors
put on the TX ring. -/
inductive SocketStep : XskSocketInfo → LoopPc → Nat → List XdpDesc → XskSocketInfo → LoopPc → Prop
  | stay {xsk : XskSocketInfo} {pc : LoopPc} : SocketStep xsk pc 0 [] xsk pc
  | kernel {xsk : XskSocketInfo} {pc : LoopPc} (step : KernelStep) :
      SocketStep xsk pc 0 [] (xsk.kernel step) pc
  | peekRx {xsk : XskSocketInfo} :
      SocketStep xsk .idle 0 [] { xsk with rx := (xsk.rx.peek rxBatchSize).2 }
        (if (xsk.rx.peek rxBatchSize).1.isEmpty then .idle
          else .rx (xsk.rx.peek rxBatchSize).1 (xsk.rx.peek rxBatchSize).1.length)
  | freeRx {xsk : XskSocketInfo} (stats : XskStats) (desc : XdpDesc) (left : List XdpDesc)
      (rcvd : Nat) :
      SocketStep xsk (.rx (desc :: left) rcvd) 0 []
        { xsk with
          stats := stats
          umemFrameAddr := xskFrameBase desc.addr :: xsk.umemFrameAddr }
        (.rx left rcvd)
  | rxRelease {xsk : XskSocketInfo} (rcvd : Nat) :
      SocketStep xsk (.rx [] rcvd) 0 [] { xsk with rx := xsk.rx.release rcvd } (.refill rcvd)
  | refillFq {xsk : XskSocketInfo} (n : Nat) :
      SocketStep xsk (.refill n) (n - System.refillCount n xsk.fq xsk.umemFrameAddr) []
        { xsk with fq := xsk.fq.nbFree n }
        (if System.refillCount n xsk.fq xsk.umemFrameAddr = 0 then .idle
          else .reserveFill (System.refillCount n xsk.fq xsk.umemFrameAddr))
  | reserveFill {xsk : XskSocketInfo} {fq : ProdRing UInt64} (n : Nat)
      (produced : xsk.fq.produce (xsk.umemFrameAddr.take n) = some fq) :
      SocketStep xsk (.reserveFill n) 0 []
        { xsk with fq := fq, umemFrameAddr := xsk.umemFrameAddr.drop n } .idle
  | drain {xsk : XskSocketInfo} (list : Option Addr) :
      SocketStep xsk .idle 0 [] xsk (.collect list [])
  | collect {xsk : XskSocketInfo} {list : Option Addr} {batch : List Addr} (list' : Option Addr)
      (batch' : List Addr) :
      SocketStep xsk (.collect list batch) 0 [] xsk (.collect list' batch')
  | drained {xsk : XskSocketInfo} : SocketStep xsk (.collect none []) 0 [] xsk .idle
  | chooseWant {xsk : XskSocketInfo} {list : Option Addr} {batch : List Addr} (stats : XskStats)
      (want : Nat) (slots : want ≤ (xsk.tx.nbFree batch.length).cachedFree)
      (enough : want ≤ xsk.umemFrameAddr.length) (within : want ≤ batch.length) :
      SocketStep xsk (.collect list batch) 0 []
        { xsk with tx := xsk.tx.nbFree batch.length, stats := stats } (.send list batch want)
  | transmit {xsk : XskSocketInfo} {list : Option Addr} {batch : List Addr} {want : Nat}
      {tx : ProdRing XdpDesc} (stats : XskStats) (jobs : List DnsJob) (descs : List XdpDesc)
      (count : jobs.length = want)
      (descsEq : List.zipWith (fun frame job => ⟨frame, buildResponseFrame job⟩)
        (xsk.umemFrameAddr.take want) jobs = descs)
      (produced : xsk.tx.produce descs = some tx) :
      SocketStep xsk (.send list batch want) 0 descs
        { xsk with
          tx := tx
          umemFrameAddr := xsk.umemFrameAddr.drop want
          outstandingTx := xsk.outstandingTx + want
          stats := stats }
        (.collect list [])
  | sendNone {xsk : XskSocketInfo} {list : Option Addr} {batch : List Addr} :
      SocketStep xsk (.send list batch 0) 0 [] xsk (.collect list [])
  | peekCompletion {xsk : XskSocketInfo} :
      SocketStep xsk .idle 0 [] { xsk with cq := (xsk.cq.peek txBatchSize).2 }
        (if (xsk.cq.peek txBatchSize).1.isEmpty then .idle
          else .reclaim (xsk.cq.peek txBatchSize).1 (xsk.cq.peek txBatchSize).1.length)
  | freeCompletion {xsk : XskSocketInfo} (addr : UInt64) (left : List UInt64) (completed : Nat) :
      SocketStep xsk (.reclaim (addr :: left) completed) 0 []
        { xsk with umemFrameAddr := xskFrameBase addr :: xsk.umemFrameAddr }
        (.reclaim left completed)
  | reclaimRelease {xsk : XskSocketInfo} (completed : Nat) :
      SocketStep xsk (.reclaim [] completed) 0 []
        { xsk with
          cq := xsk.cq.release completed
          outstandingTx := xsk.outstandingTx -
            if completed < xsk.outstandingTx then completed else xsk.outstandingTx }
        .idle

/-- The frames that a loop thread has taken off the receiving side and not yet given back. -/
def LoopPc.owed : LoopPc → Nat
  | .rx _ rcvd => rcvd
  | .refill n => n
  | .reserveFill n => n
  | _ => 0

/-- The frames in the fill ring, the driver and the RX ring. -/
def XskSocketInfo.pool (xsk : XskSocketInfo) : Nat :=
  xsk.fq.entries.length + xsk.driver.length + xsk.rx.entries.length

/-- The frames of the receiving side and those owed to it. -/
def XskSocketInfo.level (xsk : XskSocketInfo) (pc : LoopPc) : Nat :=
  xsk.pool + pc.owed

namespace FramesOk

variable {xsk : XskSocketInfo}

theorem freeRx {desc : XdpDesc} {left : List XdpDesc} {rcvd : Nat}
    (ok : FramesOk xsk (.rx (desc :: left) rcvd)) :
    xskFreeFrame (xskFrameBase desc.addr) xsk.umemFrameAddr =
        some (xskFrameBase desc.addr :: xsk.umemFrameAddr) ∧
      FramesOk { xsk with umemFrameAddr := xskFrameBase desc.addr :: xsk.umemFrameAddr }
        (.rx left rcvd) := by
  refine ok.freeFrame rfl rfl rfl ?_
  have ready := ok.ready
  simp only [XskSocketInfo.Ready, List.length_cons] at ready ⊢
  omega

theorem freeCompletion {addr : UInt64} {left : List UInt64} {completed : Nat}
    (ok : FramesOk xsk (.reclaim (addr :: left) completed)) :
    xskFreeFrame (xskFrameBase addr) xsk.umemFrameAddr =
        some (xskFrameBase addr :: xsk.umemFrameAddr) ∧
      FramesOk { xsk with umemFrameAddr := xskFrameBase addr :: xsk.umemFrameAddr }
        (.reclaim left completed) := by
  have held : addr ∈ xsk.frames (.reclaim (addr :: left) completed) .hand := List.mem_cons_self
  rw [xskFrameBase_of_mem (ok.custody.live_of_mem _ held)]
  exact ok.freeFrame rfl rfl rfl trivial

end FramesOk

namespace SocketStep

variable {xsk xsk' : XskSocketInfo} {pc pc' : LoopPc} {short : Nat} {out : List XdpDesc}

/-- Every frame stays in one place. -/
theorem framesOk (step : SocketStep xsk pc short out xsk' pc') (ok : FramesOk xsk pc) :
    FramesOk xsk' pc' := by
  cases step with
  | stay => exact ok
  | kernel step => exact ok.kernel step
  | peekRx =>
      have peeked := ok.peekRx rxBatchSize
      split
      · next nothing =>
          rw [List.isEmpty_iff] at nothing
          rw [nothing] at peeked
          exact peeked.goto rfl rfl trivial
      · exact peeked
  | freeRx stats desc left rcvd => exact ok.freeRx.2.stats stats
  | rxRelease rcvd =>
      have released : FramesOk { xsk with rx := xsk.rx.release rcvd } (.rx [] rcvd) :=
        ⟨ok.custody, ok.outstanding, ok.ready.congr rfl rfl rfl⟩
      refine released.goto rfl rfl ?_
      have ready := ok.ready
      simpa only [XskSocketInfo.Ready, List.length_nil, Nat.zero_add] using ready
  | refillFq n => exact ok.refillFq
  | reserveFill n produced =>
      obtain ⟨_, _, same, next⟩ := ok.reserveFill
      rw [produced] at same
      cases same
      exact next
  | drain list => exact ok.goto rfl rfl trivial
  | collect list' batch' => exact ok.goto rfl rfl trivial
  | drained => exact ok.goto rfl rfl trivial
  | chooseWant stats want slots enough within =>
      exact (ok.nbFreeTx slots enough within).stats stats
  | transmit stats jobs descs count descsEq produced =>
      obtain ⟨_, _, _, sameDescs, _, sameTx, next⟩ := ok.transmit count
      rw [descsEq] at sameDescs
      subst sameDescs
      rw [produced] at sameTx
      cases sameTx
      exact next.stats stats
  | sendNone => exact ok.goto rfl rfl trivial
  | peekCompletion =>
      have peeked := ok.peekCompletion txBatchSize
      split
      · next nothing =>
          rw [List.isEmpty_iff] at nothing
          rw [nothing] at peeked
          exact peeked.goto rfl rfl trivial
      · exact peeked
  | freeCompletion addr left completed => exact ok.freeCompletion.2
  | reclaimRelease completed => exact ok.reclaimRelease

/-- A refill leaves frames out, and nothing else changes the number of frames on the receiving
side. -/
theorem level_add (step : SocketStep xsk pc short out xsk' pc') (ok : FramesOk xsk pc) :
    xsk'.level pc' + short = xsk.level pc := by
  cases step with
  | kernel step =>
      cases step <;> simp only [XskSocketInfo.kernel]
      case takeFill =>
          split
          · rfl
          · next took =>
              have entries := congrArg List.length (ProdRing.take_some took).1
              rw [List.length_cons] at entries
              simp only [XskSocketInfo.level, XskSocketInfo.pool, List.length_append,
                List.length_singleton]
              omega
      case receive which offset packet =>
          split
          · rfl
          next found =>
          split
          · rfl
          next offered =>
          obtain ⟨short, _⟩ := List.getElem?_eq_some_iff.mp found
          have entries := congrArg List.length (ConsRing.offer_some offered)
          rw [List.length_append, List.length_singleton] at entries
          simp only [XskSocketInfo.level, XskSocketInfo.pool, List.length_eraseIdx_of_lt short]
          omega
      case takeTx => split <;> rfl
      case complete which =>
          split
          · rfl
          · split <;> rfl
      all_goals rfl
  | peekRx =>
      have split := congrArg List.length (@ConsRing.peek_append _ xsk.rx rxBatchSize)
      rw [List.length_append] at split
      split_ifs with nothing
      · rw [List.isEmpty_iff] at nothing
        rw [nothing, List.length_nil] at split
        simp only [XskSocketInfo.level, XskSocketInfo.pool, LoopPc.owed]
        omega
      · simp only [XskSocketInfo.level, XskSocketInfo.pool, LoopPc.owed]
        omega
  | refillFq n =>
      have fewer : System.refillCount n xsk.fq xsk.umemFrameAddr ≤ n := by
        unfold System.refillCount
        simp only
        split_ifs <;> omega
      split_ifs with nothing
      · simp only [XskSocketInfo.level, XskSocketInfo.pool, LoopPc.owed, ProdRing.nbFree_entries]
        omega
      · simp only [XskSocketInfo.level, XskSocketInfo.pool, LoopPc.owed, ProdRing.nbFree_entries]
        omega
  | reserveFill n produced =>
      have length := congrArg List.length (ProdRing.produce_some produced)
      rw [List.length_append, List.length_take_of_le ok.ready.1] at length
      simp only [XskSocketInfo.level, XskSocketInfo.pool, LoopPc.owed]
      omega
  | peekCompletion => split <;> rfl
  | _ => rfl

/-- What stands on the TX ring or with the kernel was put there. -/
theorem mem_tx (step : SocketStep xsk pc short out xsk' pc') {desc : XdpDesc}
    (member : desc ∈ xsk'.tx.entries ++ xsk'.sending) :
    desc ∈ xsk.tx.entries ++ xsk.sending ∨ desc ∈ out := by
  cases step with
  | kernel step =>
      apply Or.inl
      cases step <;> simp only [XskSocketInfo.kernel] at member
      case takeTx =>
          split at member
          · exact member
          · next took =>
              rw [(ProdRing.take_some took).1]
              simp only [List.mem_append, List.mem_cons] at member ⊢
              tauto
      case complete which =>
          split at member
          · exact member
          split at member
          · exact member
          · rw [List.mem_append] at member ⊢
            exact member.imp_right List.mem_of_mem_eraseIdx
      case takeFill => split at member <;> exact member
      case receive which offset packet =>
          split at member
          · exact member
          · split at member <;> exact member
      all_goals exact member
  | chooseWant stats want slots enough within =>
      simp only [ProdRing.nbFree_entries] at member
      exact Or.inl member
  | transmit stats jobs descs count descsEq produced =>
      simp only [ProdRing.produce_some produced, List.mem_append] at member ⊢
      tauto
  | _ => exact Or.inl member

end SocketStep

end FizzDns
