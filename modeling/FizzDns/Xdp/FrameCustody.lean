import FizzDns.Foundation.Custody
import FizzDns.Xdp.System

/-!
# Where the frames are

Each frame of a socket's UMEM is at any moment on the stack of free frames, on one of the four
rings (or with the kernel, which has taken it off one), or in the hands of the loop thread in
the middle of a call. `FramesOk` says so for one socket, with what the thread knows at each
point of its calls. It is kept by everything that the kernel and the loop thread do to a
socket; the other threads do not touch it.
-/

namespace FizzDns

/-- Where a frame can be. -/
inductive FramePlace
  | free
  | fill
  | rx
  | tx
  | completion
  | hand
  deriving DecidableEq

/-- The frames that a loop thread has taken off a ring and not yet freed. -/
def LoopPc.hand : LoopPc → List UInt64
  | .rx left _ => left.map fun desc => xskFrameBase desc.addr
  | .reclaim left _ => left
  | _ => []

/-- The completions that are not yet subtracted from `outstanding_tx`. -/
def LoopPc.completed : LoopPc → Nat
  | .reclaim _ completed => completed
  | _ => 0

namespace XskSocketInfo

/-- The frames in each place. What the kernel has taken off the fill ring or the TX ring counts
as still there. -/
def frames (xsk : XskSocketInfo) (pc : LoopPc) : FramePlace → List UInt64
  | .free => xsk.umemFrameAddr
  | .fill => xsk.fq.entries ++ xsk.driver
  | .rx => xsk.rx.entries.map fun desc => xskFrameBase desc.addr
  | .tx => (xsk.tx.entries ++ xsk.sending).map XdpDesc.addr
  | .completion => xsk.cq.entries
  | .hand => pc.hand

/-- What a loop thread relies on at a point of its calls. -/
def Ready (xsk : XskSocketInfo) : LoopPc → Prop
  | .rx left rcvd => rcvd ≤ left.length + xsk.umemFrameAddr.length
  | .refill n => n ≤ xsk.umemFrameAddr.length
  | .reserveFill n => n ≤ xsk.umemFrameAddr.length ∧ n ≤ xsk.fq.cachedFree
  | .send _ batch want =>
      want ≤ xsk.umemFrameAddr.length ∧ want ≤ xsk.tx.cachedFree ∧ want ≤ batch.length
  | _ => True

end XskSocketInfo

/-- Every frame is in one place, and `outstanding_tx` counts those on the TX and completion
rings. -/
structure FramesOk (xsk : XskSocketInfo) (pc : LoopPc) : Prop where
  custody : Custody (xsk.frames pc) (· ∈ frameBases)
  outstanding : xsk.outstandingTx =
    (xsk.frames pc .tx).length + (xsk.frames pc .completion).length + pc.completed
  ready : xsk.Ready pc

/-- `Ready` looks only at the stack and at the slots that are known to be free. -/
theorem XskSocketInfo.Ready.congr {xsk other : XskSocketInfo} {pc : LoopPc} (ready : xsk.Ready pc)
    (free : other.umemFrameAddr = xsk.umemFrameAddr)
    (fq : other.fq.cachedFree = xsk.fq.cachedFree) (tx : other.tx.cachedFree = xsk.tx.cachedFree) :
    other.Ready pc := by
  unfold Ready
  rw [free, fq, tx]
  exact ready

namespace FramesOk

variable {xsk : XskSocketInfo} {pc : LoopPc}

/-! ## The kernel -/

/-- The kernel only passes frames on. -/
theorem kernel (ok : FramesOk xsk pc) (step : KernelStep) : FramesOk (xsk.kernel step) pc := by
  have ⟨custody, outstanding, ready⟩ := ok
  cases step with
  | takeFill =>
      simp only [XskSocketInfo.kernel]
      split
      · exact ok
      next frame fq took =>
      obtain ⟨entries, cached⟩ := ProdRing.take_some took
      refine ⟨custody.reorder ?_, outstanding, ready.congr rfl cached rfl⟩
      rintro (_ | _ | _ | _ | _ | _)
      case fill =>
          simp only [XskSocketInfo.frames, entries]
          rw [← List.append_assoc]
          exact List.perm_append_comm
      all_goals exact List.Perm.refl _
  | publishFill count => exact ⟨custody, outstanding, ready.congr rfl rfl rfl⟩
  | receive which offset packet =>
      simp only [XskSocketInfo.kernel]
      split
      · exact ok
      next frame found =>
      split
      · exact ok
      next rx offered =>
      have held : frame ∈ xsk.frames pc .fill :=
        List.mem_append_right _ (List.mem_of_getElem? found)
      obtain ⟨index, inside, rfl⟩ := mem_frameBases.mp (custody.live_of_mem _ held)
      obtain ⟨short, same⟩ := List.getElem?_eq_some_iff.mp found
      have picked := List.getElem_cons_eraseIdx_perm short
      rw [same] at picked
      obtain ⟨next, nextEq⟩ : ∃ next, next =
        { xsk with rx := rx, driver := xsk.driver.eraseIdx which } := ⟨_, rfl⟩
      rw [← nextEq]
      have left : (xsk.frames pc .fill).Perm ([frameAddr index] ++ next.frames pc .fill) := by
        rw [nextEq]
        exact (picked.symm.append_left xsk.fq.entries).trans List.perm_middle
      have arrived : (next.frames pc .rx).Perm ([frameAddr index] ++ xsk.frames pc .rx) := by
        simp only [nextEq, XskSocketInfo.frames, ConsRing.offer_some offered, List.map_append,
          List.map_singleton, xskFrameBase_add inside offset.isLt]
        exact List.perm_append_comm
      refine ⟨custody.move .fill .rx [frameAddr index] (by decide) left arrived ?_, ?_, ?_⟩
      · rintro (_ | _ | _ | _ | _ | _) notSource notTarget <;>
          first | contradiction | (rw [nextEq]; rfl)
      · rw [nextEq]
        exact outstanding
      · rw [nextEq]
        exact ready.congr rfl rfl rfl
  | takeTx =>
      simp only [XskSocketInfo.kernel]
      split
      · exact ok
      next desc tx took =>
      obtain ⟨entries, cached⟩ := ProdRing.take_some took
      have same : (tx.entries ++ (xsk.sending ++ [desc])).Perm (xsk.tx.entries ++ xsk.sending) := by
        rw [entries, ← List.append_assoc]
        exact List.perm_append_comm
      refine ⟨custody.reorder ?_, ?_, ready.congr rfl rfl cached⟩
      · rintro (_ | _ | _ | _ | _ | _)
        case tx => exact same.map XdpDesc.addr
        all_goals exact List.Perm.refl _
      · have length := (same.map XdpDesc.addr).length_eq
        simp only [XskSocketInfo.frames] at outstanding ⊢
        rw [length]
        exact outstanding
  | publishTx count => exact ⟨custody, outstanding, ready.congr rfl rfl rfl⟩
  | complete which =>
      simp only [XskSocketInfo.kernel]
      split
      · exact ok
      next desc found =>
      split
      · exact ok
      next cq offered =>
      obtain ⟨short, same⟩ := List.getElem?_eq_some_iff.mp found
      have picked := List.getElem_cons_eraseIdx_perm short
      rw [same] at picked
      obtain ⟨next, nextEq⟩ : ∃ next, next =
        { xsk with cq := cq, sending := xsk.sending.eraseIdx which } := ⟨_, rfl⟩
      rw [← nextEq]
      have left : (xsk.frames pc .tx).Perm ([desc.addr] ++ next.frames pc .tx) := by
        rw [nextEq]
        exact ((picked.symm.append_left xsk.tx.entries).trans List.perm_middle).map XdpDesc.addr
      have arrived : (next.frames pc .completion).Perm
          ([desc.addr] ++ xsk.frames pc .completion) := by
        simp only [nextEq, XskSocketInfo.frames, ConsRing.offer_some offered]
        exact List.perm_append_comm
      refine ⟨custody.move .tx .completion [desc.addr] (by decide) left arrived ?_, ?_, ?_⟩
      · rintro (_ | _ | _ | _ | _ | _) notSource notTarget <;>
          first | contradiction | (rw [nextEq]; rfl)
      · have fewer := left.length_eq
        have more := arrived.length_eq
        rw [List.length_append, List.length_singleton] at fewer more
        have unchanged : next.outstandingTx = xsk.outstandingTx := by rw [nextEq]
        omega
      · rw [nextEq]
        exact ready.congr rfl rfl rfl

/-! ## The loop thread -/

/-- The counters have no part in it. -/
theorem stats (ok : FramesOk xsk pc) (stats : XskStats) : FramesOk { xsk with stats := stats } pc :=
  ⟨ok.custody, ok.outstanding, ok.ready.congr rfl rfl rfl⟩

/-- The thread moves on without touching a frame. -/
theorem goto (ok : FramesOk xsk pc) {pc' : LoopPc} (hand : pc'.hand = pc.hand)
    (completed : pc'.completed = pc.completed) (ready : xsk.Ready pc') : FramesOk xsk pc' := by
  have same : xsk.frames pc' = xsk.frames pc := by
    funext place
    cases place
    case hand => exact hand
    all_goals rfl
  refine ⟨?_, ?_, ready⟩
  · rw [same]
    exact ok.custody
  · rw [same, completed]
    exact ok.outstanding

/-- Packets are taken off the RX ring. -/
theorem peekRx (ok : FramesOk xsk .idle) (wanted : Nat) :
    FramesOk { xsk with rx := (xsk.rx.peek wanted).2 }
      (.rx (xsk.rx.peek wanted).1 (xsk.rx.peek wanted).1.length) := by
  have ⟨custody, outstanding, _⟩ := ok
  have split := @ConsRing.peek_append _ xsk.rx wanted
  obtain ⟨⟨descs, rx⟩, peeked⟩ : ∃ peeked, xsk.rx.peek wanted = peeked := ⟨_, rfl⟩
  rw [peeked] at split ⊢
  obtain ⟨next, nextEq⟩ : ∃ next, next = { xsk with rx := rx } := ⟨_, rfl⟩
  rw [← nextEq]
  have left : (xsk.frames .idle .rx).Perm
      (descs.map (fun desc => xskFrameBase desc.addr) ++
        next.frames (.rx descs descs.length) .rx) := by
    simp only [XskSocketInfo.frames, ← split, nextEq, List.map_append]
    exact List.Perm.refl _
  have arrived : (next.frames (.rx descs descs.length) .hand).Perm
      (descs.map (fun desc => xskFrameBase desc.addr) ++ xsk.frames .idle .hand) := by
    simp only [XskSocketInfo.frames, LoopPc.hand, List.append_nil]
    exact List.Perm.refl _
  refine ⟨custody.move .rx .hand _ (by decide) left arrived ?_, ?_, ?_⟩
  · rintro (_ | _ | _ | _ | _ | _) notSource notTarget <;>
      first | contradiction | (rw [nextEq]; rfl)
  · rw [nextEq]
    exact outstanding
  · exact Nat.le_add_right _ _

/-- A frame in the thread's hands can be freed: the assertion of `xsk_free_frame` holds. -/
theorem freeFrame (ok : FramesOk xsk pc) {frame : UInt64} {rest : List UInt64}
    (hand : pc.hand = frame :: rest) {pc' : LoopPc} (hand' : pc'.hand = rest)
    (completed : pc'.completed = pc.completed)
    (ready : ({ xsk with umemFrameAddr := frame :: xsk.umemFrameAddr } : XskSocketInfo).Ready pc') :
    xskFreeFrame frame xsk.umemFrameAddr = some (frame :: xsk.umemFrameAddr) ∧
      FramesOk { xsk with umemFrameAddr := frame :: xsk.umemFrameAddr } pc' := by
  have ⟨custody, outstanding, _⟩ := ok
  have room : xsk.umemFrameAddr.length < numFrames := by
    have total := custody.length_add_le (fun _ live => live)
      (show FramePlace.free ≠ .hand by decide)
    have count : frameBases.length = numFrames := by simp [frameBases]
    simp only [XskSocketInfo.frames, hand, List.length_cons, count] at total
    omega
  obtain ⟨next, nextEq⟩ : ∃ next, next =
    { xsk with umemFrameAddr := frame :: xsk.umemFrameAddr } := ⟨_, rfl⟩
  rw [← nextEq]
  have left : (xsk.frames pc .hand).Perm ([frame] ++ next.frames pc' .hand) := by
    simp only [XskSocketInfo.frames, hand, hand']
    exact List.Perm.refl _
  have arrived : (next.frames pc' .free).Perm ([frame] ++ xsk.frames pc .free) := by
    rw [nextEq]
    exact List.Perm.refl _
  refine ⟨xskFreeFrame_of_lt room, custody.move .hand .free [frame] (by decide) left arrived ?_, ?_,
    nextEq ▸ ready⟩
  · rintro (_ | _ | _ | _ | _ | _) notSource notTarget <;>
      first | contradiction | (rw [nextEq]; rfl)
  · rw [nextEq, completed]
    exact outstanding

/-- `refill_fq` looks for free slots. -/
theorem refillFq {n : Nat} (ok : FramesOk xsk (.refill n)) :
    FramesOk { xsk with fq := xsk.fq.nbFree n }
      (if System.refillCount n xsk.fq xsk.umemFrameAddr = 0 then .idle
        else .reserveFill (System.refillCount n xsk.fq xsk.umemFrameAddr)) := by
  have same : FramesOk { xsk with fq := xsk.fq.nbFree n } .idle := by
    refine ⟨ok.custody.reorder ?_, ok.outstanding, trivial⟩
    rintro (_ | _ | _ | _ | _ | _)
    case fill =>
        simp only [XskSocketInfo.frames, ProdRing.nbFree_entries]
        exact List.Perm.refl _
    all_goals exact List.Perm.refl _
  split
  · exact same
  · refine same.goto rfl rfl ?_
    simp only [XskSocketInfo.Ready, System.refillCount]
    constructor <;> split_ifs <;> omega

/-- Free frames are put on the fill ring. -/
theorem reserveFill {n : Nat} (ok : FramesOk xsk (.reserveFill n)) :
    ∃ fq, allocFrames n xsk.umemFrameAddr =
        (xsk.umemFrameAddr.take n, xsk.umemFrameAddr.drop n) ∧
      xsk.fq.produce (xsk.umemFrameAddr.take n) = some fq ∧
      FramesOk { xsk with fq := fq, umemFrameAddr := xsk.umemFrameAddr.drop n } .idle := by
  have ⟨custody, outstanding, enough, slots⟩ := ok
  have count : (xsk.umemFrameAddr.take n).length = n := List.length_take_of_le enough
  obtain ⟨fq, produced⟩ :=
    @ProdRing.produce_of_le _ xsk.fq (xsk.umemFrameAddr.take n) (by rw [count]; exact slots)
  have entries := ProdRing.produce_some produced
  refine ⟨fq, allocFrames_of_le enough, produced, ?_⟩
  obtain ⟨next, nextEq⟩ : ∃ next, next =
    { xsk with fq := fq, umemFrameAddr := xsk.umemFrameAddr.drop n } := ⟨_, rfl⟩
  rw [← nextEq]
  have left : (xsk.frames (.reserveFill n) .free).Perm
      (xsk.umemFrameAddr.take n ++ next.frames .idle .free) := by
    simp only [XskSocketInfo.frames, nextEq, List.take_append_drop]
    exact List.Perm.refl _
  have arrived : (next.frames .idle .fill).Perm
      (xsk.umemFrameAddr.take n ++ xsk.frames (.reserveFill n) .fill) := by
    simp only [XskSocketInfo.frames, nextEq, entries]
    rw [List.append_assoc]
    exact List.perm_append_comm_assoc _ _ _
  refine ⟨custody.move .free .fill _ (by decide) left arrived ?_, ?_, trivial⟩
  · rintro (_ | _ | _ | _ | _ | _) notSource notTarget <;>
      first | contradiction | (rw [nextEq]; rfl)
  · rw [nextEq]
    exact outstanding

/-- `drain_done_and_tx` looks for free slots. -/
theorem nbFreeTx {list : Option Addr} {batch : List Addr} (ok : FramesOk xsk (.collect list batch))
    {want : Nat} (slots : want ≤ (xsk.tx.nbFree batch.length).cachedFree)
    (enough : want ≤ xsk.umemFrameAddr.length) (within : want ≤ batch.length) :
    FramesOk { xsk with tx := xsk.tx.nbFree batch.length } (.send list batch want) := by
  have same : FramesOk { xsk with tx := xsk.tx.nbFree batch.length } .idle := by
    refine ⟨ok.custody.reorder ?_, ?_, trivial⟩
    · rintro (_ | _ | _ | _ | _ | _)
      case tx =>
          simp only [XskSocketInfo.frames, ProdRing.nbFree_entries]
          exact List.Perm.refl _
      all_goals exact List.Perm.refl _
    · simp only [XskSocketInfo.frames, ProdRing.nbFree_entries]
      exact ok.outstanding
  exact same.goto rfl rfl ⟨enough, slots, within⟩

/-- Free frames with the responses to some jobs are put on the TX ring. -/
theorem transmit {list : Option Addr} {batch : List Addr} {want : Nat}
    (ok : FramesOk xsk (.send list batch want)) {jobs : List DnsJob} (count : jobs.length = want) :
    ∃ descs tx, allocFrames want xsk.umemFrameAddr =
        (xsk.umemFrameAddr.take want, xsk.umemFrameAddr.drop want) ∧
      List.zipWith (fun frame job => ⟨frame, buildResponseFrame job⟩)
        (xsk.umemFrameAddr.take want) jobs = descs ∧
      descs.length = want ∧
      xsk.tx.produce descs = some tx ∧
      FramesOk
        { xsk with
          tx := tx
          umemFrameAddr := xsk.umemFrameAddr.drop want
          outstandingTx := xsk.outstandingTx + want }
        (.collect list []) := by
  have ⟨custody, outstanding, enough, slots, _⟩ := ok
  have taken : (xsk.umemFrameAddr.take want).length = want := List.length_take_of_le enough
  obtain ⟨descs, descsEq⟩ : ∃ descs, List.zipWith
    (fun frame job => (⟨frame, buildResponseFrame job⟩ : XdpDesc)) (xsk.umemFrameAddr.take want)
      jobs = descs := ⟨_, rfl⟩
  have length : descs.length = want := by
    rw [← descsEq, List.length_zipWith, taken, count, Nat.min_self]
  have addrs : descs.map XdpDesc.addr = xsk.umemFrameAddr.take want := by
    rw [← descsEq, List.map_zipWith, ← List.map_uncurry_zip_eq_zipWith]
    exact List.map_fst_zip (by omega)
  obtain ⟨tx, produced⟩ :=
    @ProdRing.produce_of_le _ xsk.tx descs (by rw [length]; exact slots)
  have entries := ProdRing.produce_some produced
  refine ⟨descs, tx, allocFrames_of_le enough, descsEq, length, produced, ?_⟩
  obtain ⟨next, nextEq⟩ : ∃ next, next =
    { xsk with
      tx := tx
      umemFrameAddr := xsk.umemFrameAddr.drop want
      outstandingTx := xsk.outstandingTx + want } := ⟨_, rfl⟩
  rw [← nextEq]
  have left : (xsk.frames (.send list batch want) .free).Perm
      (xsk.umemFrameAddr.take want ++ next.frames (.collect list []) .free) := by
    simp only [XskSocketInfo.frames, nextEq, List.take_append_drop]
    exact List.Perm.refl _
  have arrived : (next.frames (.collect list []) .tx).Perm
      (xsk.umemFrameAddr.take want ++ xsk.frames (.send list batch want) .tx) := by
    simp only [XskSocketInfo.frames, nextEq, entries, List.map_append, addrs]
    rw [List.append_assoc]
    exact List.perm_append_comm_assoc _ _ _
  refine ⟨custody.move .free .tx _ (by decide) left arrived ?_, ?_, trivial⟩
  · rintro (_ | _ | _ | _ | _ | _) notSource notTarget <;>
      first | contradiction | (rw [nextEq]; rfl)
  · have more := arrived.length_eq
    rw [List.length_append, taken] at more
    have counted : next.outstandingTx = xsk.outstandingTx + want := by rw [nextEq]
    have unchanged : (next.frames (.collect list []) .completion).length =
        (xsk.frames (.send list batch want) .completion).length := by
      rw [nextEq]
      rfl
    simp only [LoopPc.completed] at outstanding ⊢
    omega

/-- Completed frames are taken off the completion ring. -/
theorem peekCompletion (ok : FramesOk xsk .idle) (wanted : Nat) :
    FramesOk { xsk with cq := (xsk.cq.peek wanted).2 }
      (.reclaim (xsk.cq.peek wanted).1 (xsk.cq.peek wanted).1.length) := by
  have ⟨custody, outstanding, _⟩ := ok
  have split := @ConsRing.peek_append _ xsk.cq wanted
  obtain ⟨⟨addrs, cq⟩, peeked⟩ : ∃ peeked, xsk.cq.peek wanted = peeked := ⟨_, rfl⟩
  rw [peeked] at split ⊢
  obtain ⟨next, nextEq⟩ : ∃ next, next = { xsk with cq := cq } := ⟨_, rfl⟩
  rw [← nextEq]
  have left : (xsk.frames .idle .completion).Perm
      (addrs ++ next.frames (.reclaim addrs addrs.length) .completion) := by
    simp only [XskSocketInfo.frames, ← split, nextEq]
    exact List.Perm.refl _
  have arrived : (next.frames (.reclaim addrs addrs.length) .hand).Perm
      (addrs ++ xsk.frames .idle .hand) := by
    simp only [XskSocketInfo.frames, LoopPc.hand, List.append_nil]
    exact List.Perm.refl _
  refine ⟨custody.move .completion .hand addrs (by decide) left arrived ?_, ?_, trivial⟩
  · rintro (_ | _ | _ | _ | _ | _) notSource notTarget <;>
      first | contradiction | (rw [nextEq]; rfl)
  · have fewer := left.length_eq
    rw [List.length_append] at fewer
    have unchanged : next.outstandingTx = xsk.outstandingTx ∧
        (next.frames (.reclaim addrs addrs.length) .tx).length =
          (xsk.frames .idle .tx).length := by
      rw [nextEq]
      exact ⟨rfl, rfl⟩
    simp only [LoopPc.completed] at outstanding ⊢
    omega

/-- The end of `reclaim_tx`: `outstanding_tx` is at least the number of completions. -/
theorem reclaimRelease {completed : Nat} (ok : FramesOk xsk (.reclaim [] completed)) :
    FramesOk
      { xsk with
        cq := xsk.cq.release completed
        outstandingTx := xsk.outstandingTx -
          if completed < xsk.outstandingTx then completed else xsk.outstandingTx }
      .idle := by
  have ⟨custody, outstanding, _⟩ := ok
  refine ⟨custody.reorder ?_, ?_, trivial⟩
  · rintro (_ | _ | _ | _ | _ | _) <;> exact List.Perm.refl _
  · simp only [XskSocketInfo.frames, LoopPc.completed, ConsRing.release_entries] at outstanding ⊢
    split <;> omega

end FramesOk

end FizzDns
