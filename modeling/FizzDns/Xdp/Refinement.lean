import FizzDns.Xdp.Representation

/-!
# The threads carry out the pipeline

Every action succeeds in a state that represents a sound pipeline, takes it a `PipeStep` further
and does to each socket what `SocketStep` allows (`System.step_refines`). So a whole run succeeds,
and what is kept by the steps of a pipeline and of a socket holds in every state that is
reached (`System.Sound.run`).
-/

namespace FizzDns

section

variable {nloops numWorkers : Nat} {s s' : System nloops numWorkers}
  {p p' : Pipeline nloops numWorkers}

/-! ## One action -/

/-- The frames that a refill leaves out when the thread goes on. -/
def XskSocketInfo.shortfall (xsk : XskSocketInfo) : LoopPc → Nat
  | .refill n => n - System.refillCount n xsk.fq xsk.umemFrameAddr
  | _ => 0

/-- The frames that a refill of a loop leaves out in an action. -/
def System.shortfall (s : System nloops numWorkers) : Action nloops numWorkers → Fin nloops → Nat
  | .loop i _, j => if i = j then (s.loops j).xsk.shortfall (s.loops j).pc else 0
  | _, _ => 0

/-- An action does to each socket what it can do to it, and what is put on a TX ring is on
record. -/
def System.Sockets (s : System nloops numWorkers) (action : Action nloops numWorkers)
    (s' : System nloops numWorkers) : Prop :=
  ∀ j, ∃ out, SocketStep (s.loops j).xsk (s.loops j).pc (s.shortfall action j) out
      (s'.loops j).xsk (s'.loops j).pc ∧
    ∀ desc ∈ out, ∃ addr, (j, addr, desc) ∈ s'.sent

/-- The result of an action is a step of the pipeline and of the sockets. -/
def System.Refines (s : System nloops numWorkers) (p : Pipeline nloops numWorkers)
    (action : Action nloops numWorkers) (result : Option (System nloops numWorkers)) : Prop :=
  ∃ s' p', result = some s' ∧ PipeStep p p' ∧ Represents s' p' ∧ s.Sockets action s'

variable {action : Action nloops numWorkers}

theorem System.shortfall_loop {i : Fin nloops} {allocates : Bool} :
    s.shortfall (.loop i allocates) i = (s.loops i).xsk.shortfall (s.loops i).pc :=
  if_pos rfl

theorem System.Sockets.of_same (none : ∀ j, s.shortfall action j = 0)
    (same : ∀ j, (s'.loops j).xsk = (s.loops j).xsk ∧ (s'.loops j).pc = (s.loops j).pc) :
    s.Sockets action s' := by
  intro j
  rw [none j, (same j).1, (same j).2]
  exact ⟨[], .stay, nofun⟩

/-- An action on one socket. -/
theorem System.Sockets.of_update {i : Fin nloops} {lp : LoopCtx} {out : List XdpDesc}
    (none : ∀ j, j ≠ i → s.shortfall action j = 0) (loops : s'.loops = Function.update s.loops i lp)
    (here : SocketStep (s.loops i).xsk (s.loops i).pc (s.shortfall action i) out lp.xsk lp.pc)
    (sent : ∀ desc ∈ out, ∃ addr, (i, addr, desc) ∈ s'.sent) : s.Sockets action s' := by
  intro j
  rw [loops]
  by_cases same : j = i
  · subst same
    rw [Function.update_self]
    exact ⟨out, here, sent⟩
  · rw [Function.update_of_ne same, none j same]
    exact ⟨[], .stay, nofun⟩

/-- An action on one socket that puts nothing on its TX ring. -/
theorem System.Sockets.of_update_nil {i : Fin nloops} {lp : LoopCtx}
    (none : ∀ j, j ≠ i → s.shortfall action j = 0) (loops : s'.loops = Function.update s.loops i lp)
    (here : SocketStep (s.loops i).xsk (s.loops i).pc (s.shortfall action i) [] lp.xsk lp.pc) :
    s.Sockets action s' :=
  .of_update none loops here fun _ member => absurd member List.not_mem_nil

theorem System.shortfall_of_ne {i j : Fin nloops} {allocates : Bool} (away : j ≠ i) :
    s.shortfall (.loop i allocates) j = 0 :=
  if_neg fun same => away same.symm

/-- A thread that only waits. -/
theorem System.refines_stutter (represents : Represents s p)
    (none : ∀ j, s.shortfall action j = 0) : s.Refines p action (some s) :=
  ⟨s, p, rfl, .quiet, represents, .of_same none fun _ => ⟨rfl, rfl⟩⟩

/-- An action on one socket that does not concern the jobs. -/
theorem System.refines_setXsk (represents : Represents s p) {i : Fin nloops} {xsk : XskSocketInfo}
    {pc : LoopPc} (none : ∀ j, j ≠ i → s.shortfall action j = 0)
    (jobs : pc.SameJobs (s.loops i).pc) (stats : xsk.stats = (s.loops i).xsk.stats)
    (here : SocketStep (s.loops i).xsk (s.loops i).pc (s.shortfall action i) [] xsk pc) :
    s.Refines p action (some (s.setXsk i xsk pc)) :=
  ⟨_, p, rfl, .quiet, represents.setXsk i jobs stats, .of_update_nil none rfl here⟩

/-- The kernel counts nothing. -/
theorem XskSocketInfo.kernel_stats (xsk : XskSocketInfo) (step : KernelStep) :
    (xsk.kernel step).stats = xsk.stats := by
  cases step <;> simp only [XskSocketInfo.kernel] <;> repeat' split
  all_goals rfl

/-- A call that is not made since the thread is in another. -/
theorem System.call_refines (represents : Represents s p) {i : Fin nloops}
    {body : System nloops numWorkers → System nloops numWorkers}
    (none : ∀ j, s.shortfall action j = 0)
    (made : (s.loops i).pc = .idle → s.Refines p action (some (body s))) :
    s.Refines p action (some (s.call i body)) := by
  unfold System.call
  split
  · next idle => exact made idle
  · exact System.refines_stutter represents none

/-- A packet is taken care of and its frame freed. -/
theorem System.rxPacket_refines (represents : Represents s p) (ok : PipeOk p) {i : Fin nloops}
    {allocates : Bool} {desc : XdpDesc} {left : List XdpDesc} {rcvd : Nat}
    (pc : (s.loops i).pc = .rx (desc :: left) rcvd)
    (frames : FramesOk (s.loops i).xsk (.rx (desc :: left) rcvd)) :
    s.Refines p (.loop i allocates) (s.rxPacket i allocates desc left rcvd) := by
  obtain ⟨t, p', stats, done, step, next, loops⟩ :=
    System.rxJob_refines represents ok i allocates desc.packet
  have socket : t.loops i = { s.loops i with xsk := { (s.loops i).xsk with stats := stats } } := by
    rw [loops, Function.update_self]
  have freed : xskFreeFrame (xskFrameBase desc.addr) (t.loops i).xsk.umemFrameAddr =
      some (xskFrameBase desc.addr :: (s.loops i).xsk.umemFrameAddr) := by
    rw [socket]
    exact frames.freeRx.1
  simp only [System.rxPacket, done, freed, Option.bind_eq_bind, Option.bind_some]
  refine ⟨_, p', rfl, step, next.setXsk i ?_ rfl, ?_⟩
  · rw [socket]
    simp only [pc]
    exact ⟨rfl, rfl, rfl⟩
  · obtain ⟨xsk, xskEq⟩ : ∃ xsk : XskSocketInfo, xsk =
      { (s.loops i).xsk with
        stats := stats
        umemFrameAddr := xskFrameBase desc.addr :: (s.loops i).xsk.umemFrameAddr } := ⟨_, rfl⟩
    have freeing : SocketStep (s.loops i).xsk (s.loops i).pc
        (s.shortfall (.loop i allocates) i) [] xsk (.rx left rcvd) := by
      rw [System.shortfall_loop, pc, xskEq]
      exact .freeRx stats desc left rcvd
    refine .of_update_nil (fun j away => System.shortfall_of_ne away)
      (show _ = Function.update s.loops i ⟨xsk, (s.loops i).doneQ, .rx left rcvd⟩ from ?_) freeing
    simp only [System.setXsk, System.setLoop, loops, Function.update_self, Function.update_idem,
      xskEq]

/-- A loop thread goes on. -/
theorem System.loopStep_refines (represents : Represents s p) (ok : PipeOk p) {i : Fin nloops}
    (frames : FramesOk (s.loops i).xsk (s.loops i).pc) (allocates : Bool) :
    s.Refines p (.loop i allocates) (s.loopStep i allocates) := by
  have others : ∀ j, j ≠ i → s.shortfall (.loop i allocates) j = 0 :=
    fun j away => System.shortfall_of_ne away
  have here := @System.shortfall_loop _ _ s i allocates
  unfold System.loopStep
  cases pc : (s.loops i).pc with
  | idle =>
      refine System.refines_stutter represents fun j => ?_
      by_cases same : j = i
      · rw [same, here, pc]
        rfl
      · exact others j same
  | rx left rcvd =>
      rw [pc] at frames
      cases left with
      | nil =>
          refine System.refines_setXsk represents others ?_ rfl ?_
          · rw [pc]
            exact ⟨rfl, rfl, rfl⟩
          · rw [here, pc]
            exact .rxRelease rcvd
      | cons desc left => exact System.rxPacket_refines represents ok pc frames
  | refill n =>
      refine System.refines_setXsk represents others ?_ rfl ?_
      · rw [pc]
        split_ifs <;> exact ⟨rfl, rfl, rfl⟩
      · rw [here, pc]
        exact .refillFq n
  | reserveFill n =>
      rw [pc] at frames
      obtain ⟨fq, alloc, produced, _⟩ := frames.reserveFill
      simp only [System.reserveFill, alloc, produced]
      refine System.refines_setXsk represents others ?_ rfl ?_
      · rw [pc]
        exact ⟨rfl, rfl, rfl⟩
      · rw [here, pc]
        exact .reserveFill n produced
  | collect list batch =>
      obtain ⟨s', p', xsk, pc', result, step, next, loops, socket⟩ :=
        System.collect_refines represents ok pc
      refine ⟨s', p', result, step, next, .of_update_nil others loops ?_⟩
      rw [here, pc]
      exact socket
  | send list batch want =>
      rw [pc] at frames
      obtain ⟨s', p', xsk, pc', descs, result, step, next, loops, socket, sent⟩ :=
        System.sendBatch_refines represents ok pc frames
      refine ⟨s', p', result, step, next, .of_update others loops ?_ sent⟩
      rw [here, pc]
      exact socket
  | reclaim left completed =>
      rw [pc] at frames
      cases left with
      | nil =>
          refine System.refines_setXsk represents others ?_ rfl ?_
          · rw [pc]
            exact ⟨rfl, rfl, rfl⟩
          · rw [here, pc]
            exact .reclaimRelease completed
      | cons addr left =>
          simp only [System.reclaimFrame, frames.freeCompletion.1, Option.bind_eq_bind,
            Option.bind_some]
          refine System.refines_setXsk represents others ?_ rfl ?_
          · rw [pc]
            exact ⟨rfl, rfl, rfl⟩
          · rw [here, pc]
            exact .freeCompletion addr left completed

/-- Every action succeeds and is a step of the pipeline and of each socket. -/
theorem System.step_refines (represents : Represents s p) (ok : PipeOk p) (few : nloops ≤ maxXsks)
    (frames : ∀ i, FramesOk (s.loops i).xsk (s.loops i).pc) (action : Action nloops numWorkers) :
    s.Refines p action (s.step action) := by
  cases action with
  | kernel i step =>
      exact System.refines_setXsk represents (fun _ _ => rfl) ⟨rfl, rfl, rfl⟩
        (XskSocketInfo.kernel_stats _ step) (.kernel step)
  | drainRx i =>
      refine System.call_refines represents (fun _ => rfl) fun idle => ?_
      refine System.refines_setXsk represents (fun _ _ => rfl) ?_ rfl ?_
      · rw [idle]
        split_ifs <;> exact ⟨rfl, rfl, rfl⟩
      · rw [idle]
        exact .peekRx
  | drainDoneAndTx i =>
      refine System.call_refines represents (fun _ => rfl) fun idle => ?_
      obtain ⟨empty, next⟩ := represents.drain idle
      refine ⟨_, _, rfl, .drain i empty, next, .of_update_nil (fun _ _ => rfl) rfl ?_⟩
      rw [idle]
      exact .drain _
  | reclaimTx i =>
      refine System.call_refines represents (fun _ => rfl) fun idle => ?_
      unfold System.reclaimTx
      dsimp only
      split
      · exact System.refines_stutter represents fun _ => rfl
      · refine System.refines_setXsk represents (fun _ _ => rfl) ?_ rfl ?_
        · rw [idle]
          split_ifs <;> exact ⟨rfl, rfl, rfl⟩
        · rw [idle]
          exact .peekCompletion
  | loop i allocates => exact System.loopStep_refines represents ok (frames i) allocates
  | worker w answer =>
      obtain ⟨s', p', result, step, next, same⟩ :=
        System.workerStep_refines represents ok few w answer
      exact ⟨s', p', result, step, next, .of_same (fun _ => rfl) same⟩
  | shutdown =>
      have ⟨nodup, chain, tail, count, fifo⟩ := represents.pending
      exact ⟨_, _, rfl, .shutdown,
        { represents with pending := ⟨nodup, chain, tail, count, fifo⟩, shutdown := rfl },
        .of_same (fun _ => rfl) fun _ => ⟨rfl, rfl⟩⟩

/-! ## Runs -/

/-- What is known of a state that is reached. -/
structure System.Sound (s : System nloops numWorkers) (p : Pipeline nloops numWorkers) : Prop where
  represents : Represents s p
  pipe : PipeOk p
  frames : ∀ i, FramesOk (s.loops i).xsk (s.loops i).pc
  transmitted : ∀ i, ∀ desc ∈ (s.loops i).xsk.tx.entries ++ (s.loops i).xsk.sending,
    ∃ addr, (i, addr, desc) ∈ s.sent

/-- One action, from a sound state to a sound state. -/
theorem System.Sound.step (sound : s.Sound p) (few : nloops ≤ maxXsks)
    (action : Action nloops numWorkers) :
    ∃ s' p', s.step action = some s' ∧ s'.Sound p' ∧
      ∀ i, (s'.loops i).xsk.level (s'.loops i).pc + s.shortfall action i =
        (s.loops i).xsk.level (s.loops i).pc := by
  obtain ⟨s', p', result, step, represents, sockets⟩ :=
    System.step_refines sound.represents sound.pipe few sound.frames action
  refine ⟨s', p', result,
    ⟨represents, step.ok few sound.pipe, fun i => ?_, fun i desc member => ?_⟩, fun i => ?_⟩
  · obtain ⟨out, socket, _⟩ := sockets i
    exact socket.framesOk (sound.frames i)
  · obtain ⟨out, socket, recorded⟩ := sockets i
    rcases socket.mem_tx member with before | now
    · obtain ⟨addr, sent⟩ := sound.transmitted i desc before
      rw [sound.represents.sent] at sent
      rw [represents.sent]
      exact ⟨addr, step.sent_subset sent⟩
    · exact recorded desc now
  · obtain ⟨out, socket, _⟩ := sockets i
    exact socket.level_add (sound.frames i)

/-- Every action of a run meets a condition on the state before it. -/
def System.Throughout (condition : Action nloops numWorkers → System nloops numWorkers → Prop) :
    List (Action nloops numWorkers) → System nloops numWorkers → Prop
  | [], _ => True
  | action :: schedule, s =>
      condition action s ∧ ∀ s', s.step action = some s' → Throughout condition schedule s'

/-- A refill that starts now finds as many free slots as it needs. -/
def XskSocketInfo.RefillFits (xsk : XskSocketInfo) : LoopPc → Prop
  | .refill n => n ≤ xsk.fq.freeSlots
  | _ => True

/-- If an action is a refill of loop `i`, it finds as many free slots as it needs. -/
def System.RefillFits (i : Fin nloops) :
    Action nloops numWorkers → System nloops numWorkers → Prop
  | .loop j _, s => j = i → (s.loops i).xsk.RefillFits (s.loops i).pc
  | _, _ => True

/-- A refill leaves no frames out if it finds enough slots: there are always enough frames. -/
theorem FramesOk.shortfall_eq_zero {xsk : XskSocketInfo} {pc : LoopPc} (ok : FramesOk xsk pc) :
    xsk.shortfall pc = 0 ↔ xsk.RefillFits pc := by
  cases pc with
  | refill n =>
      have enough : n ≤ xsk.umemFrameAddr.length := ok.ready
      have slots := @ProdRing.le_nbFree_iff _ xsk.fq n
      simp only [XskSocketInfo.shortfall, XskSocketInfo.RefillFits, System.refillCount]
      rw [← slots]
      split_ifs <;> omega
  | _ => exact ⟨fun _ => trivial, fun _ => rfl⟩

theorem System.Sound.shortfall_eq_zero (sound : s.Sound p) (action : Action nloops numWorkers)
    (i : Fin nloops) : s.shortfall action i = 0 ↔ System.RefillFits i action s := by
  cases action with
  | loop j allocates =>
      by_cases same : j = i
      · subst same
        rw [System.shortfall_loop, (sound.frames j).shortfall_eq_zero]
        exact ⟨fun fits _ => fits, fun fits => fits rfl⟩
      · rw [System.shortfall_of_ne (Ne.symm same)]
        exact ⟨fun _ equal => absurd equal same, fun _ => rfl⟩
  | _ => exact ⟨fun _ => trivial, fun _ => rfl⟩

/-- Every run goes through sound states, and the frames of the receiving side get fewer unless
every refill finds enough slots. -/
theorem System.Sound.run (sound : s.Sound p) (few : nloops ≤ maxXsks)
    (schedule : List (Action nloops numWorkers)) :
    ∃ s' p', s.run schedule = some s' ∧ s'.Sound p' ∧
      ∀ i, (s'.loops i).xsk.level (s'.loops i).pc ≤ (s.loops i).xsk.level (s.loops i).pc ∧
        ((s'.loops i).xsk.level (s'.loops i).pc = (s.loops i).xsk.level (s.loops i).pc ↔
          System.Throughout (System.RefillFits i) schedule s) := by
  induction schedule generalizing s p with
  | nil => exact ⟨s, p, rfl, sound, fun i => ⟨Nat.le_refl _, fun _ => trivial, fun _ => rfl⟩⟩
  | cons action schedule ih =>
      obtain ⟨middle, p₁, stepped, soundMiddle, level⟩ := sound.step few action
      obtain ⟨last, p₂, ran, soundLast, levels⟩ := ih soundMiddle
      refine ⟨last, p₂, ?_, soundLast, fun i => ?_⟩
      · simp only [System.run, stepped, Option.bind_eq_bind, Option.bind_some, ran]
      obtain ⟨fewer, kept⟩ := levels i
      have first := level i
      refine ⟨by omega, ?_⟩
      simp only [System.Throughout, stepped, Option.some.injEq, forall_eq']
      rw [← sound.shortfall_eq_zero action i, ← kept]
      omega

end

end FizzDns
