import FizzDns.Lifecycle.Setup
import FizzDns.Xdp.System

/-!
# The two programs from start to end

`main` of the XDP server and of the UDP server. Whatever fails on the way, and wherever, each of
them gives back all that it took, once, and nothing before the threads that use it have ended.

What the pointers of the loops say is held, is held (`Owned`). That is why the teardown of the XDP
server, which looks at the pointers, is right wherever the setup stopped (`Ready`).
-/

namespace FizzDns.Lifecycle

open Ledger

/-! ## The XDP server -/

/-- The options that matter here. -/
structure Options where
  bpfObj : Bool
  queueId : Int
  nqueues : Int
  numWorkers : Int
  zerocopy : Bool

/-- `MAX_WORKERS`. -/
def maxWorkers : Nat := 32

/-- A number of threads, within its bounds. -/
def clampCount (most : Nat) (count : Int) : Nat :=
  if count < 1 then 1 else if count > most then most else count.toNat

/-- The number of loops. -/
def Options.nloops (opts : Options) : Nat := clampCount maxXsks opts.nqueues

/-- A later loop shares the program of the first one. -/
def cloneForLater (i : Nat) : Setup Unit :=
  if 0 < i then xskEnvCloneProgram i else pure ()

/-- The body of the loop that brings the sockets up: whether it goes on. -/
def setupLoop (opts : Options) (i : Nat) : Setup Bool := do
  cloneForLater i
  let fd ← attempt
  if fd < 0 then pure false
  else do
    acquire (xdpBases opts.nloops) (.eventfd i)
    setLoop i fun loop => { loop with doneEventfd := true }
    let err ← xskEnvSetupSocket (xdpBases opts.nloops) i (opts.queueId + i) opts.zerocopy
    pure (decide (err = 0))

/-- The socket of a loop, or a part of it, is used if it is there. -/
def useIfUp (part : Nat → Resource) (i : Nat) : Setup Unit := do
  let loops ← vars
  if (loops i).env.xsk = true then need (part i) else pure ()

/-- `print_stats`: the counters of the loops, of the kernel program and of the TCP server. -/
def printStats (nloops : Nat) (srv : Bool) : Setup Unit := do
  forEach (useIfUp .xskInfo) nloops 0
  xskEnvReadKernStats
  dnsTcpServerStats srv

/-- The threads are created and joined. -/
def runThreads (nloops numWorkers : Nat) : Setup Unit := do
  let workers ← upTo (tryNumbered (xdpBases nloops) .worker) numWorkers 0
  let started ← upTo (tryNumbered (xdpBases nloops) .loopThread) nloops 0
  forEach (fun i => release (xdpBases nloops) (.loopThread i)) started 0
  forEach (fun i => release (xdpBases nloops) (.worker i)) workers 0

/-- The part of `main` from the threads to `dns_backend_fini`. After the threads have ended, `main`
drains what is left on the rings. -/
def serveThreads (nloops numWorkers : Nat) (srv : Bool) : Setup Unit := do
  runThreads nloops numWorkers
  forEach (useIfUp .socket) nloops 0
  printStats nloops srv
  dnsTcpServerStop (xdpBases nloops) srv
  release (xdpBases nloops) .backend

/-- What `main` does between `dns_backend_init` and `err_teardown`. -/
def serveXdp (nloops numWorkers : Nat) : Setup Unit := do
  let srv ← dnsTcpServerStart (xdpBases nloops)
  serveThreads nloops numWorkers srv

/-- If all sockets are up, and the backend too, the server runs. -/
def runIfReady (opts : Options) (ready : Nat) : Setup Unit :=
  if ready = opts.nloops then do
    let err ← tryAcquire (xdpBases opts.nloops) .backend
    if err ≠ 0 then pure ()
    else serveXdp opts.nloops (clampCount maxWorkers opts.numWorkers)
  else pure ()

/-- The first half of the body behind `err_teardown`. -/
def teardownEnv (nloops i : Nat) : Setup Unit := do
  let loops ← vars
  if (loops i).env.xsk = true ∨ (loops i).env.prog = true then
    xskEnvTeardown (xdpBases nloops) i
  else pure ()

/-- The second half. -/
def closeEventfd (nloops i : Nat) : Setup Unit := do
  let loops ← vars
  if (loops i).doneEventfd = true then release (xdpBases nloops) (.eventfd i) else pure ()

/-- The loop behind `err_teardown`. The first loop, and with it the program, goes first; the other
sockets do not rest on the program. -/
def errTeardown (nloops : Nat) : Setup Unit :=
  forEach (fun i => do
    teardownEnv nloops i
    closeEventfd nloops i) nloops 0

/-- What `main` does before the backend: it checks the configuration, loads the program and brings
the sockets up. `none` when it returns at once, and else how many sockets there are. -/
def setupXdp (opts : Options) : Setup (Option Nat) := do
  let misconfigured ← attempt
  if misconfigured ≠ 0 then pure none
  else do
    let err ← xskEnvLoadProgram (xdpBases opts.nloops) opts.bpfObj
    if err ≠ 0 then pure none
    else do
      let ready ← upTo (setupLoop opts) opts.nloops 0
      pure (some ready)

/-- What `main` does behind the setup of the sockets. -/
def runXdp (opts : Options) (ready : Nat) : Setup Int := do
  runIfReady opts ready
  errTeardown opts.nloops
  pure 0

/-- `main` of the XDP server, behind the options. -/
def xdpMain (opts : Options) : Setup Int := do
  let setup ← setupXdp opts
  setup.elim (pure 1) (runXdp opts)

/-- Nothing is held, and no loop is set up. -/
def initially (outcomes : List Int) : Books Resource (Nat → Loop) where
  held := ∅
  outcomes := outcomes
  vars := fun _ => ⟨XskEnv.zero, false, false⟩

/-! ## The UDP server -/

/-- What the resources of the UDP server rest on. -/
def udpBases : Resource → List Resource
  | .listenFd => [.tcpServer]
  | .acceptThread => [.tcpServer, .listenFd, .backend]
  | .worker _ => [.backend, .udpSocket]
  | _ => []

/-- The part of `main` from the threads to `dns_backend_fini`. The socket is read until a signal
comes. -/
def udpThreads (numWorkers : Nat) (srv : Bool) : Setup Unit := do
  let workers ← upTo (tryNumbered udpBases .worker) numWorkers 0
  need .udpSocket
  forEach (fun i => release udpBases (.worker i)) workers 0
  dnsTcpServerStats srv
  dnsTcpServerStop udpBases srv
  release udpBases .backend

/-- What `main` does behind `dns_backend_init`. -/
def serveUdp (numWorkers : Nat) : Setup Unit := do
  let srv ← dnsTcpServerStart udpBases
  udpThreads numWorkers srv

/-- `main` of the UDP server, behind the options. -/
def udpMain (numWorkers : Int) : Setup Int := do
  let opened ← tryAcquire udpBases .udpSocket
  if opened ≠ 0 then pure 1
  else do
    let bound ← attempt
    if bound ≠ 0 then do
      release udpBases .udpSocket
      pure 1
    else do
      let err ← tryAcquire udpBases .backend
      if err ≠ 0 then do
        release udpBases .udpSocket
        pure 1
      else do
        serveUdp (clampCount maxWorkers numWorkers)
        release udpBases .udpSocket
        pure 0

/-! ## The setup of the loops -/

/-- What the pointers stand for. `fds` are the loops whose eventfd is open. -/
def Owned (loops : Nat → Loop) (fds : Nat → Prop) : Resource → Prop
  | .program => (loops 0).env.prog = true
  | .attachment => (loops 0).env.prog = true
  | .eventfd i => fds i
  | .buffer i => (loops i).env.xsk = true
  | .umemInfo i => (loops i).env.xsk = true
  | .umem i => (loops i).env.xsk = true
  | .xskInfo i => (loops i).env.xsk = true
  | .socket i => (loops i).env.xsk = true
  | _ => False

section Setup

variable {n k : Nat} {s : Books Resource (Nat → Loop)} {fds : Nat → Prop}

theorem owned_of_mem_socketStack {loops : Nat → Loop} {i : Nat} {resource : Resource}
    (listed : resource ∈ socketStack i) :
    Owned loops fds resource ↔ (loops i).env.xsk = true := by
  simp only [socketStack, List.mem_cons, List.not_mem_nil, or_false] at listed
  rcases listed with rfl | rfl | rfl | rfl | rfl
  all_goals exact Iff.rfl

/-- The loops whose eventfd is open. -/
def openFds (loops : Nat → Loop) (i : Nat) : Prop := (loops i).doneEventfd = true

/-- What the pointers stand for when one loop has changed, though not its program. -/
theorem owned_update {loops : Nat → Loop} {i : Nat} {left : Loop} {now : Nat → Prop}
    (prog : left.env.prog = (loops i).env.prog) (others : ∀ j, j ≠ i → (now j ↔ fds j))
    (resource : Resource) :
    Owned (Function.update loops i left) now resource ↔
      resource = .eventfd i ∧ now i ∨ resource ∈ socketStack i ∧ left.env.xsk = true ∨
      (resource ≠ .eventfd i ∧ resource ∉ socketStack i) ∧ Owned loops fds resource := by
  have first : (Function.update loops i left 0).env.prog = (loops 0).env.prog := by
    by_cases same : 0 = i
    · subst same
      rw [Function.update_self, prog]
    · rw [Function.update_of_ne same]
  cases resource with
  | program | attachment => simp [Owned, first, socketStack]
  | eventfd j | buffer j | umemInfo j | umem j | xskInfo j | socket j =>
      by_cases same : j = i
      · subst same
        simp [Owned, socketStack]
      · simp [Owned, socketStack, same, others]
  | _ => simp [Owned, socketStack]

/-- Only an eventfd depends on which of them are open. -/
theorem owned_congr {loops : Nat → Loop} {now : Nat → Prop} {resource : Resource}
    (agree : ∀ j, resource = .eventfd j → (now j ↔ fds j)) :
    Owned loops now resource ↔ Owned loops fds resource := by
  cases resource with
  | eventfd j => exact agree j rfl
  | _ => exact Iff.rfl

/-- What is known of each loop. Its socket is up or down; only the first one has the program, if one
was loaded. -/
structure Loop.Sound (loaded : Bool) (i : Nat) (loop : Loop) : Prop where
  whole : loop.IsUp ∨ loop.IsDown
  prog : loop.env.prog = (decide (i = 0) && loaded)
  owns : loop.env.prog = true → loop.env.ownsProg = true
  custom : loop.env.customProg = true → loaded = true
  stats : i = 0 → 0 ≤ loop.env.statsMapFd → loaded = true

theorem Loop.Sound.of_follows {loaded : Bool} {i : Nat} {loop left : Loop}
    (sound : loop.Sound loaded i) (follows : loop.Follows left) (whole : left.IsUp ∨ left.IsDown) :
    left.Sound loaded i where
  whole := whole
  prog := follows.prog.trans sound.prog
  owns := by
    rw [follows.prog, follows.ownsProg]
    exact sound.owns
  custom := by
    rw [follows.customProg]
    exact sound.custom
  stats := by
    rw [follows.statsMapFd]
    exact sound.stats

/-- After the setup of some loops, which may have ended early: what is held is what the pointers
say. -/
structure Ready (loaded : Bool) (k : Nat) (s : Books Resource (Nat → Loop)) : Prop where
  accounted : ∀ resource, resource ∈ s.held ↔ Owned s.vars (openFds s.vars) resource
  sound : ∀ i, (s.vars i).Sound loaded i
  later : ∀ i, k ≤ i → (s.vars i).IsDown ∧ (s.vars i).doneEventfd = false

namespace Ready

variable {loaded : Bool}

theorem mono (ready : Ready loaded k s) {more : Nat} (le : k ≤ more) : Ready loaded more s :=
  { ready with later := fun i after => ready.later i (le.trans after) }

/-- One loop changes. -/
theorem update (ready : Ready loaded k s) {i : Nat} {left : Loop} {held : Finset Resource}
    {outcomes : List Int} (sound : left.Sound loaded i)
    (later : k ≤ i → left.IsDown ∧ left.doneEventfd = false)
    (accounted : ∀ resource, resource ∈ held ↔
      resource = .eventfd i ∧ left.doneEventfd = true ∨
      resource ∈ socketStack i ∧ left.env.xsk = true ∨
      (resource ≠ .eventfd i ∧ resource ∉ socketStack i) ∧ resource ∈ s.held) :
    Ready loaded k ⟨held, outcomes, Function.update s.vars i left⟩ where
  accounted := fun resource => by
    have others : ∀ j, j ≠ i →
        (openFds (Function.update s.vars i left) j ↔ openFds s.vars j) := by
      intro j apart
      rw [openFds, openFds, Function.update_of_ne apart]
    rw [accounted, owned_update (sound.prog.trans (ready.sound i).prog.symm) others,
      ready.accounted, openFds, Function.update_self]
  sound := (Function.forall_update_iff s.vars (p := fun j loop => loop.Sound loaded j)).mpr
    ⟨sound, fun j _ => ready.sound j⟩
  later := (Function.forall_update_iff s.vars
    (p := fun j loop => k ≤ j → loop.IsDown ∧ loop.doneEventfd = false)).mpr
    ⟨later, fun j _ => ready.later j⟩

/-- Nothing of a socket that is down is held. -/
theorem socket_not_held (ready : Ready loaded k s) {i : Nat} (down : (s.vars i).IsDown) :
    ∀ resource ∈ socketStack i, resource ∉ s.held := by
  intro resource listed held
  have up := (owned_of_mem_socketStack listed).mp ((ready.accounted resource).mp held)
  rw [down.xsk] at up
  cases up

theorem eventfd_not_held (ready : Ready loaded k s) {i : Nat}
    (shut : (s.vars i).doneEventfd = false) : .eventfd i ∉ s.held := by
  intro held
  have opened : (s.vars i).doneEventfd = true := (ready.accounted _).mp held
  rw [shut] at opened
  cases opened

/-- A later loop gets a copy of the first one's environment. -/
theorem cloneForLater (ready : Ready loaded k s) :
    Wp (cloneForLater k)
      (fun _ after => Ready loaded k after ∧ ∀ i, i ≠ k → after.vars i = s.vars i) s := by
  unfold Lifecycle.cloneForLater xskEnvCloneProgram
  obtain ⟨down, shut⟩ := ready.later k (Nat.le_refl k)
  rw [wp_ite, wp_bind, wp_vars, wp_setEnv, wp_pure]
  refine ⟨fun later => ⟨?_, fun i apart => Function.update_of_ne apart _ _⟩, fun _ =>
    ⟨ready, fun _ _ => rfl⟩⟩
  have first : ¬ k = 0 := Nat.ne_of_gt later
  refine ready.update ⟨.inr ⟨rfl, rfl, rfl⟩, ?_, ?_, (ready.sound 0).custom, ?_⟩
    (fun _ => ⟨⟨rfl, rfl, rfl⟩, shut⟩) fun resource => ?_
  · simp [first, XskEnv.zero]
  · simp [XskEnv.zero]
  · exact fun zero => absurd zero first
  · have closed : resource ∈ s.held → resource ≠ .eventfd k ∧ resource ∉ socketStack k := by
      intro held
      refine ⟨fun same => ready.eventfd_not_held shut (same ▸ held), fun listed => ?_⟩
      exact ready.socket_not_held down resource listed held
    simp only [shut, XskEnv.zero, Bool.false_eq_true, and_false, false_or]
    exact ⟨fun held => ⟨closed held, held⟩, And.right⟩

/-- The eventfd of a loop is opened. -/
theorem opened (ready : Ready loaded k s) {i : Nat} (down : (s.vars i).IsDown) (below : i < k) :
    Ready loaded k { s with
      held := insert (.eventfd i) s.held
      vars := Function.update s.vars i ({ s.vars i with doneEventfd := true }) } := by
  have sound := ready.sound i
  refine ready.update ⟨.inr ⟨down.xsk, down.umem, down.packetBuffer⟩, sound.prog, sound.owns,
    sound.custom, sound.stats⟩ (fun after => absurd after (by omega)) fun resource => ?_
  have closed := ready.socket_not_held down resource
  rw [Finset.mem_insert]
  simp only [down.xsk, Bool.false_eq_true, and_false, false_or, and_true]
  constructor
  · rintro (same | held)
    · exact .inl same
    · by_cases same : resource = .eventfd i
      · exact .inl same
      · exact .inr ⟨⟨same, fun listed => closed listed held⟩, held⟩
  · exact Or.imp_right And.right

/-- The socket of a loop is set up, or not. -/
theorem setUp (ready : Ready loaded k s) {i : Nat} (down : (s.vars i).IsDown) (below : i < k)
    (opened : (s.vars i).doneEventfd = true) {ret : Int} {after : Books Resource (Nat → Loop)}
    (result : SetUp i (s.vars i) s.held s.vars ret after) : Ready loaded k after := by
  obtain ⟨left, vars, follows, result⟩ := result
  obtain ⟨held, outcomes, _⟩ := after
  obtain rfl := vars
  have fd : .eventfd i ∈ s.held := (ready.accounted _).mpr opened
  have whole : left.IsUp ∨ left.IsDown := by
    rcases result with ⟨_, up, _⟩ | ⟨_, isDown, _⟩
    · exact .inl up
    · exact .inr isDown
  refine ready.update ((ready.sound i).of_follows follows whole)
    (fun after => absurd after (by omega)) fun resource => ?_
  have closed := ready.socket_not_held down resource
  have apart : resource = .eventfd i → resource ∉ socketStack i := by
    rintro rfl
    simp [socketStack]
  rw [follows.doneEventfd.trans opened]
  rcases result with ⟨_, up, same⟩ | ⟨_, isDown, same⟩
  · obtain rfl : held = pile s.held (socketStack i) := same
    rw [mem_pile, up.xsk]
    by_cases one : resource = .eventfd i
    · subst one
      simp [fd]
    · tauto
  · obtain rfl : held = s.held := same
    rw [isDown.xsk]
    by_cases one : resource = .eventfd i
    · subst one
      simp [fd]
    · simp only [one, Bool.false_eq_true, and_false, false_or, and_true, ne_eq, not_false_eq_true,
        true_and]
      exact ⟨fun inside => ⟨fun listed => closed listed inside, inside⟩, And.right⟩

end Ready

/-- Loops that have all they need to run. -/
def AllUp (k : Nat) (loops : Nat → Loop) : Prop :=
  ∀ i < k, (loops i).IsUp ∧ (loops i).doneEventfd = true

/-- One turn of the setup: the loop is up, or the setup ends with what there is. -/
theorem setupLoop_spec {loaded : Bool} (opts : Options) (ready : Ready loaded k s)
    (up : AllUp k s.vars) :
    Wp (setupLoop opts k) (fun goes after =>
      if goes then Ready loaded (k + 1) after ∧ AllUp (k + 1) after.vars
      else Ready loaded (k + 1) after) s := by
  unfold setupLoop
  rw [wp_bind]
  refine ready.cloneForLater.mono ?_
  rintro _ cloned ⟨readied, unchanged⟩
  rw [wp_bind]
  refine wp_attempt fun fd outcomes => ?_
  have ready : Ready loaded (k + 1) { cloned with outcomes := outcomes } :=
    { readied.mono (Nat.le_succ k) with }
  obtain ⟨down, shut⟩ := readied.later k (Nat.le_refl k)
  rw [wp_ite, wp_pure]
  refine ⟨fun _ => ready, fun _ => ?_⟩
  rw [wp_bind, wp_acquire]
  refine ⟨⟨readied.eventfd_not_held shut, by simp [xdpBases]⟩, ?_⟩
  rw [wp_bind, wp_setLoop, wp_bind]
  have opened := ready.opened down (Nat.lt_succ_self k)
  have loopDown : (Function.update cloned.vars k
      ({ cloned.vars k with doneEventfd := true }) k).IsDown := by
    rw [Function.update_self]
    exact ⟨down.xsk, down.umem, down.packetBuffer⟩
  have legal : Stacks (xdpBases opts.nloops) (insert (.eventfd k) cloned.held) (socketStack k) :=
    stacks_socket (opened.socket_not_held loopDown) fun held => (opened.accounted _).mp held
  refine (xskEnvSetupSocket_spec legal ?_ loopDown _ _).mono ?_
  · intro custom
    have given := (opened.sound k).custom custom
    refine (opened.accounted _).mpr ?_
    have first := (opened.sound 0).prog
    simpa [given, Owned] using first
  · intro ret after result
    have readyAfter := opened.setUp loopDown (Nat.lt_succ_self k) (by simp) result
    obtain ⟨left, vars, follows, result⟩ := result
    simp only [Function.update_self, Function.update_idem] at vars follows
    rw [wp_pure, vars]
    rcases result with ⟨rfl, isUp, _⟩ | ⟨bad, _, _⟩
    · rw [decide_eq_true rfl, if_pos rfl]
      refine ⟨readyAfter, fun i below => ?_⟩
      by_cases same : i = k
      · subst same
        rw [Function.update_self]
        exact ⟨isUp, follows.doneEventfd⟩
      · rw [Function.update_of_ne same, unchanged i same]
        exact up i (by omega)
    · rw [decide_eq_false bad, if_neg (by simp)]
      exact readyAfter

end Setup

/-! ## The server runs -/

section Serve

variable {n count : Nat} {s : Books Resource (Nat → Loop)}
  {post : Unit → Books Resource (Nat → Loop) → Prop}

/-- Threads are created over what they use, and joined. -/
theorem wp_runThreads (backend : .backend ∈ s.held) (noWorker : ∀ i, .worker i ∉ s.held)
    (noThread : ∀ i, .loopThread i ∉ s.held)
    (up : ∀ i < n, .socket i ∈ s.held ∧ .eventfd i ∈ s.held)
    (after : ∀ outcomes, post () { s with outcomes := outcomes }) :
    Wp (runThreads n count) post s := by
  have freeWorker : ∀ i other, Resource.worker i ∉ xdpBases n other := by
    intro i other base
    cases other <;> simp [xdpBases] at base
  have freeThread : ∀ i other, Resource.loopThread i ∉ xdpBases n other := by
    intro i other base
    cases other <;> simp [xdpBases] at base
  have workers : Function.Injective Resource.worker := fun _ _ same => Resource.worker.inj same
  have threads : Function.Injective Resource.loopThread :=
    fun _ _ same => Resource.loopThread.inj same
  unfold runThreads
  rw [wp_bind]
  refine wp_takeRow workers noWorker ?_ fun workers' outcomes _ => ?_
  · intro i _ base member
    simp only [xdpBases, List.mem_cons, List.mem_map, List.mem_range] at member
    rcases member with rfl | ⟨j, below, rfl⟩
    · exact backend
    · exact (up j below).2
  have noThreads : ∀ i, Resource.loopThread i ∉ row s.held .worker 0 workers' := by
    intro i member
    rcases mem_row.mp member with inside | ⟨_, _, same⟩
    · exact noThread i inside
    · cases same
  rw [wp_bind]
  refine wp_takeRow threads noThreads ?_ fun started outcomes _ => ?_
  · intro i below base member
    simp only [xdpBases, List.mem_cons, List.not_mem_nil, or_false] at member
    rcases member with rfl | rfl
    · exact mem_row.mpr (.inl (up i below).1)
    · exact mem_row.mpr (.inl (up i below).2)
  rw [wp_bind]
  refine wp_giveRow threads noThreads rfl (fun i other _ => freeThread i other) ?_
  exact wp_giveRow workers noWorker rfl (fun i other _ => freeWorker i other) (after outcomes)

/-- What is used of the sockets is there. -/
theorem wp_useIfUp {part : Nat → Resource} (there : ∀ i < n, part i ∈ s.held)
    (after : post () s) : Wp (forEach (useIfUp part) n 0) post s := by
  have step : ∀ j (now : Books Resource (Nat → Loop)), 0 ≤ j → j < 0 + n → now = s →
      Wp (useIfUp part j) (fun _ now => now = s) now := by
    rintro j _ _ below rfl
    unfold useIfUp
    rw [wp_bind, wp_vars, wp_ite, wp_need, wp_pure]
    exact ⟨fun _ => ⟨there j (by omega), rfl⟩, fun _ => rfl⟩
  refine (@wp_forEach _ _ s (fun _ now => now = s) (useIfUp part) n 0 step rfl).mono ?_
  rintro _ _ rfl
  exact after

/-- The parts of the TCP server, the one on top first. -/
def tcpParts (srv : Bool) : List Resource :=
  if srv = true then [.acceptThread, .listenFd, .tcpServer] else []

/-- The counters of a TCP server are read before it is stopped. -/
theorem wp_statsAndStop {bases : Resource → List Resource} {below : Finset Resource} {srv : Bool}
    {next : Unit → Setup Unit}
    (legal : Stacks bases below [.acceptThread, .listenFd, .tcpServer])
    (held : s.held = pile below (tcpParts srv))
    (after : Wp (next ()) post { s with held := below }) :
    Wp (dnsTcpServerStats srv) (fun _ => Wp (dnsTcpServerStop bases srv >>= next) post) s := by
  obtain ⟨_, _, _⟩ := s
  obtain rfl : _ = _ := held
  unfold dnsTcpServerStats
  cases srv with
  | true =>
      rw [if_pos rfl, wp_need, wp_bind]
      exact ⟨mem_pile.mpr (.inr (by simp [tcpParts])), wp_dnsTcpServerStop legal rfl after⟩
  | false =>
      unfold dnsTcpServerStop
      rw [if_neg (by simp), wp_pure, wp_bind, if_neg (by simp), wp_pure]
      exact after

/-- With or without a TCP server: the threads come and go, and then all but the loops. -/
theorem wp_serveThreads {loaded srv : Bool} {idle : Books Resource (Nat → Loop)}
    (ready : Ready loaded n idle) (up : AllUp n idle.vars)
    (legal : Stacks (xdpBases n) (insert .backend idle.held)
      [.acceptThread, .listenFd, .tcpServer])
    (held : s.held = pile (insert .backend idle.held) (tcpParts srv)) (vars : s.vars = idle.vars)
    (after : ∀ outcomes, post () { idle with outcomes := outcomes }) :
    Wp (serveThreads n count srv) post s := by
  have kept : ∀ {resource}, resource ∈ idle.held → resource ∈ s.held := by
    intro resource inside
    rw [held]
    exact mem_pile.mpr (.inl (Finset.mem_insert_of_mem inside))
  have backend : .backend ∈ s.held := by
    rw [held]
    exact mem_pile.mpr (.inl (Finset.mem_insert_self _ _))
  have sockets : ∀ i < n, .socket i ∈ s.held ∧ .eventfd i ∈ s.held := fun i below =>
    ⟨kept ((ready.accounted _).mpr (up i below).1.xsk),
      kept ((ready.accounted _).mpr (up i below).2)⟩
  have fresh : ∀ {resource}, ¬ Owned idle.vars (openFds idle.vars) resource →
      resource ≠ .backend → resource ∉ tcpParts true → resource ∉ s.held := by
    intro resource unowned other apart member
    rw [held, mem_pile, Finset.mem_insert, ready.accounted] at member
    rcases member with (same | owned) | listed
    · exact other same
    · exact unowned owned
    · cases srv with
      | true => exact apart listed
      | false => cases listed
  have released : ∀ outcomes, Wp (release (xdpBases n) .backend) post
      ⟨insert .backend idle.held, outcomes, idle.vars⟩ := by
    intro outcomes
    have unheld : .backend ∉ idle.held := fun member => (ready.accounted _).mp member
    rw [wp_release, Finset.erase_insert unheld]
    refine ⟨⟨Finset.mem_insert_self _ _, fun other member base => ?_⟩, after outcomes⟩
    rw [Finset.mem_insert, ready.accounted] at member
    cases other <;> simp [xdpBases, Owned] at base member
  obtain ⟨_, _, _⟩ := s
  obtain rfl : _ = _ := held
  obtain rfl : _ = _ := vars
  unfold serveThreads
  rw [wp_bind]
  refine wp_runThreads backend (fun i => fresh (by simp [Owned]) (by simp) (by simp [tcpParts]))
    (fun i => fresh (by simp [Owned]) (by simp) (by simp [tcpParts])) sockets fun outcomes => ?_
  rw [wp_bind]
  refine wp_useIfUp (fun i below => (sockets i below).1) ?_
  unfold printStats
  rw [wp_bind, wp_bind]
  refine wp_useIfUp (fun i below => kept ((ready.accounted _).mpr (up i below).1.xsk)) ?_
  unfold xskEnvReadKernStats
  rw [wp_bind, wp_bind, wp_vars, wp_ite, wp_need, wp_pure]
  refine ⟨fun valid => ⟨kept ((ready.accounted _).mpr ?_), ?_⟩, fun _ => ?_⟩
  · have first := (ready.sound 0).prog
    rw [(ready.sound 0).stats rfl valid] at first
    exact first
  all_goals exact wp_statsAndStop legal rfl (released outcomes)

/-- The server runs over the backend, and gives it back. -/
theorem wp_serveXdp {loaded : Bool} {idle : Books Resource (Nat → Loop)} {outcomes : List Int}
    (ready : Ready loaded n idle) (up : AllUp n idle.vars)
    (after : ∀ outcomes, post () { idle with outcomes := outcomes }) :
    Wp (serveXdp n count) post
      { idle with held := insert .backend idle.held, outcomes := outcomes } := by
  have legal : Stacks (xdpBases n) (insert .backend idle.held)
      [.acceptThread, .listenFd, .tcpServer] := by
    refine stacks_tcp xdpBases_tcp (fun part listed member => ?_) (Finset.mem_insert_self _ _)
    rw [Finset.mem_insert, ready.accounted] at member
    simp only [List.mem_cons, List.not_mem_nil, or_false] at listed
    rcases listed with rfl | rfl | rfl
    all_goals simp [Owned] at member
  unfold serveXdp
  rw [wp_bind]
  refine wp_dnsTcpServerStart legal (fun outcomes => ?_) (fun outcomes => ?_)
  · exact @wp_serveThreads n count _ post loaded true idle ready up legal rfl rfl after
  · exact @wp_serveThreads n count _ post loaded false idle ready up legal rfl rfl after

end Serve

/-! ## The teardown -/

section Teardown

variable {n k : Nat} {s : Books Resource (Nat → Loop)}

/-- The eventfds from `fds` on are left to close, and the environments from `envs` on to tear down.
Still, what is held is what the pointers say. -/
structure Torn (n fds envs : Nat) (s : Books Resource (Nat → Loop)) : Prop where
  accounted : ∀ resource,
    resource ∈ s.held ↔ Owned s.vars (fun i => fds ≤ i ∧ openFds s.vars i) resource
  whole : ∀ i, (s.vars i).IsUp ∨ (s.vars i).IsDown
  prog : ∀ i, (s.vars i).env.prog = true → i = 0 ∧ (s.vars i).env.ownsProg = true
  done : ∀ i < envs, (s.vars i).IsDown ∧ (s.vars i).env.prog = false
  later : ∀ i, n ≤ i → (s.vars i).IsDown ∧ (s.vars i).doneEventfd = false

/-- Before the teardown. -/
theorem Ready.torn {loaded : Bool} (ready : Ready loaded n s) : Torn n 0 0 s where
  accounted := fun resource => by
    rw [ready.accounted]
    exact owned_congr fun j _ => ⟨fun opened => ⟨Nat.zero_le j, opened⟩, And.right⟩
  whole := fun i => (ready.sound i).whole
  prog := fun i has => by
    have first := (ready.sound i).prog
    rw [has] at first
    have both : i = 0 ∧ loaded = true := by simpa using first.symm
    exact ⟨both.1, (ready.sound i).owns has⟩
  done := fun i below => absurd below (Nat.not_lt_zero i)
  later := ready.later

namespace Torn

/-- After the teardown nothing is held. -/
theorem held_eq_empty (torn : Torn n n n s) (some : 0 < n) : s.held = ∅ := by
  have down : ∀ i, (s.vars i).IsDown := by
    intro i
    by_cases below : i < n
    · exact (torn.done i below).1
    · exact (torn.later i (by omega)).1
  refine Finset.eq_empty_of_forall_notMem fun resource member => ?_
  have owned := (torn.accounted resource).mp member
  cases resource with
  | program | attachment =>
      have unloaded := (torn.done 0 some).2
      rw [Owned, unloaded] at owned
      cases owned
  | eventfd i =>
      have shut := (torn.later i owned.1).2
      have opened : (s.vars i).doneEventfd = true := owned.2
      rw [shut] at opened
      cases opened
  | buffer i | umemInfo i | umem i | xskInfo i | socket i =>
      rw [Owned, (down i).xsk] at owned
      cases owned
  | _ => exact owned

/-- The loop whose turn it is changes, though not its eventfd. -/
theorem update (torn : Torn n k k s) {left : Loop} {held : Finset Resource} (down : left.IsDown)
    (prog : left.env.prog = true → k = 0 ∧ left.env.ownsProg = true)
    (fd : left.doneEventfd = (s.vars k).doneEventfd)
    (accounted : ∀ resource, resource ∈ held ↔
      Owned (Function.update s.vars k left) (fun i => k ≤ i ∧ openFds s.vars i) resource) :
    Torn n k k ⟨held, s.outcomes, Function.update s.vars k left⟩ where
  accounted := fun resource => by
    have same : ∀ j, openFds (Function.update s.vars k left) j ↔ openFds s.vars j :=
      (Function.forall_update_iff s.vars
        (p := fun j loop => loop.doneEventfd = true ↔ openFds s.vars j)).mpr
        ⟨by rw [fd, openFds], fun _ _ => Iff.rfl⟩
    refine (accounted resource).trans (owned_congr fun j _ => ?_)
    exact and_congr_right fun _ => (same j).symm
  whole := (Function.forall_update_iff s.vars (p := fun _ loop => loop.IsUp ∨ loop.IsDown)).mpr
    ⟨.inr down, fun j _ => torn.whole j⟩
  prog := (Function.forall_update_iff s.vars
    (p := fun j loop => loop.env.prog = true → j = 0 ∧ loop.env.ownsProg = true)).mpr
    ⟨prog, fun j _ => torn.prog j⟩
  done := (Function.forall_update_iff s.vars
    (p := fun j loop => j < k → loop.IsDown ∧ loop.env.prog = false)).mpr
    ⟨fun below => absurd below (Nat.lt_irrefl k), fun j _ => torn.done j⟩
  later := (Function.forall_update_iff s.vars
    (p := fun j loop => n ≤ j → loop.IsDown ∧ loop.doneEventfd = false)).mpr
    ⟨fun after => ⟨down, fd.trans (torn.later k after).2⟩, fun j _ => torn.later j⟩

/-- The socket of a loop is taken down. -/
theorem withoutSocket (torn : Torn n k k s) :
    Torn n k k ⟨s.held \ (socketStack k).toFinset, s.outcomes,
      Function.update s.vars k (s.vars k).withoutSocket⟩ := by
  refine torn.update ⟨rfl, rfl, rfl⟩ (torn.prog k) rfl fun resource => ?_
  have prog : (s.vars k).withoutSocket.env.prog = (s.vars k).env.prog := rfl
  rw [owned_update prog fun _ _ => Iff.rfl, Finset.mem_sdiff, List.mem_toFinset, torn.accounted]
  by_cases one : resource = .eventfd k
  · subst one
    simp [socketStack, Owned]
  · simp only [one, false_and, false_or, Loop.withoutSocket, Bool.false_eq_true, and_false,
      ne_eq, not_false_eq_true, true_and]
    exact And.comm

/-- An environment without a socket and without a program is done. -/
theorem next (torn : Torn n k k s) (down : (s.vars k).IsDown)
    (unloaded : (s.vars k).env.prog = false) : Torn n k (k + 1) s :=
  { torn with
    done := fun i below => by
      by_cases same : i = k
      · subst same
        exact ⟨down, unloaded⟩
      · exact torn.done i (by omega) }

/-- The program is taken from the interface. -/
theorem dropProgram (torn : Torn n k k s) (down : (s.vars k).IsDown) :
    Wp (dropProgram (xdpBases n) k) (fun _ after => Torn n k (k + 1) after) s := by
  unfold Lifecycle.dropProgram
  rw [wp_bind, wp_vars, wp_ite, wp_pure, wp_bind]
  refine ⟨fun has => ?_, fun lacks => ?_⟩
  · obtain ⟨rfl, _⟩ := torn.prog k has.1
    have within : ∀ resource ∈ [Resource.attachment, .program], resource ∈ s.held := by
      intro resource listed
      simp only [List.mem_cons, List.not_mem_nil, or_false] at listed
      rcases listed with rfl | rfl
      all_goals exact (torn.accounted _).mpr has.1
    have legal : Stacks (xdpBases n) (s.held \ [Resource.attachment, .program].toFinset)
        [.attachment, .program] := stacks_program (by simp) (by simp)
    refine wp_pop legal (pile_sdiff within).symm ?_
    rw [wp_bind]
    refine wp_pop legal.tail rfl ?_
    rw [wp_setEnv]
    have dropped : Torn n 0 0 ⟨s.held \ [Resource.attachment, .program].toFinset, s.outcomes,
        Function.update s.vars 0
          ({ s.vars 0 with env := { (s.vars 0).env with prog := false } })⟩ := by
      refine torn.update ⟨down.xsk, down.umem, down.packetBuffer⟩ (fun has => by cases has) rfl
        fun resource => ?_
      rw [Finset.mem_sdiff, List.mem_toFinset, torn.accounted]
      cases resource with
      | program | attachment => simp [Owned]
      | buffer j | umemInfo j | umem j | xskInfo j | socket j =>
          by_cases same : j = 0
          · subst same
            simp [Owned]
          · simp [Owned, same]
      | _ => simp [Owned]
    refine dropped.next ?_ ?_
    · simpa using ⟨down.xsk, down.umem, down.packetBuffer⟩
    · simp
  · refine torn.next down (Bool.eq_false_iff.mpr fun has => lacks ⟨has, (torn.prog k has).2⟩)

/-- One environment is torn down. -/
theorem teardownEnv (torn : Torn n k k s) :
    Wp (teardownEnv n k) (fun _ after => Torn n k (k + 1) after) s := by
  unfold Lifecycle.teardownEnv
  rw [wp_bind, wp_vars, wp_ite, wp_pure]
  refine ⟨fun _ => ?_, fun lacks => ?_⟩
  · rcases torn.whole k with up | down
    · have within : ∀ resource ∈ socketStack k, resource ∈ s.held := fun resource listed =>
        (torn.accounted resource).mpr ((owned_of_mem_socketStack listed).mpr up.xsk)
      have legal : Stacks (xdpBases n) (s.held \ (socketStack k).toFinset) (socketStack k) := by
        refine stacks_socket (fun resource listed member => ?_) fun member => ?_
        · exact (Finset.mem_sdiff.mp member).2 (List.mem_toFinset.mpr listed)
        · exact (torn.accounted _).mp (Finset.mem_sdiff.mp member).1
      refine wp_teardown_of_up legal (pile_sdiff within).symm up ?_
      refine torn.withoutSocket.dropProgram ?_
      simpa using ⟨rfl, rfl, rfl⟩
    · exact wp_teardown_of_down down (torn.dropProgram down)
  · obtain ⟨noSocket, noProgram⟩ := not_or.mp lacks
    refine torn.next ?_ (Bool.eq_false_iff.mpr noProgram)
    exact (torn.whole k).resolve_left fun up => noSocket up.xsk

/-- One eventfd is closed. -/
theorem closeEventfd (torn : Torn n k (k + 1) s) :
    Wp (closeEventfd n k) (fun _ after => Torn n (k + 1) (k + 1) after) s := by
  unfold Lifecycle.closeEventfd
  rw [wp_bind, wp_vars, wp_ite, wp_pure, wp_release]
  refine ⟨fun opened => ⟨⟨?_, fun other member base => ?_⟩, ?_⟩, fun shut => ?_⟩
  · exact (torn.accounted _).mpr ⟨Nat.le_refl k, opened⟩
  · rw [torn.accounted] at member
    cases other <;> simp [xdpBases, Owned] at base member
  · refine { torn with accounted := fun resource => ?_ }
    rw [Finset.mem_erase, torn.accounted]
    by_cases one : resource = .eventfd k
    · subst one
      simp [Owned]
    · have agree : ∀ j, resource = .eventfd j →
          (k + 1 ≤ j ∧ openFds s.vars j ↔ k ≤ j ∧ openFds s.vars j) := by
        rintro j rfl
        have apart : j ≠ k := fun same => one (same ▸ rfl)
        exact and_congr_left fun _ => by omega
      rw [owned_congr agree]
      exact ⟨And.right, fun owned => ⟨one, owned⟩⟩
  · refine { torn with accounted := fun resource => ?_ }
    rw [torn.accounted]
    refine owned_congr fun j _ => and_congr_left fun opened => ?_
    have apart : j ≠ k := fun same => shut (same ▸ opened)
    omega

end Torn

/-- The teardown is right wherever the setup stopped. -/
theorem errTeardown_spec {loaded : Bool} (ready : Ready loaded n s) (some : 0 < n) :
    Wp (errTeardown n) (fun _ after => after.held = ∅) s := by
  have step : ∀ j (now : Books Resource (Nat → Loop)), 0 ≤ j → j < 0 + n → Torn n j j now →
      Wp (do
        teardownEnv n j
        closeEventfd n j) (fun _ after => Torn n (j + 1) (j + 1) after) now := by
    intro j now _ _ torn
    rw [wp_bind]
    exact torn.teardownEnv.mono fun _ _ torn => torn.closeEventfd
  refine (@wp_forEach _ _ s (fun j now => Torn n j j now) _ n 0 step ready.torn).mono ?_
  intro _ after torn
  rw [Nat.zero_add] at torn
  exact torn.held_eq_empty some

end Teardown

/-! ## The two programs -/

section Programs

variable {s : Books Resource (Nat → Loop)}

theorem clampCount_pos {most : Nat} (some : 0 < most) (count : Int) :
    0 < clampCount most count := by
  unfold clampCount
  split_ifs
  · decide
  · omega
  · omega

/-- What `xsk_env_load_program` leaves is where the setup starts. -/
theorem ready_of_loaded {bpfObj : Bool} {outcomes given : List Int} {env : XskEnv}
    (loaded : env.Loaded bpfObj) :
    Ready bpfObj 0 ⟨pile ∅ (if bpfObj = true then [.attachment, .program] else []), outcomes,
      Function.update (initially given).vars 0 ({ (initially given).vars 0 with env := env })⟩ := by
  have down : ∀ i, (Function.update (initially given).vars 0
      ({ (initially given).vars 0 with env := env }) i).IsDown ∧
      (Function.update (initially given).vars 0
        ({ (initially given).vars 0 with env := env }) i).doneEventfd = false :=
    (Function.forall_update_iff (initially given).vars
      (p := fun _ loop => loop.IsDown ∧ loop.doneEventfd = false)).mpr
      ⟨⟨⟨loaded.xsk, loaded.umem, loaded.packetBuffer⟩, rfl⟩, fun _ _ => ⟨⟨rfl, rfl, rfl⟩, rfl⟩⟩
  refine ⟨fun resource => ?_, ?_, fun i _ => down i⟩
  · rw [mem_pile]
    cases resource with
    | program | attachment => cases bpfObj <;> simp [Owned, loaded.prog]
    | eventfd i => cases bpfObj <;> simp [Owned, openFds, (down i).2]
    | buffer i | umemInfo i | umem i | xskInfo i | socket i =>
        cases bpfObj <;> simp [Owned, (down i).1.xsk]
    | _ => cases bpfObj <;> simp [Owned]
  · refine (Function.forall_update_iff (initially given).vars
      (p := fun j loop => loop.Sound bpfObj j)).mpr ⟨?_, fun i apart => ?_⟩
    · exact ⟨.inr ⟨loaded.xsk, loaded.umem, loaded.packetBuffer⟩, by simp [loaded.prog],
        fun _ => loaded.ownsProg, fun custom => loaded.customProg.symm.trans custom,
        fun _ => loaded.stats⟩
    · exact ⟨.inr ⟨rfl, rfl, rfl⟩, by simp [initially, XskEnv.zero, apart],
        fun has => (by cases has), fun custom => (by cases custom), fun zero => absurd zero apart⟩

/-- `xsk_env_load_program` at the start: nothing is held, or the setup may begin. -/
theorem loadProgram_ready (opts : Options) (outcomes rest : List Int) :
    Wp (xskEnvLoadProgram (xdpBases opts.nloops) opts.bpfObj)
      (fun err after => err ≠ 0 ∧ after.held = ∅ ∨ err = 0 ∧ Ready opts.bpfObj 0 after)
      ⟨∅, rest, (initially outcomes).vars⟩ := by
  have legal : Stacks (xdpBases opts.nloops) ∅ [.attachment, .program] :=
    stacks_program (by simp) (by simp)
  refine (xskEnvLoadProgram_spec legal opts.bpfObj).mono ?_
  rintro err ⟨held, rest, vars⟩ (failed | ⟨done, taken, env, set, loaded⟩)
  · exact .inl failed
  · obtain rfl : _ = _ := taken
    obtain rfl : _ = _ := set
    exact .inr ⟨done, ready_of_loaded loaded⟩

/-- The setup has come to a loop: they are all up, or it has ended at this one. -/
def LoopsSetUp (opts : Options) (reached : Nat) (s : Books Resource (Nat → Loop)) : Prop :=
  reached = opts.nloops ∧ Ready opts.bpfObj reached s ∧ AllUp reached s.vars ∨
    reached < opts.nloops ∧ Ready opts.bpfObj (reached + 1) s

/-- The setup of all loops. -/
theorem setupLoops_spec (opts : Options) (ready : Ready opts.bpfObj 0 s) :
    Wp (upTo (setupLoop opts) opts.nloops 0) (LoopsSetUp opts) s := by
  have step : ∀ j (now : Books Resource (Nat → Loop)), 0 ≤ j → j < 0 + opts.nloops →
      Ready opts.bpfObj j now ∧ AllUp j now.vars →
      Wp (setupLoop opts j) (fun goes after =>
        if goes then Ready opts.bpfObj (j + 1) after ∧ AllUp (j + 1) after.vars
        else Ready opts.bpfObj (j + 1) after) now :=
    fun _ _ _ _ before => setupLoop_spec opts before.1 before.2
  refine (wp_upTo step ⟨ready, fun i below => absurd below (Nat.not_lt_zero i)⟩).mono ?_
  rw [Nat.zero_add]
  rintro reached after (all | ⟨_, early⟩)
  · exact .inl all
  · exact .inr early

/-- The setup returns with nothing held, or it has come to a loop. -/
theorem setupXdp_spec (opts : Options) (outcomes : List Int) :
    Wp (setupXdp opts) (fun setup after =>
      setup = none ∧ after.held = ∅ ∨
        ∃ reached, setup = some reached ∧ LoopsSetUp opts reached after)
      (initially outcomes) := by
  unfold setupXdp
  rw [wp_bind]
  refine wp_attempt fun misconfigured rest => ?_
  rw [wp_ite, wp_pure]
  refine ⟨fun _ => .inl ⟨rfl, rfl⟩, fun _ => ?_⟩
  rw [wp_bind]
  refine (loadProgram_ready opts outcomes rest).mono ?_
  rintro err loaded (⟨failed, empty⟩ | ⟨rfl, ready⟩)
  · rw [if_pos failed, wp_pure]
    exact .inl ⟨rfl, empty⟩
  · rw [if_neg (by simp), wp_bind]
    refine (setupLoops_spec opts ready).mono fun reached after setup => ?_
    rw [wp_pure]
    exact .inr ⟨reached, rfl, setup⟩

/-- Whether the server runs or not, what is held then is what the setup has left. -/
theorem runIfReady_spec {opts : Options} {reached : Nat} (setup : LoopsSetUp opts reached s) :
    Wp (runIfReady opts reached) (fun _ after => Ready opts.bpfObj opts.nloops after) s := by
  unfold runIfReady
  rcases setup with ⟨rfl, ready, up⟩ | ⟨early, ready⟩
  · rw [if_pos rfl, wp_bind]
    refine wp_tryAcquire ⟨fun member => (ready.accounted _).mp member, by simp [xdpBases]⟩
      (fun outcomes => ?_) fun code outcomes failed => ?_
    · rw [if_neg (by simp)]
      exact wp_serveXdp ready up fun outcomes => { ready with }
    · rw [if_pos failed, wp_pure]
      exact { ready with }
  · rw [if_neg (Nat.ne_of_lt early), wp_pure]
    exact ready.mono early

/-- Wherever the setup has come to, nothing is held at the end. -/
theorem runXdp_spec {opts : Options} {reached : Nat} (setup : LoopsSetUp opts reached s) :
    Wp (runXdp opts reached) (fun _ after => after.held = ∅) s := by
  have some : 0 < opts.nloops := clampCount_pos (by decide) opts.nqueues
  unfold runXdp
  rw [wp_bind]
  refine (runIfReady_spec setup).mono fun _ ran ready => ?_
  rw [wp_bind]
  refine (errTeardown_spec ready some).mono fun _ left empty => ?_
  rw [wp_pure]
  exact empty

/-- Whatever fails, the XDP server breaks no rule and gives back all that it took. -/
theorem xdpMain_gives_back (opts : Options) (outcomes : List Int) :
    ∃ code after, xdpMain opts (initially outcomes) = some (code, after) ∧ after.held = ∅ := by
  suffices given : Wp (xdpMain opts) (fun _ after => after.held = ∅) (initially outcomes) by
    obtain ⟨result, ran, empty⟩ := given
    exact ⟨result.1, result.2, ran, empty⟩
  unfold xdpMain
  rw [wp_bind]
  refine (setupXdp_spec opts outcomes).mono ?_
  rintro setup after (⟨rfl, empty⟩ | ⟨reached, rfl, setup⟩)
  · rw [Option.elim_none, wp_pure]
    exact empty
  · exact runXdp_spec setup

/-- If the sockets of all queues are up, the environment of each knows the mode in which the kernel
has bound it, after a fallback too. -/
theorem setup_knows_mode (opts : Options) (outcomes : List Int) :
    Wp (setupXdp opts) (fun setup after => setup = some opts.nloops →
      ∀ i < opts.nloops, xskEnvIsZerocopy (after.vars i) = (after.vars i).bound)
      (initially outcomes) := by
  refine (setupXdp_spec opts outcomes).mono ?_
  rintro setup after (⟨rfl, _⟩ | ⟨reached, rfl, setup⟩) all
  · cases all
  · obtain rfl : reached = opts.nloops := Option.some.inj all
    rcases setup with ⟨_, _, up⟩ | ⟨early, _⟩
    · exact fun i below => (up i below).1.zerocopy
    · exact absurd early (Nat.lt_irrefl _)

theorem udpBases_tcp : TcpBases udpBases where
  acceptThread := rfl
  listenFd := rfl
  tcpServer := rfl
  alone := fun other accept listen part listed base => by
    simp only [List.mem_cons, List.not_mem_nil, or_false] at listed
    rcases listed with rfl | rfl | rfl
    all_goals cases other <;> simp_all [udpBases]

/-- The threads of the UDP server come and go, and then the TCP server and the backend. -/
theorem wp_udpThreads {post : Unit → Books Resource (Nat → Loop) → Prop} {srv : Bool} {count : Nat}
    (legal : Stacks udpBases {.backend, .udpSocket} [.acceptThread, .listenFd, .tcpServer])
    (held : s.held = pile {.backend, .udpSocket} (tcpParts srv))
    (after : ∀ outcomes, post () ⟨{.udpSocket}, outcomes, s.vars⟩) :
    Wp (udpThreads count srv) post s := by
  obtain ⟨_, _, _⟩ := s
  obtain rfl : _ = _ := held
  have base : ∀ resource ∈ ({.backend, .udpSocket} : Finset Resource),
      resource ∈ pile {.backend, .udpSocket} (tcpParts srv) := fun _ inside =>
    mem_pile.mpr (.inl inside)
  have noWorker : ∀ i, Resource.worker i ∉ pile {.backend, .udpSocket} (tcpParts srv) := by
    intro i
    cases srv <;> simp [tcpParts, pile]
  have workers : Function.Injective Resource.worker := fun _ _ same => Resource.worker.inj same
  unfold udpThreads
  rw [wp_bind]
  refine wp_takeRow workers noWorker ?_ fun reached outcomes _ => ?_
  · intro i _ resource member
    refine base resource ?_
    simpa [udpBases] using member
  rw [wp_bind, wp_need, wp_bind]
  refine ⟨mem_row.mpr (.inl (base _ (by simp))), ?_⟩
  refine wp_giveRow workers noWorker rfl (fun i other _ rests => ?_) ?_
  · cases other <;> simp [udpBases] at rests
  rw [wp_bind]
  refine wp_statsAndStop legal rfl ?_
  rw [wp_release]
  refine ⟨⟨by simp, fun other member rests => ?_⟩, ?_⟩
  · simp only [Finset.mem_insert, Finset.mem_singleton] at member
    rcases member with rfl | rfl
    all_goals simp [udpBases] at rests
  · rw [Finset.erase_insert (by simp)]
    exact after outcomes

/-- Whatever fails, the UDP server breaks no rule and gives back all that it took. -/
theorem udpMain_gives_back (numWorkers : Int) (outcomes : List Int) :
    ∃ code after, udpMain numWorkers (initially outcomes) = some (code, after) ∧
      after.held = ∅ := by
  suffices given : Wp (udpMain numWorkers) (fun _ after => after.held = ∅) (initially outcomes) by
    obtain ⟨result, ran, empty⟩ := given
    exact ⟨result.1, result.2, ran, empty⟩
  have closed : ∀ code rest (vars : Nat → Loop), Wp (do
      release udpBases .udpSocket
      pure code) (fun (_ : Int) after => after.held = ∅) ⟨{.udpSocket}, rest, vars⟩ := by
    intro code rest vars
    rw [wp_bind, wp_release, wp_pure]
    exact ⟨by simp [udpBases], by simp⟩
  have legal : Stacks udpBases {.backend, .udpSocket} [.acceptThread, .listenFd, .tcpServer] :=
    stacks_tcp udpBases_tcp (by simp) (by simp)
  unfold udpMain
  rw [wp_bind]
  refine wp_tryAcquire (by simp [initially, udpBases]) (fun rest => ?_) fun code rest bad => ?_
  · rw [if_neg (by simp), wp_bind]
    refine wp_attempt fun bound rest => ?_
    rw [wp_ite]
    refine ⟨fun _ => closed 1 rest _, fun _ => ?_⟩
    rw [wp_bind]
    refine wp_tryAcquire (by simp [initially, udpBases]) (fun rest => ?_) fun code rest bad => ?_
    · rw [if_neg (by simp), wp_bind]
      unfold serveUdp
      rw [wp_bind]
      refine wp_dnsTcpServerStart legal (fun rest => ?_) fun rest => ?_
      all_goals exact wp_udpThreads legal rfl fun rest => closed 0 rest _
    · rw [if_pos bad]
      exact closed 1 rest _
  · rw [if_pos bad, wp_pure]
    rfl

end Programs

end FizzDns.Lifecycle
