import FizzDns.Foundation.Ledger
import FizzDns.Xdp.Socket

/-!
# Bringing up a socket and taking it down

`xsk_setup.c`, and the start and the stop of the TCP server, as programs that acquire and release.
Every call that can fail may do so. Threads are resources too: one is held from `pthread_create` to
`pthread_join`, and rests on what it uses.

The resources of a socket rest one on the other (`socketStack`). `xsk_env_setup_socket` puts up all
of them or none, and `xsk_env_teardown` takes them down from the top.

Not among the resources: memory of the process that nothing frees before it ends (the static
arrays), the mutex of the TCP server, which owns nothing, and the program that libxsk loads by
itself if no object file is given; it belongs to the socket.
-/

namespace FizzDns.Lifecycle

open Ledger

/-- What `main` and the functions it calls acquire; `i` is the index of a loop or a worker. -/
inductive Resource where
  | program
  | attachment
  | eventfd (i : Nat)
  | buffer (i : Nat)
  | umemInfo (i : Nat)
  | umem (i : Nat)
  | xskInfo (i : Nat)
  | socket (i : Nat)
  | loopThread (i : Nat)
  | backend
  | tcpServer
  | listenFd
  | acceptThread
  | worker (i : Nat)
  | udpSocket
  deriving DecidableEq

/-- What a resource rests on. A worker of the XDP server writes to the eventfds of all loops. -/
def xdpBases (nloops : Nat) : Resource → List Resource
  | .attachment => [.program]
  | .umem i => [.buffer i, .umemInfo i]
  | .socket i => [.umem i, .xskInfo i]
  | .loopThread i => [.socket i, .eventfd i]
  | .listenFd => [.tcpServer]
  | .acceptThread => [.tcpServer, .listenFd, .backend]
  | .worker _ => .backend :: (List.range nloops).map .eventfd
  | _ => []

/-- The fields of `struct xsk_env` that the code below reads. Of the pointers, whether they are
not NULL. -/
structure XskEnv where
  ifindex : Int
  queueId : Int
  prog : Bool
  xskMapFd : Int
  statsMapFd : Int
  customProg : Bool
  ownsProg : Bool
  packetBuffer : Bool
  zerocopy : Bool
  umem : Bool
  xsk : Bool
  deriving DecidableEq

/-- All zero. -/
def XskEnv.zero : XskEnv where
  ifindex := 0
  queueId := 0
  prog := false
  xskMapFd := 0
  statsMapFd := 0
  customProg := false
  ownsProg := false
  packetBuffer := false
  zerocopy := false
  umem := false
  xsk := false

/-- `struct loop_ctx`: the environment, and whether `done_eventfd` is a descriptor. `bound` is the
mode in which the kernel has bound the socket. -/
structure Loop where
  env : XskEnv
  doneEventfd : Bool
  bound : Bool
  deriving DecidableEq

/-- A program whose variables are the loops. -/
abbrev Setup := Program Resource (Nat → Loop)

/-- Assign to a loop. -/
def setLoop (i : Nat) (change : Loop → Loop) : Setup Unit :=
  assign fun loops => Function.update loops i (change (loops i))

/-- Assign to the environment of a loop. -/
def setEnv (i : Nat) (change : XskEnv → XskEnv) : Setup Unit :=
  setLoop i fun loop => { loop with env := change loop.env }

/-- `ENODEV`. -/
def enodev : Int := 19

/-- `ENOMEM`. -/
def enomem : Int := 12

/-- `EINVAL`. -/
def einval : Int := 22

/-- `ENOSPC`. -/
def enospc : Int := 28

/-- `EOPNOTSUPP`. -/
def eopnotsupp : Int := 95

section

variable (bases : Resource → List Resource)

/-! ## The XDP program -/

/-- The label `detach` of `xsk_env_load_program`. -/
def detachProgram : Setup Int := do
  release bases .attachment
  release bases .program
  setEnv 0 fun env => { env with prog := false }
  pure (-einval)

/-- The optional map of the counters; its descriptor is not looked at. -/
def findStatsMap : Setup Int := do
  let map ← attempt
  if map = 0 then attempt else pure (-1)

/-- `xsk_env_load_program`, for the first loop. `bpfObj` says whether an object file is given. -/
def xskEnvLoadProgram (bpfObj : Bool) : Setup Int := do
  setEnv 0 fun _ => { XskEnv.zero with xskMapFd := -1, statsMapFd := -1 }
  let ifindex ← attempt
  setEnv 0 fun env => { env with ifindex := ifindex }
  if ifindex = 0 then pure (-enodev)
  else if bpfObj = false then do
    setEnv 0 fun env => { env with customProg := false, ownsProg := true }
    pure 0
  else do
    let err ← tryAcquire bases .program
    if err ≠ 0 then pure err
    else do
      setEnv 0 fun env => { env with prog := true }
      let err ← tryAcquire bases .attachment
      if err ≠ 0 then do
        release bases .program
        setEnv 0 fun env => { env with prog := false }
        pure err
      else do
        let map ← attempt
        if map ≠ 0 then detachProgram bases
        else do
          let fd ← attempt
          setEnv 0 fun env => { env with xskMapFd := fd }
          if fd < 0 then detachProgram bases
          else do
            let statsFd ← findStatsMap
            setEnv 0 fun env => { env with
              statsMapFd := statsFd, customProg := true, ownsProg := true }
            pure 0

/-- `xsk_env_clone_program`, from the first loop. -/
def xskEnvCloneProgram (i : Nat) : Setup Unit := do
  let loops ← vars
  let src := (loops 0).env
  setEnv i fun _ => { XskEnv.zero with
    ifindex := src.ifindex
    xskMapFd := src.xskMapFd
    statsMapFd := src.statsMapFd
    customProg := src.customProg }

/-! ## The socket -/

/-- `configure_umem`. -/
def configureUmem (i : Nat) : Setup Bool := do
  let got ← tryAcquire bases (.umemInfo i)
  if got ≠ 0 then pure false
  else do
    let ret ← tryAcquire bases (.umem i)
    if ret ≠ 0 then do
      release bases (.umemInfo i)
      pure false
    else pure true

/-- `xsk_socket__create`, in one of the two modes. -/
def xskSocketCreate (i : Nat) (zerocopy : Bool) : Setup Int := do
  let ret ← tryAcquire bases (.socket i)
  if ret = 0 then do
    setLoop i fun loop => { loop with bound := zerocopy }
    pure ret
  else pure ret

/-- `xsk_socket__create` with the fallback to copy mode. -/
def createWithFallback (i : Nat) (wantZerocopy : Bool) : Setup Int := do
  let ret ← xskSocketCreate bases i wantZerocopy
  if ret = -eopnotsupp ∧ wantZerocopy = true then do
    let ret ← xskSocketCreate bases i false
    setEnv i fun env => { env with zerocopy := false }
    pure ret
  else do
    setEnv i fun env => { env with zerocopy := wantZerocopy && decide (ret = 0) }
    pure ret

/-- The label `err_umem` of `xsk_env_setup_socket`. -/
def errUmem (i : Nat) (ret : Int) : Setup Int := do
  release bases (.umem i)
  release bases (.umemInfo i)
  setEnv i fun env => { env with umem := false }
  release bases (.buffer i)
  setEnv i fun env => { env with packetBuffer := false }
  pure ret

/-- The label `err_xsk`. -/
def errXsk (i : Nat) (ret : Int) : Setup Int := do
  release bases (.xskInfo i)
  errUmem bases i ret

/-- The label `err_sock`. -/
def errSock (i : Nat) (ret : Int) : Setup Int := do
  release bases (.socket i)
  errXsk bases i ret

/-- `xsk_socket__update_xskmap`, if the program is our own. -/
def updateXskmap (i : Nat) : Setup Int := do
  let loops ← vars
  if (loops i).env.customProg = true then do
    need .program
    need (.socket i)
    attempt
  else pure 0

/-- The first half of the frames goes to the fill ring, and the socket is up. -/
def primeFillRing (i : Nat) : Setup Int := do
  let reserved ← attempt
  if reserved ≠ fillRingFrames then errSock bases i (-enospc)
  else do
    setEnv i fun env => { env with xsk := true }
    pure 0

/-- The part of `xsk_env_setup_socket` behind the creation of the socket. -/
def activate (i : Nat) : Setup Int := do
  let ret ← updateXskmap i
  if ret ≠ 0 then errSock bases i ret else primeFillRing bases i

/-- `xsk_env_setup_socket`. -/
def xskEnvSetupSocket (i : Nat) (queueId : Int) (wantZerocopy : Bool) : Setup Int := do
  setEnv i fun env => { env with queueId := queueId }
  let got ← tryAcquire bases (.buffer i)
  if got ≠ 0 then pure (-enomem)
  else do
    setEnv i fun env => { env with packetBuffer := true }
    if ← configureUmem bases i then do
      setEnv i fun env => { env with umem := true }
      let got ← tryAcquire bases (.xskInfo i)
      if got ≠ 0 then errUmem bases i (-enomem)
      else do
        let ret ← createWithFallback bases i wantZerocopy
        if ret ≠ 0 then errXsk bases i ret
        else activate bases i
    else do
      release bases (.buffer i)
      setEnv i fun env => { env with packetBuffer := false }
      pure (-einval)

/-- The socket, its memory, the buffer and the program, each if the environment has it: the four
branches of `xsk_env_teardown`. -/
def dropXsk (i : Nat) : Setup Unit := do
  let loops ← vars
  if (loops i).env.xsk = true then do
    release bases (.socket i)
    release bases (.xskInfo i)
    setEnv i fun env => { env with xsk := false }
  else pure ()

@[inherit_doc dropXsk]
def dropUmem (i : Nat) : Setup Unit := do
  let loops ← vars
  if (loops i).env.umem = true then do
    release bases (.umem i)
    release bases (.umemInfo i)
    setEnv i fun env => { env with umem := false }
  else pure ()

@[inherit_doc dropXsk]
def dropBuffer (i : Nat) : Setup Unit := do
  let loops ← vars
  if (loops i).env.packetBuffer = true then do
    release bases (.buffer i)
    setEnv i fun env => { env with packetBuffer := false }
  else pure ()

@[inherit_doc dropXsk]
def dropProgram (i : Nat) : Setup Unit := do
  let loops ← vars
  if (loops i).env.prog = true ∧ (loops i).env.ownsProg = true then do
    release bases .attachment
    release bases .program
    setEnv i fun env => { env with prog := false }
  else pure ()

/-- `xsk_env_teardown`. -/
def xskEnvTeardown (i : Nat) : Setup Unit := do
  dropXsk bases i
  dropUmem bases i
  dropBuffer bases i
  dropProgram bases i

/-! ## The TCP server -/

/-- `close` and `free` on the error paths of `dns_tcp_server_start`. -/
def tcpGiveUp : Setup Bool := do
  release bases .listenFd
  release bases .tcpServer
  pure false

/-- `dns_tcp_server_start`: whether there is a server. -/
def dnsTcpServerStart : Setup Bool := do
  let got ← tryAcquire bases .tcpServer
  if got ≠ 0 then pure false
  else do
    let opened ← tryAcquire bases .listenFd
    if opened ≠ 0 then do
      release bases .tcpServer
      pure false
    else do
      let bound ← attempt
      if bound ≠ 0 then tcpGiveUp bases
      else do
        let listens ← attempt
        if listens ≠ 0 then tcpGiveUp bases
        else do
          let created ← tryAcquire bases .acceptThread
          if created ≠ 0 then tcpGiveUp bases
          else pure true

/-- `dns_tcp_server_stop`. Its connection threads end before the server is freed, so they are part
of it. -/
def dnsTcpServerStop (srv : Bool) : Setup Unit :=
  if srv = true then do
    release bases .acceptThread
    release bases .listenFd
    release bases .tcpServer
  else pure ()

end

/-- `dns_tcp_server_stats` reads the counters of the server, if there is one. -/
def dnsTcpServerStats (srv : Bool) : Setup Unit :=
  if srv = true then need .tcpServer else pure ()

/-- `xsk_env_is_zerocopy`. -/
def xskEnvIsZerocopy (loop : Loop) : Bool := loop.env.zerocopy

/-- `xsk_env_read_kern_stats` reads the map of the counters, if there is one. -/
def xskEnvReadKernStats : Setup Unit := do
  let loops ← vars
  if 0 ≤ (loops 0).env.statsMapFd then need .program else pure ()

/-! ## The socket of a loop, up and down -/

/-- The resources of a socket, the one on top first. -/
def socketStack (i : Nat) : List Resource :=
  [.socket i, .xskInfo i, .umem i, .umemInfo i, .buffer i]

section Socket

variable {n i : Nat} {below : Finset Resource} {s : Books Resource (Nat → Loop)}

@[simp] theorem wp_setLoop {change : Loop → Loop}
    {post : Unit → Books Resource (Nat → Loop) → Prop} :
    Wp (setLoop i change) post s ↔
      post () { s with vars := Function.update s.vars i (change (s.vars i)) } :=
  wp_assign

@[simp] theorem wp_setEnv {change : XskEnv → XskEnv}
    {post : Unit → Books Resource (Nat → Loop) → Prop} :
    Wp (setEnv i change) post s ↔
      post () { s with
        vars := Function.update s.vars i ({ s.vars i with env := change (s.vars i).env }) } := by
  exact wp_setLoop

/-- Only its loop rests on the socket, and only the socket on what is under it. -/
theorem mem_of_socketStack {resource other : Resource} (listed : resource ∈ socketStack i)
    (base : resource ∈ xdpBases n other) : other ∈ socketStack i ∨ other = .loopThread i := by
  cases other with
  | attachment =>
      obtain rfl : resource = .program := by simpa [xdpBases] using base
      simp [socketStack] at listed
  | umem j =>
      obtain rfl | rfl : resource = .buffer j ∨ resource = .umemInfo j := by
        simpa [xdpBases] using base
      all_goals simpa [socketStack] using listed
  | socket j =>
      obtain rfl | rfl : resource = .umem j ∨ resource = .xskInfo j := by
        simpa [xdpBases] using base
      all_goals simpa [socketStack] using listed
  | loopThread j =>
      obtain rfl | rfl : resource = .socket j ∨ resource = .eventfd j := by
        simpa [xdpBases] using base
      · simpa [socketStack] using listed
      · simp [socketStack] at listed
  | listenFd =>
      obtain rfl : resource = .tcpServer := by simpa [xdpBases] using base
      simp [socketStack] at listed
  | acceptThread =>
      obtain rfl | rfl | rfl : resource = .tcpServer ∨ resource = .listenFd ∨
        resource = .backend := by simpa [xdpBases] using base
      all_goals simp [socketStack] at listed
  | worker j =>
      obtain rfl | ⟨k, _, rfl⟩ : resource = .backend ∨ ∃ k < n, Resource.eventfd k = resource := by
        simpa [xdpBases] using base
      all_goals simp [socketStack] at listed
  | _ => cases base

theorem stacks_socket (absent : ∀ resource ∈ socketStack i, resource ∉ below)
    (unused : .loopThread i ∉ below) : Stacks (xdpBases n) below (socketStack i) := by
  have free : ∀ resource ∈ socketStack i, ∀ other ∈ below, resource ∉ xdpBases n other := by
    intro resource listed other member base
    rcases mem_of_socketStack listed base with inside | rfl
    · exact absent other inside member
    · exact unused member
  simp only [socketStack, List.mem_cons, List.not_mem_nil, or_false, forall_eq_or_imp,
    forall_eq] at absent free
  obtain ⟨noSocket, noInfo, noUmem, noUmemInfo, noBuffer⟩ := absent
  obtain ⟨freeSocket, freeInfo, freeUmem, freeUmemInfo, freeBuffer⟩ := free
  have buffer : Stacks (xdpBases n) below [.buffer i] :=
    .cons noBuffer (by simp [xdpBases]) freeBuffer .nil
  have umemInfo : Stacks (xdpBases n) below [.umemInfo i, .buffer i] :=
    .cons (by simp [pile, noUmemInfo]) (by simp [xdpBases])
      (by simpa [pile, xdpBases] using freeUmemInfo) buffer
  have umem : Stacks (xdpBases n) below [.umem i, .umemInfo i, .buffer i] :=
    .cons (by simp [pile, noUmem]) (by simp [xdpBases, pile])
      (by simpa [pile, xdpBases] using freeUmem) umemInfo
  have info : Stacks (xdpBases n) below [.xskInfo i, .umem i, .umemInfo i, .buffer i] :=
    .cons (by simp [pile, noInfo]) (by simp [xdpBases])
      (by simpa [pile, xdpBases] using freeInfo) umem
  exact .cons (by simp [pile, noSocket]) (by simp [xdpBases, pile])
    (by simpa [pile, xdpBases] using freeSocket) info

/-- The loop as the error paths leave it. -/
def Loop.closed (loop : Loop) : Loop :=
  { loop with env := { loop.env with umem := false, packetBuffer := false } }

/-- The memory under the socket is given back. -/
theorem errUmem_spec (legal : Stacks (xdpBases n) below [.umem i, .umemInfo i, .buffer i])
    (held : s.held = pile below [.umem i, .umemInfo i, .buffer i]) (ret : Int) :
    Wp (errUmem (xdpBases n) i ret) (fun code after => code = ret ∧ after.held = below ∧
      after.vars = Function.update s.vars i (s.vars i).closed) s := by
  unfold errUmem
  rw [wp_bind]
  refine wp_pop legal held ?_
  rw [wp_bind]
  refine wp_pop legal.tail rfl ?_
  rw [wp_bind, wp_setEnv, wp_bind]
  refine wp_pop legal.tail.tail rfl ?_
  rw [wp_bind, wp_setEnv, wp_pure]
  refine ⟨rfl, rfl, ?_⟩
  simp [Loop.closed]

theorem errXsk_spec
    (legal : Stacks (xdpBases n) below [.xskInfo i, .umem i, .umemInfo i, .buffer i])
    (held : s.held = pile below [.xskInfo i, .umem i, .umemInfo i, .buffer i]) (ret : Int) :
    Wp (errXsk (xdpBases n) i ret) (fun code after => code = ret ∧ after.held = below ∧
      after.vars = Function.update s.vars i (s.vars i).closed) s := by
  unfold errXsk
  rw [wp_bind]
  exact wp_pop legal held (errUmem_spec legal.tail rfl ret)

theorem errSock_spec (legal : Stacks (xdpBases n) below (socketStack i))
    (held : s.held = pile below (socketStack i)) (ret : Int) :
    Wp (errSock (xdpBases n) i ret) (fun code after => code = ret ∧ after.held = below ∧
      after.vars = Function.update s.vars i (s.vars i).closed) s := by
  unfold errSock
  rw [wp_bind]
  exact wp_pop legal held (errXsk_spec legal.tail rfl ret)

/-- Nothing of the socket is there. -/
structure Loop.IsDown (loop : Loop) : Prop where
  xsk : loop.env.xsk = false
  umem : loop.env.umem = false
  packetBuffer : loop.env.packetBuffer = false

/-- All of the socket is there, and the environment knows the mode that it is in. -/
structure Loop.IsUp (loop : Loop) : Prop where
  xsk : loop.env.xsk = true
  umem : loop.env.umem = true
  packetBuffer : loop.env.packetBuffer = true
  zerocopy : loop.env.zerocopy = loop.bound

/-- A loop after changes that concern its socket only. -/
structure Loop.Follows (loop after : Loop) : Prop where
  prog : after.env.prog = loop.env.prog
  ownsProg : after.env.ownsProg = loop.env.ownsProg
  customProg : after.env.customProg = loop.env.customProg
  statsMapFd : after.env.statsMapFd = loop.env.statsMapFd
  doneEventfd : after.doneEventfd = loop.doneEventfd

/-- What bringing up a socket comes to: all of it is there, or nothing. -/
def SetUp (i : Nat) (loop : Loop) (below : Finset Resource) (others : Nat → Loop) (ret : Int)
    (after : Books Resource (Nat → Loop)) : Prop :=
  ∃ left, after.vars = Function.update others i left ∧ loop.Follows left ∧
    (ret = 0 ∧ left.IsUp ∧ after.held = pile below (socketStack i) ∨
      ret ≠ 0 ∧ left.IsDown ∧ after.held = below)

/-- Nothing is left after an error path. -/
theorem SetUp.failed {loop left : Loop} {others : Nat → Loop} {ret : Int}
    {after : Books Resource (Nat → Loop)} (bad : ret ≠ 0) (held : after.held = below)
    (vars : after.vars = Function.update others i left) (follows : loop.Follows left)
    (down : left.IsDown) : SetUp i loop below others ret after :=
  ⟨left, vars, follows, .inr ⟨bad, down, held⟩⟩

/-- What follows on a socket that is created: the rest of the setup, or all is given back. -/
theorem activate_spec (legal : Stacks (xdpBases n) below (socketStack i))
    (held : s.held = pile below (socketStack i))
    (custom : (s.vars i).env.customProg = true → .program ∈ below)
    (xsk : (s.vars i).env.xsk = false) (umem : (s.vars i).env.umem = true)
    (packetBuffer : (s.vars i).env.packetBuffer = true)
    (zerocopy : (s.vars i).env.zerocopy = (s.vars i).bound) :
    Wp (activate (xdpBases n) i) (SetUp i (s.vars i) below s.vars) s := by
  have failed : ∀ outcomes ret, ret ≠ 0 →
      Wp (errSock (xdpBases n) i ret) (SetUp i (s.vars i) below s.vars)
        { s with outcomes := outcomes } := by
    intro outcomes ret nonzero
    have given := @errSock_spec n i below { s with outcomes := outcomes } legal held ret
    refine given.mono ?_
    rintro _ after ⟨rfl, back, vars⟩
    exact .failed nonzero back vars ⟨rfl, rfl, rfl, rfl, rfl⟩ ⟨xsk, rfl, rfl⟩
  have primed : ∀ outcomes, Wp (primeFillRing (xdpBases n) i) (SetUp i (s.vars i) below s.vars)
      { s with outcomes := outcomes } := by
    intro outcomes
    unfold primeFillRing
    rw [wp_bind]
    refine wp_attempt fun reserved outcomes => ?_
    rw [wp_ite]
    refine ⟨fun _ => failed outcomes _ (by decide), fun _ => ?_⟩
    rw [wp_bind, wp_setEnv, wp_pure]
    exact ⟨_, rfl, ⟨rfl, rfl, rfl, rfl, rfl⟩, .inl ⟨rfl, ⟨rfl, umem, packetBuffer, zerocopy⟩, held⟩⟩
  unfold activate updateXskmap
  rw [wp_bind, wp_bind, wp_vars, wp_ite]
  refine ⟨fun own => ?_, fun _ => ?_⟩
  · rw [wp_bind, wp_need, wp_bind, wp_need, held]
    refine ⟨mem_pile.mpr (.inl (custom own)), mem_pile.mpr (.inr List.mem_cons_self), ?_⟩
    refine wp_attempt fun ret outcomes => ?_
    rw [wp_ite]
    exact ⟨failed outcomes ret, fun _ => primed outcomes⟩
  · rw [wp_pure, wp_ite]
    exact ⟨fun wrong => absurd rfl wrong, fun _ => primed s.outcomes⟩

/-- A socket is created and bound in the mode asked for, or nothing has changed. -/
theorem wp_xskSocketCreate {post : Int → Books Resource (Nat → Loop) → Prop} {stack : List Resource}
    (legal : Stacks (xdpBases n) below (.socket i :: stack)) (held : s.held = pile below stack)
    {zerocopy : Bool}
    (took : ∀ outcomes, post 0
      { held := pile below (.socket i :: stack)
        outcomes := outcomes
        vars := Function.update s.vars i ({ s.vars i with bound := zerocopy }) })
    (failed : ∀ ret outcomes, ret ≠ 0 → post ret { s with outcomes := outcomes }) :
    Wp (xskSocketCreate (xdpBases n) i zerocopy) post s := by
  unfold xskSocketCreate
  rw [wp_bind]
  refine wp_tryPush legal held (fun outcomes => ?_) (fun ret outcomes nonzero => ?_)
  · rw [if_pos rfl, wp_bind, wp_setLoop, wp_pure]
    exact took outcomes
  · rw [if_neg nonzero, wp_pure]
    exact failed ret outcomes nonzero

/-- With the fallback: if there is a socket, the environment knows its mode. -/
theorem wp_createWithFallback {post : Int → Books Resource (Nat → Loop) → Prop}
    {stack : List Resource} (legal : Stacks (xdpBases n) below (.socket i :: stack))
    (held : s.held = pile below stack) {wantZerocopy : Bool}
    (took : ∀ mode outcomes, post 0
      { held := pile below (.socket i :: stack)
        outcomes := outcomes
        vars := Function.update s.vars i
          ({ s.vars i with env := { (s.vars i).env with zerocopy := mode }, bound := mode }) })
    (failed : ∀ ret outcomes, ret ≠ 0 → post ret
      { s with
        outcomes := outcomes
        vars := Function.update s.vars i
          ({ s.vars i with env := { (s.vars i).env with zerocopy := false } }) }) :
    Wp (createWithFallback (xdpBases n) i wantZerocopy) post s := by
  unfold createWithFallback
  rw [wp_bind]
  refine wp_xskSocketCreate legal held (fun outcomes => ?_) (fun ret outcomes nonzero => ?_)
  · rw [if_neg (fun other => absurd other.1 (by decide)), wp_bind, wp_setEnv, wp_pure]
    simpa using took wantZerocopy outcomes
  · rw [wp_ite]
    refine ⟨fun _ => ?_, fun _ => ?_⟩
    · rw [wp_bind]
      refine wp_xskSocketCreate legal (by exact held) (fun outcomes => ?_)
        (fun ret outcomes nonzero => ?_)
      · rw [wp_bind, wp_setEnv, wp_pure]
        simpa using took false outcomes
      · rw [wp_bind, wp_setEnv, wp_pure]
        exact failed ret outcomes nonzero
    · rw [wp_bind, wp_setEnv, wp_pure]
      simpa [nonzero] using failed ret outcomes nonzero

/-- The memory of a socket is registered, or nothing has changed. -/
theorem wp_configureUmem {post : Bool → Books Resource (Nat → Loop) → Prop} {stack : List Resource}
    (legal : Stacks (xdpBases n) below (.umem i :: .umemInfo i :: stack))
    (held : s.held = pile below stack)
    (took : ∀ outcomes, post true { s with
      held := pile below (.umem i :: .umemInfo i :: stack), outcomes := outcomes })
    (failed : ∀ outcomes, post false { s with outcomes := outcomes }) :
    Wp (configureUmem (xdpBases n) i) post s := by
  unfold configureUmem
  rw [wp_bind]
  refine wp_tryPush legal.tail held (fun outcomes => ?_) (fun ret outcomes bad => ?_)
  · rw [if_neg (by simp), wp_bind]
    refine wp_tryPush legal rfl (fun outcomes => ?_) (fun ret outcomes bad => ?_)
    · rw [if_neg (by simp), wp_pure]
      exact took outcomes
    · rw [if_pos bad, wp_bind]
      refine wp_pop legal.tail rfl ?_
      rw [wp_pure, ← held]
      exact failed outcomes
  · rw [if_pos bad, wp_pure]
    exact failed outcomes

/-- `xsk_env_setup_socket` brings up all of a socket, or nothing. -/
theorem xskEnvSetupSocket_spec (legal : Stacks (xdpBases n) s.held (socketStack i))
    (custom : (s.vars i).env.customProg = true → .program ∈ s.held) (down : (s.vars i).IsDown)
    (queueId : Int) (wantZerocopy : Bool) :
    Wp (xskEnvSetupSocket (xdpBases n) i queueId wantZerocopy) (SetUp i (s.vars i) s.held s.vars)
      s := by
  unfold xskEnvSetupSocket
  rw [wp_bind, wp_setEnv, wp_bind]
  refine wp_tryPush legal.tail.tail.tail.tail rfl (fun outcomes => ?_) (fun ret outcomes bad => ?_)
  · rw [if_neg (by simp), wp_bind, wp_setEnv, wp_bind]
    refine wp_configureUmem legal.tail.tail rfl (fun outcomes => ?_) (fun outcomes => ?_)
    · rw [if_pos rfl, wp_bind, wp_setEnv, wp_bind]
      refine wp_tryPush legal.tail rfl (fun outcomes => ?_) (fun ret outcomes bad => ?_)
      · rw [if_neg (by simp), wp_bind]
        refine wp_createWithFallback legal rfl (fun mode outcomes => ?_)
          (fun ret outcomes bad => ?_)
        · rw [if_neg (by simp)]
          refine (activate_spec legal rfl (by simpa using custom) (by simpa using down.xsk)
            (by simp) (by simp) (by simp)).mono ?_
          rintro ret after ⟨left, vars, follows, result⟩
          simp only [Function.update_self, Function.update_idem] at vars follows
          exact ⟨left, vars, ⟨follows.prog, follows.ownsProg, follows.customProg,
            follows.statsMapFd, follows.doneEventfd⟩, result⟩
        · rw [if_pos bad]
          refine (errXsk_spec legal.tail rfl ret).mono ?_
          rintro _ after ⟨rfl, held, vars⟩
          simp only [Function.update_self, Function.update_idem] at vars
          exact .failed bad held vars ⟨rfl, rfl, rfl, rfl, rfl⟩ ⟨down.xsk, rfl, rfl⟩
      · rw [if_pos bad]
        refine (errUmem_spec legal.tail.tail rfl (-enomem)).mono ?_
        rintro _ after ⟨rfl, held, vars⟩
        simp only [Function.update_self, Function.update_idem] at vars
        exact .failed (by decide) held vars ⟨rfl, rfl, rfl, rfl, rfl⟩ ⟨down.xsk, rfl, rfl⟩
    · rw [if_neg (by simp), wp_bind]
      refine wp_pop legal.tail.tail.tail.tail rfl ?_
      rw [wp_bind, wp_setEnv, wp_pure]
      simp only [Function.update_self, Function.update_idem]
      exact .failed (by decide) rfl rfl ⟨rfl, rfl, rfl, rfl, rfl⟩ ⟨down.xsk, down.umem, rfl⟩
  · rw [if_pos bad, wp_pure]
    exact .failed (by decide) rfl rfl ⟨rfl, rfl, rfl, rfl, rfl⟩
      ⟨down.xsk, down.umem, down.packetBuffer⟩

/-- The loop without its socket. -/
def Loop.withoutSocket (loop : Loop) : Loop :=
  { loop with env := { loop.env with xsk := false, umem := false, packetBuffer := false } }

/-- `xsk_env_teardown` takes a socket down from the top. -/
theorem wp_teardown_of_up {post : Unit → Books Resource (Nat → Loop) → Prop}
    (legal : Stacks (xdpBases n) below (socketStack i))
    (held : s.held = pile below (socketStack i)) (up : (s.vars i).IsUp)
    (rest : Wp (dropProgram (xdpBases n) i) post { s with
      held := below, vars := Function.update s.vars i (s.vars i).withoutSocket }) :
    Wp (xskEnvTeardown (xdpBases n) i) post s := by
  unfold xskEnvTeardown dropXsk dropUmem dropBuffer
  rw [wp_bind, wp_bind, wp_vars, if_pos up.xsk, wp_bind]
  refine wp_pop legal held ?_
  rw [wp_bind]
  refine wp_pop legal.tail rfl ?_
  rw [wp_setEnv, wp_bind, wp_bind, wp_vars, if_pos (by simpa using up.umem), wp_bind]
  refine wp_pop legal.tail.tail rfl ?_
  rw [wp_bind]
  refine wp_pop legal.tail.tail.tail rfl ?_
  rw [wp_setEnv, wp_bind, wp_bind, wp_vars, if_pos (by simpa using up.packetBuffer), wp_bind]
  refine wp_pop legal.tail.tail.tail.tail rfl ?_
  rw [wp_setEnv]
  simpa [Loop.withoutSocket, pile] using rest

/-- Without a socket only the program is looked at. -/
theorem wp_teardown_of_down {post : Unit → Books Resource (Nat → Loop) → Prop}
    (down : (s.vars i).IsDown) (rest : Wp (dropProgram (xdpBases n) i) post s) :
    Wp (xskEnvTeardown (xdpBases n) i) post s := by
  unfold xskEnvTeardown dropXsk dropUmem dropBuffer
  rw [wp_bind, wp_bind, wp_vars, if_neg (by simp [down.xsk]), wp_pure, wp_bind, wp_bind, wp_vars,
    if_neg (by simp [down.umem]), wp_pure, wp_bind, wp_bind, wp_vars,
    if_neg (by simp [down.packetBuffer]), wp_pure]
  exact rest

end Socket

/-! ## The program and the TCP server -/

section Servers

variable {n : Nat} {below : Finset Resource} {s : Books Resource (Nat → Loop)}

/-- The label `detach` gives the program back. -/
theorem detachProgram_spec (legal : Stacks (xdpBases n) below [.attachment, .program])
    (held : s.held = pile below [.attachment, .program]) :
    Wp (detachProgram (xdpBases n)) (fun err after => err ≠ 0 ∧ after.held = below) s := by
  unfold detachProgram
  rw [wp_bind]
  refine wp_pop legal held ?_
  rw [wp_bind]
  refine wp_pop legal.tail rfl ?_
  rw [wp_bind, wp_setEnv, wp_pure]
  exact ⟨by decide, rfl⟩

/-- The environment of the first loop when the program is loaded. -/
structure XskEnv.Loaded (bpfObj : Bool) (env : XskEnv) : Prop where
  prog : env.prog = bpfObj
  customProg : env.customProg = bpfObj
  ownsProg : env.ownsProg = true
  xsk : env.xsk = false
  umem : env.umem = false
  packetBuffer : env.packetBuffer = false
  stats : 0 ≤ env.statsMapFd → bpfObj = true

/-- `xsk_env_load_program` leaves the program attached to the interface, or nothing of it. -/
theorem xskEnvLoadProgram_spec (legal : Stacks (xdpBases n) s.held [.attachment, .program])
    (bpfObj : Bool) :
    Wp (xskEnvLoadProgram (xdpBases n) bpfObj) (fun err after =>
      err ≠ 0 ∧ after.held = s.held ∨
      err = 0 ∧ after.held = pile s.held (if bpfObj = true then [.attachment, .program] else []) ∧
        ∃ env, after.vars = Function.update s.vars 0 ({ s.vars 0 with env := env }) ∧
          env.Loaded bpfObj) s := by
  unfold xskEnvLoadProgram
  rw [wp_bind, wp_setEnv, wp_bind]
  refine wp_attempt fun ifindex outcomes => ?_
  rw [wp_bind, wp_setEnv, wp_ite, wp_pure]
  refine ⟨fun _ => .inl ⟨by decide, rfl⟩, fun _ => ?_⟩
  rw [wp_ite]
  refine ⟨fun none => ?_, fun given => ?_⟩
  · rw [wp_bind, wp_setEnv, wp_pure, none]
    refine .inr ⟨rfl, rfl, ?_⟩
    simp only [Function.update_self, Function.update_idem]
    exact ⟨_, rfl, rfl, rfl, rfl, rfl, rfl, rfl, fun valid => absurd valid (by simp)⟩
  · obtain rfl : bpfObj = true := by simpa using given
    rw [wp_bind]
    refine wp_tryPush legal.tail rfl (fun outcomes => ?_) (fun ret outcomes bad => ?_)
    · rw [if_neg (by simp), wp_bind, wp_setEnv, wp_bind]
      refine wp_tryPush legal rfl (fun outcomes => ?_) (fun ret outcomes bad => ?_)
      · rw [if_neg (by simp), wp_bind]
        refine wp_attempt fun map outcomes => ?_
        rw [wp_ite, wp_bind]
        refine ⟨fun _ => (detachProgram_spec legal rfl).mono fun _ _ => .inl, fun _ => ?_⟩
        refine wp_attempt fun fd outcomes => ?_
        rw [wp_bind, wp_setEnv, wp_ite]
        refine ⟨fun _ => (detachProgram_spec legal rfl).mono fun _ _ => .inl, fun _ => ?_⟩
        rw [wp_bind]
        unfold findStatsMap
        rw [wp_bind]
        refine wp_attempt fun map outcomes => ?_
        rw [wp_ite, wp_pure]
        refine ⟨fun _ => wp_attempt fun fd outcomes => ?_, fun _ => ?_⟩
        all_goals
          rw [wp_bind, wp_setEnv, wp_pure]
          refine .inr ⟨rfl, rfl, ?_⟩
          simp only [Function.update_self, Function.update_idem]
          exact ⟨_, rfl, rfl, rfl, rfl, rfl, rfl, rfl, fun _ => rfl⟩
      · rw [if_pos bad, wp_bind]
        refine wp_pop legal.tail rfl ?_
        rw [wp_bind, wp_setEnv, wp_pure]
        exact .inl ⟨bad, rfl⟩
    · rw [if_pos bad, wp_pure]
      exact .inl ⟨bad, rfl⟩

/-- Only the attachment rests on the program. -/
theorem stacks_program (attachment : .attachment ∉ below) (program : .program ∉ below) :
    Stacks (xdpBases n) below [.attachment, .program] := by
  have lone : ∀ other ∈ below, Resource.program ∉ xdpBases n other := by
    intro other member base
    cases other with
    | attachment => exact attachment member
    | _ => simp [xdpBases] at base
  have free : ∀ other ∈ pile below [.program], Resource.attachment ∉ xdpBases n other := by
    intro other _ base
    cases other <;> simp [xdpBases] at base
  exact .cons (by simp [pile, attachment]) (by simp [xdpBases, pile]) free
    (.cons program (by simp [xdpBases]) lone .nil)

/-- What rests on what, in a TCP server; and nothing else rests on its parts. -/
structure TcpBases (bases : Resource → List Resource) : Prop where
  acceptThread : bases .acceptThread = [.tcpServer, .listenFd, .backend]
  listenFd : bases .listenFd = [.tcpServer]
  tcpServer : bases .tcpServer = []
  alone : ∀ other, other ≠ .acceptThread → other ≠ .listenFd →
    ∀ part ∈ [Resource.acceptThread, .listenFd, .tcpServer], part ∉ bases other

theorem stacks_tcp {bases : Resource → List Resource} (tcp : TcpBases bases)
    (absent : ∀ part ∈ [Resource.acceptThread, .listenFd, .tcpServer], part ∉ below)
    (backend : .backend ∈ below) :
    Stacks bases below [.acceptThread, .listenFd, .tcpServer] := by
  have free : ∀ part ∈ [Resource.acceptThread, .listenFd, .tcpServer], ∀ other ∈ below,
      part ∉ bases other := by
    intro part listed other member
    refine tcp.alone other (fun same => ?_) (fun same => ?_) part listed
    · exact absent other (by simp [same]) member
    · exact absent other (by simp [same]) member
  simp only [List.mem_cons, List.not_mem_nil, or_false, forall_eq_or_imp, forall_eq] at absent free
  obtain ⟨noAccept, noListen, noServer⟩ := absent
  obtain ⟨freeAccept, freeListen, freeServer⟩ := free
  have server : Stacks bases below [.tcpServer] :=
    .cons noServer (by simp [tcp.tcpServer]) freeServer .nil
  have listen : Stacks bases below [.listenFd, .tcpServer] :=
    .cons (by simp [pile, noListen]) (by simp [tcp.listenFd, pile])
      (by simpa [pile, tcp.tcpServer] using freeListen) server
  exact .cons (by simp [pile, noAccept]) (by simp [tcp.acceptThread, pile, backend])
    (by simpa [pile, tcp.tcpServer, tcp.listenFd] using freeAccept) listen

theorem xdpBases_tcp : TcpBases (xdpBases n) where
  acceptThread := rfl
  listenFd := rfl
  tcpServer := rfl
  alone := fun other accept listen part listed base => by
    simp only [List.mem_cons, List.not_mem_nil, or_false] at listed
    rcases listed with rfl | rfl | rfl
    all_goals cases other <;> simp_all [xdpBases]

/-- A TCP server is there, or nothing of it. -/
theorem wp_dnsTcpServerStart {bases : Resource → List Resource}
    {post : Bool → Books Resource (Nat → Loop) → Prop}
    (legal : Stacks bases s.held [.acceptThread, .listenFd, .tcpServer])
    (up : ∀ outcomes, post true { s with
      held := pile s.held [.acceptThread, .listenFd, .tcpServer], outcomes := outcomes })
    (down : ∀ outcomes, post false { s with outcomes := outcomes }) :
    Wp (dnsTcpServerStart bases) post s := by
  have givesUp : ∀ outcomes, Wp (tcpGiveUp bases) post { s with
      held := pile s.held [.listenFd, .tcpServer], outcomes := outcomes } := by
    intro outcomes
    unfold tcpGiveUp
    rw [wp_bind]
    refine wp_pop legal.tail rfl ?_
    rw [wp_bind]
    refine wp_pop legal.tail.tail rfl ?_
    rw [wp_pure]
    exact down outcomes
  unfold dnsTcpServerStart
  rw [wp_bind]
  refine wp_tryPush legal.tail.tail rfl (fun outcomes => ?_) (fun ret outcomes bad => ?_)
  · rw [if_neg (by simp), wp_bind]
    refine wp_tryPush legal.tail rfl (fun outcomes => ?_) (fun ret outcomes bad => ?_)
    · rw [if_neg (by simp), wp_bind]
      refine wp_attempt fun bound outcomes => ?_
      rw [wp_ite, wp_bind]
      refine ⟨fun _ => givesUp outcomes, fun _ => ?_⟩
      refine wp_attempt fun listens outcomes => ?_
      rw [wp_ite, wp_bind]
      refine ⟨fun _ => givesUp outcomes, fun _ => ?_⟩
      refine wp_tryPush legal rfl (fun outcomes => ?_) (fun ret outcomes bad => ?_)
      · rw [if_neg (by simp), wp_pure]
        exact up outcomes
      · rw [if_pos bad]
        exact givesUp outcomes
    · rw [if_pos bad, wp_bind]
      refine wp_pop legal.tail.tail rfl ?_
      rw [wp_pure]
      exact down outcomes
  · rw [if_pos bad, wp_pure]
    exact down outcomes

/-- A TCP server is stopped. -/
theorem wp_dnsTcpServerStop {bases : Resource → List Resource}
    {post : Unit → Books Resource (Nat → Loop) → Prop}
    (legal : Stacks bases below [.acceptThread, .listenFd, .tcpServer])
    (held : s.held = pile below [.acceptThread, .listenFd, .tcpServer])
    (after : post () { s with held := below }) : Wp (dnsTcpServerStop bases true) post s := by
  unfold dnsTcpServerStop
  rw [if_pos rfl, wp_bind]
  refine wp_pop legal held ?_
  rw [wp_bind]
  exact wp_pop legal.tail rfl (wp_pop legal.tail.tail rfl after)

end Servers

end FizzDns.Lifecycle
