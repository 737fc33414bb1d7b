import FizzDns.Foundation.Claims

/-!
# The threads of the TCP server

The accept thread, the connection threads and `dns_tcp_server_stop` as a step relation. A step
is one access to what they share: the fields of `struct dns_tcp_server` and the descriptors of
the process. What a thread does next is its program counter, which carries the thread's local
variables; `conn_release`, which both the accept thread and the connection threads call, has
program counters of its own.

The kernel never hands out a descriptor that is open, and the rest of the process closes only
descriptors of its own. Both are guards of steps here.
-/

namespace FizzDns

/-- `DNS_TCP_MAX_CONNS`. -/
def dnsTcpMaxConns : Nat := 128

/-- A descriptor of the process. -/
abbrev Fd := Nat

/-- An index of `conn_fds`. -/
abbrev Slot := Fin dnsTcpMaxConns

/-- Whose an open descriptor is: the listening socket, an accepted connection, or something
else in the process. -/
inductive FdOwner where
  | listener
  | connection
  | other
  deriving DecidableEq

/-- The shared state: `struct dns_tcp_server`, with `none` for the -1 of a free slot, and the
open descriptors of the process. The four counters are of 64 bits in the source and hold these
numbers modulo `2 ^ 64`; no step reads them. -/
structure TcpShared where
  listenFd : Fd
  stop : Bool
  locked : Bool
  connFds : Slot → Option Fd
  activeConns : Int
  accepted : Nat
  rejected : Nat
  queries : Nat
  answered : Nat
  descriptors : Fd → Option FdOwner

/-- Where a thread is in `conn_release`. -/
inductive ReleasePc where
  | lock
  | clear
  | close
  | unlock
  | subtract
  deriving DecidableEq

/-- Where the accept thread is. The steps from `reserveLock` to `reserveCount` are those of
`conn_reserve`. -/
inductive AcceptPc where
  | check
  | poll
  | accept
  | reserveLock (fd : Fd)
  | reserveScan (fd : Fd)
  | reserveUnlock (fd : Fd) (slot : Option Slot)
  | reserveCount (fd : Fd) (slot : Slot)
  | reject (fd : Fd)
  | drop (fd : Fd)
  | allocate (fd : Fd) (slot : Slot)
  | create (fd : Fd) (slot : Slot)
  | count
  | release (pc : ReleasePc) (fd : Fd) (slot : Slot)
  | returned
  deriving DecidableEq

/-- Where a connection thread is: in the loop of `conn_main`, or in `conn_release`. -/
inductive ConnPc where
  | serve (fd : Fd) (slot : Slot)
  | release (pc : ReleasePc) (fd : Fd) (slot : Slot)
  deriving DecidableEq

/-- Where `dns_tcp_server_stop` is; `idle` is before the call. -/
inductive StopPc where
  | idle
  | signal
  | join
  | closeListener
  | lock
  | scan (next : Nat)
  | unlock
  | wait
  | destroy
  | free
  | done
  deriving DecidableEq

/-- The whole server. -/
structure TcpSystem where
  shared : TcpShared
  acceptor : AcceptPc
  conns : Multiset ConnPc
  stopper : StopPc

/-- Who takes a step. -/
inductive Actor where
  | acceptor
  | connection
  | stopper
  | environment
  deriving DecidableEq

/-- The loop of `conn_reserve`: the first free slot. -/
def firstFree (connFds : Slot → Option Fd) : Option Slot :=
  (List.finRange dnsTcpMaxConns).find? fun slot => connFds slot = none

/-- What the scan of `conn_reserve` leaves in the table. -/
def reserveSlot (connFds : Slot → Option Fd) (fd : Fd) : Slot → Option Fd :=
  match firstFree connFds with
  | none => connFds
  | some slot => Function.update connFds slot (some fd)

/-- A step of `conn_release`; behind the last one the call has returned. -/
inductive ReleaseStep (fd : Fd) (slot : Slot) :
    ReleasePc → TcpShared → Option ReleasePc → TcpShared → Prop
  | lock {shared : TcpShared} (free : shared.locked = false) :
      ReleaseStep fd slot .lock shared (some .clear) { shared with locked := true }
  | clear {shared : TcpShared} :
      ReleaseStep fd slot .clear shared (some .close)
        { shared with connFds := Function.update shared.connFds slot none }
  | close {shared : TcpShared} :
      ReleaseStep fd slot .close shared (some .unlock)
        { shared with descriptors := Function.update shared.descriptors fd none }
  | unlock {shared : TcpShared} :
      ReleaseStep fd slot .unlock shared (some .subtract) { shared with locked := false }
  | subtract {shared : TcpShared} :
      ReleaseStep fd slot .subtract shared none
        { shared with activeConns := shared.activeConns - 1 }

/-- A step of `accept_main`, without its calls of `conn_release`: from a program counter and
the shared state to the next, with the thread that was created, if any. -/
inductive AcceptStep : AcceptPc → TcpShared → AcceptPc → TcpShared → Multiset ConnPc → Prop
  | goOn {shared : TcpShared} (running : shared.stop = false) :
      AcceptStep .check shared .poll shared 0
  | giveUp {shared : TcpShared} (stopped : shared.stop = true) :
      AcceptStep .check shared .returned shared 0
  | nothing {shared : TcpShared} : AcceptStep .poll shared .check shared 0
  | ready {shared : TcpShared} : AcceptStep .poll shared .accept shared 0
  | refused {shared : TcpShared} : AcceptStep .accept shared .check shared 0
  | accepts {shared : TcpShared} {fd : Fd} (fresh : shared.descriptors fd = none) :
      AcceptStep .accept shared (.reserveLock fd)
        { shared with descriptors := Function.update shared.descriptors fd (some .connection) } 0
  | lock {shared : TcpShared} {fd : Fd} (free : shared.locked = false) :
      AcceptStep (.reserveLock fd) shared (.reserveScan fd) { shared with locked := true } 0
  | scan {shared : TcpShared} {fd : Fd} :
      AcceptStep (.reserveScan fd) shared (.reserveUnlock fd (firstFree shared.connFds))
        { shared with connFds := reserveSlot shared.connFds fd } 0
  | unlockFull {shared : TcpShared} {fd : Fd} :
      AcceptStep (.reserveUnlock fd none) shared (.reject fd) { shared with locked := false } 0
  | unlock {shared : TcpShared} {fd : Fd} {slot : Slot} :
      AcceptStep (.reserveUnlock fd (some slot)) shared (.reserveCount fd slot)
        { shared with locked := false } 0
  | add {shared : TcpShared} {fd : Fd} {slot : Slot} :
      AcceptStep (.reserveCount fd slot) shared (.allocate fd slot)
        { shared with activeConns := shared.activeConns + 1 } 0
  | reject {shared : TcpShared} {fd : Fd} :
      AcceptStep (.reject fd) shared (.drop fd) { shared with rejected := shared.rejected + 1 } 0
  | drop {shared : TcpShared} {fd : Fd} :
      AcceptStep (.drop fd) shared .check
        { shared with descriptors := Function.update shared.descriptors fd none } 0
  | outOfMemory {shared : TcpShared} {fd : Fd} {slot : Slot} :
      AcceptStep (.allocate fd slot) shared (.release .lock fd slot) shared 0
  | allocates {shared : TcpShared} {fd : Fd} {slot : Slot} :
      AcceptStep (.allocate fd slot) shared (.create fd slot) shared 0
  | noThread {shared : TcpShared} {fd : Fd} {slot : Slot} :
      AcceptStep (.create fd slot) shared (.release .lock fd slot) shared 0
  | creates {shared : TcpShared} {fd : Fd} {slot : Slot} :
      AcceptStep (.create fd slot) shared .count shared {.serve fd slot}
  | counts {shared : TcpShared} :
      AcceptStep .count shared .check { shared with accepted := shared.accepted + 1 } 0

/-- A step of `dns_tcp_server_stop`. Joining waits for the accept thread to return. -/
inductive StopStep (acceptor : AcceptPc) : StopPc → TcpShared → StopPc → TcpShared → Prop
  | call {shared : TcpShared} : StopStep acceptor .idle shared .signal shared
  | signal {shared : TcpShared} :
      StopStep acceptor .signal shared .join { shared with stop := true }
  | join {shared : TcpShared} (returned : acceptor = .returned) :
      StopStep acceptor .join shared .closeListener shared
  | closeListener {shared : TcpShared} :
      StopStep acceptor .closeListener shared .lock
        { shared with descriptors := Function.update shared.descriptors shared.listenFd none }
  | lock {shared : TcpShared} (free : shared.locked = false) :
      StopStep acceptor .lock shared (.scan 0) { shared with locked := true }
  | shutdown {shared : TcpShared} {next : Nat} (more : next < dnsTcpMaxConns) :
      StopStep acceptor (.scan next) shared (.scan (next + 1)) shared
  | scanned {shared : TcpShared} {next : Nat} (last : dnsTcpMaxConns ≤ next) :
      StopStep acceptor (.scan next) shared .unlock shared
  | unlock {shared : TcpShared} :
      StopStep acceptor .unlock shared .wait { shared with locked := false }
  | sleep {shared : TcpShared} (busy : shared.activeConns > 0) :
      StopStep acceptor .wait shared .wait shared
  | observe {shared : TcpShared} (none : ¬ shared.activeConns > 0) :
      StopStep acceptor .wait shared .destroy shared
  | destroy {shared : TcpShared} : StopStep acceptor .destroy shared .free shared
  | free {shared : TcpShared} : StopStep acceptor .free shared .done shared

/-- A step of the server. -/
inductive TcpStep : Actor → TcpSystem → TcpSystem → Prop
  | accept {shared shared' : TcpShared} {pc pc' : AcceptPc} {conns created : Multiset ConnPc}
      {stopper : StopPc} (step : AcceptStep pc shared pc' shared' created) :
      TcpStep .acceptor ⟨shared, pc, conns, stopper⟩ ⟨shared', pc', created + conns, stopper⟩
  | acceptRelease {shared shared' : TcpShared} {pc : ReleasePc} {next : Option ReleasePc}
      {fd : Fd} {slot : Slot} {conns : Multiset ConnPc} {stopper : StopPc}
      (step : ReleaseStep fd slot pc shared next shared') :
      TcpStep .acceptor ⟨shared, .release pc fd slot, conns, stopper⟩
        ⟨shared', next.elim .check (.release · fd slot), conns, stopper⟩
  | query {shared : TcpShared} {acceptor : AcceptPc} {conns : Multiset ConnPc} {stopper : StopPc}
      {fd : Fd} {slot : Slot} :
      TcpStep .connection ⟨shared, acceptor, .serve fd slot ::ₘ conns, stopper⟩
        ⟨{ shared with queries := shared.queries + 1 }, acceptor, .serve fd slot ::ₘ conns,
          stopper⟩
  | answer {shared : TcpShared} {acceptor : AcceptPc} {conns : Multiset ConnPc} {stopper : StopPc}
      {fd : Fd} {slot : Slot} :
      TcpStep .connection ⟨shared, acceptor, .serve fd slot ::ₘ conns, stopper⟩
        ⟨{ shared with answered := shared.answered + 1 }, acceptor, .serve fd slot ::ₘ conns,
          stopper⟩
  | finish {shared : TcpShared} {acceptor : AcceptPc} {conns : Multiset ConnPc} {stopper : StopPc}
      {fd : Fd} {slot : Slot} :
      TcpStep .connection ⟨shared, acceptor, .serve fd slot ::ₘ conns, stopper⟩
        ⟨shared, acceptor, .release .lock fd slot ::ₘ conns, stopper⟩
  | connRelease {shared shared' : TcpShared} {acceptor : AcceptPc} {conns : Multiset ConnPc}
      {stopper : StopPc} {pc : ReleasePc} {next : Option ReleasePc} {fd : Fd} {slot : Slot}
      (step : ReleaseStep fd slot pc shared next shared') :
      TcpStep .connection ⟨shared, acceptor, .release pc fd slot ::ₘ conns, stopper⟩
        ⟨shared', acceptor, next.elim conns fun pc => .release pc fd slot ::ₘ conns, stopper⟩
  | stop {shared shared' : TcpShared} {acceptor : AcceptPc} {conns : Multiset ConnPc}
      {pc pc' : StopPc} (step : StopStep acceptor pc shared pc' shared') :
      TcpStep .stopper ⟨shared, acceptor, conns, pc⟩ ⟨shared', acceptor, conns, pc'⟩
  | opens {shared : TcpShared} {acceptor : AcceptPc} {conns : Multiset ConnPc} {stopper : StopPc}
      {fd : Fd} (fresh : shared.descriptors fd = none) :
      TcpStep .environment ⟨shared, acceptor, conns, stopper⟩
        ⟨{ shared with descriptors := Function.update shared.descriptors fd (some .other) },
          acceptor, conns, stopper⟩
  | closes {shared : TcpShared} {acceptor : AcceptPc} {conns : Multiset ConnPc} {stopper : StopPc}
      {fd : Fd} (own : shared.descriptors fd = some .other) :
      TcpStep .environment ⟨shared, acceptor, conns, stopper⟩
        ⟨{ shared with descriptors := Function.update shared.descriptors fd none },
          acceptor, conns, stopper⟩

/-- The server as `dns_tcp_server_start` leaves it. -/
structure TcpSystem.Started (system : TcpSystem) : Prop where
  empty : ∀ slot, system.shared.connFds slot = none
  inactive : system.shared.activeConns = 0
  unlocked : system.shared.locked = false
  running : system.shared.stop = false
  listening : system.shared.descriptors system.shared.listenFd = some .listener
  unconnected : ∀ fd, system.shared.descriptors fd ≠ some .connection
  accepting : system.acceptor = .check
  alone : system.conns = 0
  idle : system.stopper = .idle

/-- A run of the server, with any interleaving of its threads. -/
def TcpRun : TcpSystem → TcpSystem → Prop :=
  Relation.ReflTransGen fun before after => ∃ actor, TcpStep actor before after

end FizzDns
