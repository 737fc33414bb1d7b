import FizzDns.Tcp.Server

/-!
# The connection table and shutdown

What each thread of the TCP server claims at each of its program counters: descriptors, slots
of the connection table, its place in `active_conns`, and the lock. Every step keeps the shared
state in agreement with the claims (`TcpStep.sound`), so in every reachable state the table
holds open descriptors, each once, and `active_conns` counts the threads that have not left.

`dns_tcp_server_stop` relies on that twice (`tcp_table_and_shutdown`): what it shuts down
belongs to a connection thread that has not released it, and once it has seen no active
connection there is no thread left to touch the structure that it frees.
-/

namespace FizzDns

/-! ## Claims -/

/-- A descriptor that is not in the table. -/
@[simps]
def Claims.holding (fd : Fd) (counted inside : Nat) : Claims Slot Fd where
  handles := {fd}
  entries := 0
  counted := counted
  inside := inside
  within := by simp

/-- A descriptor and its slot in the table. -/
@[simps]
def Claims.entered (fd : Fd) (slot : Slot) (counted inside : Nat) : Claims Slot Fd where
  handles := {fd}
  entries := {(slot, fd)}
  counted := counted
  inside := inside
  within := by simp

/-- No descriptor any more. -/
@[simps]
def Claims.leaving (counted inside : Nat) : Claims Slot Fd where
  handles := 0
  entries := 0
  counted := counted
  inside := inside
  within := by simp

/-- The claims of a thread in `conn_release`. -/
def ReleasePc.claims (fd : Fd) (slot : Slot) : ReleasePc → Claims Slot Fd
  | .lock => .entered fd slot 1 0
  | .clear => .entered fd slot 1 1
  | .close => .holding fd 1 1
  | .unlock => .leaving 1 1
  | .subtract => .leaving 1 0

/-- The claims of the accept thread. -/
def AcceptPc.claims : AcceptPc → Claims Slot Fd
  | .check | .poll | .accept | .count | .returned => 0
  | .reserveLock fd => .holding fd 0 0
  | .reserveScan fd => .holding fd 0 1
  | .reserveUnlock fd none => .holding fd 0 1
  | .reserveUnlock fd (some slot) => .entered fd slot 0 1
  | .reserveCount fd slot => .entered fd slot 0 0
  | .reject fd | .drop fd => .holding fd 0 0
  | .allocate fd slot | .create fd slot => .entered fd slot 1 0
  | .release pc fd slot => pc.claims fd slot

/-- The claims of a connection thread. -/
def ConnPc.claims : ConnPc → Claims Slot Fd
  | .serve fd slot => .entered fd slot 1 0
  | .release pc fd slot => pc.claims fd slot

/-- The claims of `dns_tcp_server_stop`. -/
def StopPc.claims : StopPc → Claims Slot Fd
  | .scan _ | .unlock => .leaving 0 1
  | _ => 0

/-- The claims of all threads. -/
def TcpSystem.claims (system : TcpSystem) : Claims Slot Fd :=
  system.acceptor.claims + ((system.conns.map ConnPc.claims).sum + system.stopper.claims)

/-- The shared state agrees with some claims. -/
def TcpShared.Agrees (shared : TcpShared) (claims : Claims Slot Fd) : Prop :=
  ClaimsAccounted shared.connFds shared.activeConns shared.locked
    (fun fd => shared.descriptors fd = some .connection) claims

/-! ## Steps keep the accounts -/

theorem descriptors_drop {descriptors : Fd → Option FdOwner} {fd other : Fd}
    (kept : descriptors other = some .connection) (apart : other ≠ fd) :
    Function.update descriptors fd none other = some .connection := by
  rwa [Function.update_of_ne apart]

/-- `conn_release` keeps the accounts, whatever the other threads claim. -/
theorem ReleaseStep.agrees {fd : Fd} {slot : Slot} {pc : ReleasePc} {next : Option ReleasePc}
    {shared shared' : TcpShared} {rest : Claims Slot Fd}
    (step : ReleaseStep fd slot pc shared next shared')
    (agrees : shared.Agrees (pc.claims fd slot + rest)) :
    shared'.Agrees (next.elim 0 (ReleasePc.claims fd slot) + rest) := by
  cases step with
  | lock free =>
      rw [TcpShared.Agrees, free] at agrees
      apply agrees.acquire
      · rfl
      · rfl
      · rfl
      · simp [ReleasePc.claims, Nat.add_comm]
  | clear =>
      refine agrees.clear rfl (?_ : _ = (slot, fd) ::ₘ _) rfl rfl
      simp [ReleasePc.claims]
  | close =>
      apply agrees.drop
      · exact fun _ kept apart => descriptors_drop kept apart
      · simp [ReleasePc.claims]
      · rfl
      · rfl
      · rfl
  | unlock =>
      apply agrees.leave
      · rfl
      · rfl
      · rfl
      · simp [ReleasePc.claims, Nat.add_comm]
  | subtract =>
      apply agrees.recount
      · rfl
      · rfl
      · simp [ReleasePc.claims, sub_sub]
      · rfl

theorem firstFree_some {connFds : Slot → Option Fd} {slot : Slot}
    (found : firstFree connFds = some slot) : connFds slot = none := by
  have free := List.find?_some found
  simpa using free

/-- The accept thread keeps the accounts. A thread that it creates takes its claims over. -/
theorem AcceptStep.agrees {pc pc' : AcceptPc} {shared shared' : TcpShared}
    {created : Multiset ConnPc} {rest : Claims Slot Fd}
    (step : AcceptStep pc shared pc' shared' created) (agrees : shared.Agrees (pc.claims + rest)) :
    shared'.Agrees (pc'.claims + ((created.map ConnPc.claims).sum + rest)) := by
  rw [← add_assoc]
  cases step with
  | goOn | giveUp | nothing | ready | refused | outOfMemory | allocates | noThread =>
      simpa [AcceptPc.claims, ReleasePc.claims] using agrees
  | @accepts _ fd fresh =>
      apply agrees.gain (by rw [fresh]; simp)
      · intro other
        by_cases same : other = fd
        · subst same
          simp
        · simp [same]
      · simp [AcceptPc.claims]
      · simp [AcceptPc.claims]
      · simp [AcceptPc.claims]
      · simp [AcceptPc.claims]
  | lock free =>
      rw [TcpShared.Agrees, free] at agrees
      apply agrees.acquire
      · simp [AcceptPc.claims]
      · simp [AcceptPc.claims]
      · simp [AcceptPc.claims]
      · simp [AcceptPc.claims, Nat.add_comm]
  | @scan _ fd =>
      unfold reserveSlot
      cases found : firstFree shared.connFds with
      | none => simpa [AcceptPc.claims, TcpShared.Agrees] using agrees
      | some slot =>
          refine agrees.write (firstFree_some found) ?_ (?_ : _ = (slot, fd) ::ₘ _) ?_ ?_
          · simp [AcceptPc.claims]
          · simp [AcceptPc.claims]
          · simp [AcceptPc.claims]
          · simp [AcceptPc.claims]
  | unlockFull =>
      apply agrees.leave
      · simp [AcceptPc.claims]
      · simp [AcceptPc.claims]
      · simp [AcceptPc.claims]
      · simp [AcceptPc.claims, Nat.add_comm]
  | unlock =>
      apply agrees.leave
      · simp [AcceptPc.claims]
      · simp [AcceptPc.claims]
      · simp [AcceptPc.claims]
      · simp [AcceptPc.claims, Nat.add_comm]
  | add =>
      apply agrees.recount
      · simp [AcceptPc.claims]
      · simp [AcceptPc.claims]
      · simp [AcceptPc.claims]
        omega
      · simp [AcceptPc.claims]
  | reject => simpa [AcceptPc.claims, TcpShared.Agrees] using agrees
  | drop =>
      apply agrees.drop
      · exact fun _ kept apart => descriptors_drop kept apart
      · simp [AcceptPc.claims]
      · simp [AcceptPc.claims]
      · simp [AcceptPc.claims]
      · simp [AcceptPc.claims]
  | creates => simpa [AcceptPc.claims, ConnPc.claims] using agrees
  | counts => simpa [AcceptPc.claims, TcpShared.Agrees] using agrees

/-- `dns_tcp_server_stop` keeps the accounts, as long as the listening socket is nobody's
connection when it closes it. -/
theorem StopStep.agrees {acceptor : AcceptPc} {pc pc' : StopPc} {shared shared' : TcpShared}
    {rest : Claims Slot Fd} (step : StopStep acceptor pc shared pc' shared')
    (listener : pc = .closeListener → shared.descriptors shared.listenFd = some .listener)
    (agrees : shared.Agrees (rest + pc.claims)) : shared'.Agrees (rest + pc'.claims) := by
  cases step with
  | call | join | shutdown | scanned | sleep | observe | destroy | free =>
      simpa [StopPc.claims] using agrees
  | signal => simpa [StopPc.claims, TcpShared.Agrees] using agrees
  | closeListener =>
      apply agrees.others
      intro fd connection
      apply descriptors_drop connection
      rintro rfl
      rw [listener rfl] at connection
      cases connection
  | lock free =>
      rw [TcpShared.Agrees, free] at agrees
      apply agrees.acquire
      · simp [StopPc.claims]
      · simp [StopPc.claims]
      · simp [StopPc.claims]
      · simp [StopPc.claims]
  | unlock =>
      apply agrees.leave
      · simp [StopPc.claims]
      · simp [StopPc.claims]
      · simp [StopPc.claims]
      · simp [StopPc.claims]

/-! ## The invariant -/

/-- `dns_tcp_server_stop` has joined the accept thread. -/
def StopPc.Joined : StopPc → Prop
  | .idle | .signal | .join => False
  | _ => True

/-- `dns_tcp_server_stop` has closed the listening socket. -/
def StopPc.ListenerClosed : StopPc → Prop
  | .idle | .signal | .join | .closeListener => False
  | _ => True

/-- `dns_tcp_server_stop` has seen `active_conns` at 0. -/
def StopPc.Observed : StopPc → Prop
  | .destroy | .free | .done => True
  | _ => False

/-- What holds in every state of the server. -/
structure TcpSystem.Sound (system : TcpSystem) : Prop where
  agrees : system.shared.Agrees system.claims
  joined : system.stopper.Joined → system.acceptor = .returned
  listener : ¬ system.stopper.ListenerClosed →
    system.shared.descriptors system.shared.listenFd = some .listener
  gone : system.stopper.Observed → system.conns = 0

theorem TcpSystem.Started.sound {system : TcpSystem} (started : system.Started) :
    system.Sound := by
  obtain ⟨empty, inactive, unlocked, _, listening, _, accepting, alone, idle⟩ := started
  have none : system.claims = 0 := by
    rw [TcpSystem.claims, accepting, alone, idle]
    simp [AcceptPc.claims, StopPc.claims]
  refine ⟨?_, ?_, fun _ => listening, ?_⟩
  · rw [none]
    refine ⟨Multiset.nodup_zero, by simp, ?_, by simpa using inactive, by simp [unlocked]⟩
    intro slot fd
    rw [empty]
    simp
  · rw [idle]
    exact fun joined => joined.elim
  · rw [idle]
    exact fun observed => observed.elim

/-- Every connection thread counts in `active_conns` until it has left. -/
theorem counted_conns (conns : Multiset ConnPc) :
    (conns.map ConnPc.claims).sum.counted = conns.card := by
  induction conns using Multiset.induction with
  | empty => rfl
  | cons pc rest ih =>
      have one : pc.claims.counted = 1 := by
        cases pc with
        | serve fd slot => rfl
        | release pc fd slot => cases pc <;> rfl
      rw [Multiset.map_cons, Multiset.sum_cons, Claims.add_counted, one, ih, Multiset.card_cons,
        Nat.add_comm]

/-- Closing a connection leaves the listening socket open. -/
theorem listener_of_drop {shared : TcpShared} {fd : Fd}
    (connection : shared.descriptors fd = some .connection)
    (listener : shared.descriptors shared.listenFd = some .listener) :
    Function.update shared.descriptors fd none shared.listenFd = some .listener := by
  rw [Function.update_of_ne, listener]
  rintro rfl
  rw [listener] at connection
  cases connection

/-- Opening a descriptor leaves the listening socket open. -/
theorem listener_of_open {shared : TcpShared} {fd : Fd} {owner : FdOwner}
    (fresh : shared.descriptors fd = none)
    (listener : shared.descriptors shared.listenFd = some .listener) :
    Function.update shared.descriptors fd (some owner) shared.listenFd = some .listener := by
  rw [Function.update_of_ne, listener]
  rintro rfl
  rw [listener] at fresh
  cases fresh

theorem ReleaseStep.listener {fd : Fd} {slot : Slot} {pc : ReleasePc} {next : Option ReleasePc}
    {shared shared' : TcpShared} {rest : Claims Slot Fd}
    (step : ReleaseStep fd slot pc shared next shared')
    (agrees : shared.Agrees (pc.claims fd slot + rest))
    (listener : shared.descriptors shared.listenFd = some .listener) :
    shared'.descriptors shared'.listenFd = some .listener := by
  cases step with
  | lock | clear | unlock | subtract => exact listener
  | close =>
      apply listener_of_drop _ listener
      apply agrees.owned
      simp [ReleasePc.claims]

theorem AcceptStep.listener {pc pc' : AcceptPc} {shared shared' : TcpShared}
    {created : Multiset ConnPc} {rest : Claims Slot Fd}
    (step : AcceptStep pc shared pc' shared' created) (agrees : shared.Agrees (pc.claims + rest))
    (listener : shared.descriptors shared.listenFd = some .listener) :
    shared'.descriptors shared'.listenFd = some .listener := by
  cases step with
  | accepts fresh => exact listener_of_open fresh listener
  | drop =>
      apply listener_of_drop _ listener
      apply agrees.owned
      simp [AcceptPc.claims]
  | _ => exact listener

/-- The claims of all threads, those of one connection thread first. -/
theorem claims_cons (shared : TcpShared) (acceptor : AcceptPc) (pc : ConnPc)
    (conns : Multiset ConnPc) (stopper : StopPc) :
    (TcpSystem.mk shared acceptor (pc ::ₘ conns) stopper).claims =
      pc.claims + (TcpSystem.mk shared acceptor conns stopper).claims := by
  simp only [TcpSystem.claims, Multiset.map_cons, Multiset.sum_cons]
  abel

theorem StopPc.Observed.joined {pc : StopPc} (observed : pc.Observed) : pc.Joined := by
  cases pc <;> trivial

/-- A step of the accept thread keeps the invariant; the thread has not been joined. -/
theorem AcceptStep.sound {pc pc' : AcceptPc} {shared shared' : TcpShared}
    {conns created : Multiset ConnPc} {stopper : StopPc}
    (step : AcceptStep pc shared pc' shared' created)
    (sound : (TcpSystem.mk shared pc conns stopper).Sound) :
    (TcpSystem.mk shared' pc' (created + conns) stopper).Sound := by
  obtain ⟨agrees, joined, listener, _⟩ := sound
  have working : ¬ stopper.Joined := by
    intro done
    cases joined done
    cases step
  refine ⟨?_, ?_, ?_, ?_⟩
  · rw [TcpSystem.claims, Multiset.map_add, Multiset.sum_add, add_assoc (Multiset.sum _)]
    exact step.agrees agrees
  · exact fun done => absurd done working
  · exact fun listening => step.listener agrees (listener listening)
  · exact fun observed => absurd observed.joined working

/-- So does a step of its calls of `conn_release`. -/
theorem ReleaseStep.sound_acceptor {pc : ReleasePc} {next : Option ReleasePc}
    {shared shared' : TcpShared} {fd : Fd} {slot : Slot} {conns : Multiset ConnPc}
    {stopper : StopPc} (step : ReleaseStep fd slot pc shared next shared')
    (sound : (TcpSystem.mk shared (.release pc fd slot) conns stopper).Sound) :
    (TcpSystem.mk shared' (next.elim .check (.release · fd slot)) conns stopper).Sound := by
  obtain ⟨agrees, joined, listener, _⟩ := sound
  have working : ¬ stopper.Joined := by
    intro done
    cases joined done
  refine ⟨?_, ?_, ?_, ?_⟩
  · have after := step.agrees agrees
    cases next with
    | none => exact after
    | some pc => exact after
  · exact fun done => absurd done working
  · exact fun listening => step.listener agrees (listener listening)
  · exact fun observed => absurd observed.joined working

/-- And a step of those of a connection thread. -/
theorem ReleaseStep.sound_connection {pc : ReleasePc} {next : Option ReleasePc}
    {shared shared' : TcpShared} {fd : Fd} {slot : Slot} {acceptor : AcceptPc}
    {conns : Multiset ConnPc} {stopper : StopPc}
    (step : ReleaseStep fd slot pc shared next shared')
    (sound : (TcpSystem.mk shared acceptor (.release pc fd slot ::ₘ conns) stopper).Sound) :
    (TcpSystem.mk shared' acceptor (next.elim conns fun pc => .release pc fd slot ::ₘ conns)
      stopper).Sound := by
  obtain ⟨agrees, joined, listener, gone⟩ := sound
  rw [claims_cons] at agrees
  refine ⟨?_, joined, ?_, ?_⟩
  · have after := step.agrees agrees
    cases next with
    | none =>
        rw [Option.elim_none, zero_add] at after
        exact after
    | some pc =>
        simp only [Option.elim_some] at after ⊢
        rw [claims_cons]
        exact after
  · exact fun listening => step.listener agrees (listener listening)
  · exact fun observed => absurd (gone observed) (Multiset.cons_ne_zero)

/-- A step of `dns_tcp_server_stop` keeps the invariant. When it sees that `active_conns` is
not positive, no thread is counted there. -/
theorem StopStep.sound {acceptor : AcceptPc} {pc pc' : StopPc} {shared shared' : TcpShared}
    {conns : Multiset ConnPc} (step : StopStep acceptor pc shared pc' shared')
    (sound : (TcpSystem.mk shared acceptor conns pc).Sound) :
    (TcpSystem.mk shared' acceptor conns pc').Sound := by
  obtain ⟨agrees, joined, listener, gone⟩ := sound
  refine ⟨?_, ?_, ?_, ?_⟩
  · rw [TcpSystem.claims, ← add_assoc] at agrees ⊢
    refine step.agrees ?_ agrees
    rintro rfl
    exact listener fun closed => closed
  · intro done
    cases step with
    | call | signal => exact done.elim
    | join returned => exact returned
    | _ => exact joined trivial
  · intro listening
    cases step with
    | call | signal | join => exact listener fun closed => closed
    | _ => exact absurd trivial listening
  · intro observed
    cases step with
    | call | signal | join | closeListener | lock | shutdown | scanned | unlock | sleep =>
        exact observed.elim
    | observe none =>
        have returned : acceptor = .returned := joined trivial
        have count := agrees.count
        rw [TcpSystem.claims, returned] at count
        simp only [Claims.add_counted, counted_conns, AcceptPc.claims, StopPc.claims,
          Claims.zero_counted, Nat.zero_add, Nat.add_zero] at count
        have few : conns.card = 0 := by omega
        exact Multiset.card_eq_zero.mp few
    | destroy | free => exact gone trivial

/-- Every step keeps the invariant. -/
theorem TcpStep.sound {actor : Actor} {before after : TcpSystem}
    (step : TcpStep actor before after) (sound : before.Sound) : after.Sound := by
  cases step with
  | accept step => exact step.sound sound
  | acceptRelease step => exact step.sound_acceptor sound
  | connRelease step => exact step.sound_connection sound
  | stop step => exact step.sound sound
  | query => exact ⟨sound.agrees, sound.joined, sound.listener, sound.gone⟩
  | answer => exact ⟨sound.agrees, sound.joined, sound.listener, sound.gone⟩
  | finish =>
      obtain ⟨agrees, joined, listener, gone⟩ := sound
      refine ⟨?_, joined, listener, fun observed => absurd (gone observed) Multiset.cons_ne_zero⟩
      rw [claims_cons] at agrees ⊢
      exact agrees
  | @opens shared _ _ _ fd fresh =>
      obtain ⟨agrees, joined, listener, gone⟩ := sound
      refine ⟨?_, joined, fun listening => listener_of_open fresh (listener listening), gone⟩
      apply agrees.others
      intro other connection
      have apart : other ≠ fd := by
        rintro rfl
        rw [fresh] at connection
        cases connection
      simpa only [Function.update_of_ne apart] using connection
  | @closes shared _ _ _ fd own =>
      obtain ⟨agrees, joined, listener, gone⟩ := sound
      have apart : ∀ {other : Fd} {owner : FdOwner}, owner ≠ .other →
          shared.descriptors other = some owner → other ≠ fd := by
        rintro other owner differ opened rfl
        rw [own] at opened
        exact differ (Option.some.inj opened).symm
      refine ⟨?_, joined, fun listening => ?_, gone⟩
      · apply agrees.others
        intro other connection
        exact descriptors_drop connection (apart (by decide) connection)
      · have opened := listener listening
        simpa only [Function.update_of_ne (apart (by decide) opened)] using opened

theorem TcpRun.step {actor : Actor} {before between after : TcpSystem}
    (run : TcpRun before between) (step : TcpStep actor between after) : TcpRun before after :=
  Relation.ReflTransGen.tail run ⟨actor, step⟩

/-- The invariant holds in every state of a run. -/
theorem TcpRun.sound {before after : TcpSystem} (run : TcpRun before after)
    (sound : before.Sound) : after.Sound := by
  induction run with
  | refl => exact sound
  | tail _ step ih =>
      obtain ⟨actor, step⟩ := step
      exact step.sound ih

/-- Once `dns_tcp_server_stop` has seen no active connection, it does not look again. -/
theorem TcpRun.observed {before after : TcpSystem} (run : TcpRun before after)
    (observed : before.stopper.Observed) : after.stopper.Observed := by
  induction run with
  | refl => exact observed
  | tail _ step ih =>
      obtain ⟨actor, step⟩ := step
      cases step with
      | stop step =>
          cases step with
          | destroy | free => trivial
          | _ => exact ih.elim
      | _ => exact ih

/-- A slot the scan of `dns_tcp_server_stop` comes to is free or holds the descriptor of a
connection thread that has not yet taken the lock in `conn_release`. -/
theorem TcpSystem.Sound.scanned {system : TcpSystem} (sound : system.Sound) {next : Nat}
    (scanning : system.stopper = .scan next) {slot : Slot} {fd : Fd}
    (entry : system.shared.connFds slot = some fd) :
    .serve fd slot ∈ system.conns ∨ .release .lock fd slot ∈ system.conns := by
  have returned : system.acceptor = .returned := sound.joined (scanning ▸ trivial)
  have claimed := (sound.agrees.table slot fd).mp entry
  have inside := sound.agrees.lock
  rw [TcpSystem.claims, returned, scanning] at claimed inside
  simp only [Claims.add_entries, AcceptPc.claims, StopPc.claims, Claims.leaving_entries,
    zero_add, add_zero] at claimed
  simp only [Claims.add_inside, AcceptPc.claims, StopPc.claims, Claims.leaving_inside,
    zero_add] at inside
  obtain ⟨_, listed, claimed⟩ := Claims.mem_entries_sum claimed
  obtain ⟨conn, mem, rfl⟩ := Multiset.mem_map.mp listed
  -- the scan is inside the lock, so this thread is not
  have outside : conn.claims.inside = 0 := by
    have least := Claims.inside_le_sum listed
    split at inside <;> omega
  cases conn with
  | serve fd' slot' =>
      cases Multiset.mem_singleton.mp claimed
      exact .inl mem
  | release pc fd' slot' =>
      cases pc with
      | lock =>
          cases Multiset.mem_singleton.mp claimed
          exact .inr mem
      | clear => cases outside
      | close | unlock | subtract => exact absurd claimed (Multiset.notMem_zero _)

/-- A connection thread has a slot until it clears it in `conn_release`. -/
def ConnPc.HasSlot : ConnPc → Prop
  | .serve _ _ | .release .lock _ _ | .release .clear _ _ => True
  | .release .close _ _ | .release .unlock _ _ | .release .subtract _ _ => False

instance : DecidablePred ConnPc.HasSlot := fun pc => by
  unfold ConnPc.HasSlot
  split <;> infer_instance

theorem countP_hasSlot (conns : Multiset ConnPc) :
    conns.countP ConnPc.HasSlot = ((conns.map ConnPc.claims).sum).entries.card := by
  induction conns using Multiset.induction with
  | empty => rfl
  | cons conn conns ih =>
      rw [Multiset.map_cons, Multiset.sum_cons, Claims.add_entries, Multiset.card_add,
        Multiset.countP_cons, ih, Nat.add_comm]
      congr 1
      cases conn with
      | serve => rfl
      | release pc => cases pc <;> rfl

/-- In every state of every run of the server:

* the connection threads with a slot are at most as many as the slots in use, of which there are
  at most `DNS_TCP_MAX_CONNS`;
* no two slots hold one descriptor, and each holds an open connection;
* a descriptor that `dns_tcp_server_stop` finds in its scan is that of a connection thread which
  has not begun to release it;
* when `dns_tcp_server_stop` has seen no active connection, the accept thread has returned, and
  from then on neither it nor a connection thread takes a step. -/
theorem tcp_table_and_shutdown {start system : TcpSystem} (started : start.Started)
    (run : TcpRun start system) :
    (system.conns.countP ConnPc.HasSlot
        ≤ (Finset.univ.filter fun slot => system.shared.connFds slot ≠ none).card ∧
      (Finset.univ.filter fun slot => system.shared.connFds slot ≠ none).card
        ≤ dnsTcpMaxConns) ∧
    (∀ left right fd, system.shared.connFds left = some fd →
      system.shared.connFds right = some fd → left = right) ∧
    (∀ slot fd, system.shared.connFds slot = some fd →
      system.shared.descriptors fd = some .connection) ∧
    (∀ next slot fd, system.stopper = .scan next → system.shared.connFds slot = some fd →
      .serve fd slot ∈ system.conns ∨ .release .lock fd slot ∈ system.conns) ∧
    (system.stopper.Observed → system.acceptor = .returned ∧
      ∀ later, TcpRun system later → ∀ actor after, TcpStep actor later after →
        actor = .stopper ∨ actor = .environment) := by
  have sound := run.sound started.sound
  refine ⟨⟨?_, ?_⟩, ?_, ?_, ?_, ?_⟩
  · apply le_trans _ sound.agrees.card_entries_le
    rw [countP_hasSlot, TcpSystem.claims, Claims.add_entries, Claims.add_entries,
      Multiset.card_add, Multiset.card_add]
    omega
  · exact (Finset.card_le_univ _).trans (Fintype.card_fin _).le
  · exact fun _ _ _ first second => sound.agrees.table_injective first second
  · exact fun _ _ entry => sound.agrees.owned_of_table entry
  · exact fun _ _ _ scanning entry => sound.scanned scanning entry
  · intro observed
    refine ⟨sound.joined observed.joined, ?_⟩
    intro later run actor after step
    have sound' := run.sound sound
    have seen := run.observed observed
    have returned := sound'.joined seen.joined
    have alone := sound'.gone seen
    cases step with
    | accept step =>
        cases returned
        cases step
    | acceptRelease => cases returned
    | query | answer | finish | connRelease => exact absurd alone Multiset.cons_ne_zero
    | stop => exact .inl rfl
    | opens | closes => exact .inr rfl

/-- A server with descriptor 3 as its listener. -/
def startedServer : TcpSystem where
  shared :=
    { listenFd := 3
      stop := false
      locked := false
      connFds := fun _ => none
      activeConns := 0
      accepted := 0
      rejected := 0
      queries := 0
      answered := 0
      descriptors := fun fd => if fd = 3 then some .listener else none }
  acceptor := .check
  conns := 0
  stopper := .idle

theorem startedServer_started : startedServer.Started where
  empty _ := rfl
  inactive := rfl
  unlocked := rfl
  running := rfl
  listening := rfl
  unconnected fd := by
    simp only [startedServer]
    split <;> simp
  accepting := rfl
  alone := rfl
  idle := rfl

/-- The first slot of the table. -/
def firstSlot : Slot := ⟨0, by decide⟩

/-- The server accepts a connection as descriptor 4 and creates its thread; then the scan of
`dns_tcp_server_stop` begins. -/
theorem startedServer_scan :
    ∃ system, TcpRun startedServer system ∧ system.stopper = .scan 0 ∧
      system.shared.connFds firstSlot = some 4 := by
  have start : TcpRun startedServer startedServer := .refl
  have accepted := start.step (.accept (.goOn rfl)) |>.step (.accept .ready)
    |>.step (.accept (@AcceptStep.accepts _ 4 rfl))
  have reserved := accepted.step (.accept (.lock rfl)) |>.step (.accept .scan)
    |>.step (.accept (@AcceptStep.unlock _ _ firstSlot)) |>.step (.accept .add)
  have created := reserved.step (.accept .allocates) |>.step (.accept .creates)
    |>.step (.accept .counts)
  have joined := created.step (.stop .call) |>.step (.stop .signal)
    |>.step (.accept (.giveUp rfl)) |>.step (.stop (.join rfl))
  have scanning := joined.step (.stop .closeListener) |>.step (.stop (.lock rfl))
  exact ⟨_, scanning, rfl, rfl⟩

/-- There the descriptor is open and belongs to the thread that serves it. -/
theorem tcp_table_and_shutdown_scan :
    ∃ system, TcpRun startedServer system ∧ system.shared.connFds firstSlot = some 4 ∧
      system.shared.descriptors 4 = some .connection ∧
      (.serve 4 firstSlot ∈ system.conns ∨ .release .lock 4 firstSlot ∈ system.conns) := by
  obtain ⟨system, run, scanning, entry⟩ := startedServer_scan
  obtain ⟨_, _, opened, owned, _⟩ := tcp_table_and_shutdown startedServer_started run
  exact ⟨system, run, entry, opened _ _ entry, owned _ _ _ scanning entry⟩

end FizzDns
