import FizzDns.Cache.Linearizable

/-!
# Every call comes to its end

In no state that threads can reach is a call stuck: its thread can go on, or it waits for the mutex
and the owner of the mutex can go on. In particular no call follows a dangling pointer, which
would be a part under the mutex without a result. And no thread goes on forever: a call needs at
most `callEvents` accesses to what is shared.
-/

namespace FizzDns

open FilterRace Linearizability

/-- The most events of a call: its start, four loads, the mutex, eight accesses to the filter for
each of two of its calls, the end of the mutex, and its return. -/
def callEvents : Nat := 1 + bloomHashes + 1 + 2 * (2 * bloomHashes) + 1 + 1

namespace CacheEvent

variable {ι : Type}

/-- Whose event it is. -/
def thread : CacheEvent ι → ι
  | .call thread _ => thread
  | .load thread => thread
  | .miss thread => thread
  | .lock thread => thread
  | .write thread => thread
  | .unlock thread => thread
  | .ret thread _ => thread

/-- Whether a call starts. -/
def starts : CacheEvent ι → Bool
  | .call _ _ => true
  | _ => false

end CacheEvent

/-- How many more events a thread can have until its call returns. -/
def CacheThread.eventsLeft (filter : Race Empty CacheKey (Fin bloomSlotCount)) :
    CacheThread → Nat
  | .idle => 0
  | .testing _ _ left => left.length + 1 + (2 * (2 * bloomHashes) + 3)
  | .rejected => 2
  | .waiting _ => 2 * (2 * bloomHashes) + 3
  | .inside _ => filter.accesses bloomHashes + 2
  | .returning _ => 1

/-- A call starts with `callEvents` events at most, the first one included. -/
theorem CacheThread.eventsLeft_enter (filter : Race Empty CacheKey (Fin bloomSlotCount))
    (call : CacheCall) :
    (CacheThread.resume call call.slots).eventsLeft filter + 1 ≤ callEvents := by
  cases call with
  | get name qtype cap now =>
      have length := length_bloomSlots (dnsKeyHash name.chars qtype)
      simp only [CacheCall.slots]
      generalize bloomSlots (dnsKeyHash name.chars qtype) = slots at length
      cases slots with
      | nil => cases length
      | cons slot left =>
          simp only [resume, eventsLeft, callEvents]
          rw [List.length_cons] at length
          omega
  | put name qtype ans rcode now allocates =>
      simp only [CacheCall.slots, resume, eventsLeft, callEvents]
      omega

/-- A lookup that goes on has one load less to make. -/
theorem CacheThread.eventsLeft_resume (filter : Race Empty CacheKey (Fin bloomSlotCount))
    (call : CacheCall) (slot : Fin bloomSlotCount) (left : List (Fin bloomSlotCount)) :
    (CacheThread.testing call slot left).eventsLeft filter =
      (CacheThread.resume call left).eventsLeft filter + 1 := by
  cases left with
  | nil =>
      simp only [resume, eventsLeft, List.length_nil]
      omega
  | cons next left =>
      simp only [resume, eventsLeft, List.length_cons]
      omega

/-- A part under the mutex calls the filter at most twice. -/
theorem CacheCall.length_filterWork (call : CacheCall) (cache : LruCache) :
    (call.filterWork cache).length ≤ 2 := by
  cases call with
  | get name qtype cap now =>
      simp only [filterWork]
      split
      · exact Nat.zero_le _
      · split <;> simp
  | put name qtype ans rcode now allocates =>
      have evicted : (cache.evictionCalls now).length ≤ 1 := by
        unfold LruCache.evictionCalls
        split
        · exact Nat.zero_le _
        · split <;> simp
      simp only [filterWork]
      split
      · exact Nat.zero_le _
      · rw [List.length_append]
        refine (Nat.add_le_add_right evicted _).trans ?_
        split <;> simp

variable {ι : Type} [DecidableEq ι] {s next : SharedCache ι}
  {shared : Shared CacheMap ι CacheCall (Option CacheHit)} {shown cache : LruCache}
  {settled : List CacheKey} {thread : ι}

/-! ## Nobody is stuck -/

/-- The owner of the mutex can write, or give the mutex back. -/
theorem Tracks.owner_moves (tracks : Tracks s shared shown cache settled)
    (owner : s.owner = some thread) :
    ∃ event next, event.thread = thread ∧ SharedCache.Moves event s next := by
  obtain ⟨result, inside, _⟩ := tracks.owned thread owner
  by_cases busy : s.filter.calls ≠ [] ∨ s.filter.current ≠ none
  · have nonempty : ∀ key, keySlots key ≠ [] := by
      intro key empty
      have length := length_keySlots key
      rw [empty] at length
      cases length
    obtain ⟨filter, mark, wrote⟩ := exists_writeStep nonempty busy
    exact ⟨_, _, rfl, .write owner wrote⟩
  · simp only [ne_eq, not_or, not_not] at busy
    exact ⟨_, _, rfl, .unlock inside busy.1 busy.2 owner⟩

/-- A thread inside a call can go on, or the owner of the mutex can. -/
theorem Tracks.busy_moves (tracks : Tracks s shared shown cache settled)
    (busy : s.threads thread ≠ .idle) :
    ∃ event next, (event.thread = thread ∨ s.owner = some event.thread) ∧
      SharedCache.Moves event s next := by
  cases here : s.threads thread with
  | idle => exact absurd here busy
  | testing call slot left =>
      by_cases zero : s.filter.slots slot = 0
      · exact ⟨_, _, .inl rfl, .reject here zero⟩
      · exact ⟨_, _, .inl rfl, .pass here zero⟩
  | rejected => exact ⟨_, _, .inl rfl, .miss here⟩
  | waiting call =>
      cases owner : s.owner with
      | none =>
          obtain ⟨_, client, _, placed⟩ := tracks.outside here (by simp)
          cases placed with
          | waiting fits =>
              obtain ⟨after, locked, _⟩ := CacheCall.locked_refines fits tracks.refines
              exact ⟨_, _, .inl rfl, .lock here owner locked⟩
      | some other =>
          obtain ⟨event, next, mine, moves⟩ := tracks.owner_moves owner
          exact ⟨event, next, .inr (by rw [mine]), moves⟩
  | inside result =>
      have owns : s.owner = some thread := by
        by_contra unowned
        have placed := tracks.placed thread unowned
        rw [here] at placed
        cases placed
      obtain ⟨event, next, mine, moves⟩ := tracks.owner_moves owns
      exact ⟨event, next, .inl mine, moves⟩
  | returning result => exact ⟨_, _, .inl rfl, .ret here⟩

/-! ## Nobody goes on forever -/

/-- The events of a thread, and those it can still have, are at most `callEvents` for each of its
calls. -/
def WithinBudget (past : List (CacheEvent ι)) (s : SharedCache ι) (thread : ι) : Prop :=
  past.countP (·.thread = thread) + (s.threads thread).eventsLeft s.filter ≤
    callEvents * past.countP fun event => event.starts && event.thread = thread

/-- An event of another thread changes nothing. -/
theorem WithinBudget.other {past : List (CacheEvent ι)} {event : CacheEvent ι}
    (within : WithinBudget past s thread) (differ : event.thread ≠ thread)
    (same : (next.threads thread).eventsLeft next.filter =
      (s.threads thread).eventsLeft s.filter) : WithinBudget (past ++ [event]) next thread := by
  simp only [WithinBudget, List.countP_append, List.countP_singleton, differ, decide_false,
    Bool.and_false, Bool.false_eq_true, if_false, Nat.add_zero, same]
  exact within

/-- An event of the thread's own call uses up one. -/
theorem WithinBudget.own {past : List (CacheEvent ι)} {event : CacheEvent ι}
    (within : WithinBudget past s thread) (mine : event.thread = thread)
    (inner : event.starts = false)
    (less : (next.threads thread).eventsLeft next.filter + 1 ≤
      (s.threads thread).eventsLeft s.filter) : WithinBudget (past ++ [event]) next thread := by
  simp only [WithinBudget, List.countP_append, List.countP_singleton, mine, inner, decide_true,
    Bool.false_and, Bool.false_eq_true, if_true, if_false, Nat.add_zero] at within ⊢
  omega

/-- A call that starts brings `callEvents` with it. -/
theorem WithinBudget.enter {past : List (CacheEvent ι)} {event : CacheEvent ι}
    (within : WithinBudget past s thread) (mine : event.thread = thread)
    (starts : event.starts = true)
    (less : (next.threads thread).eventsLeft next.filter + 1 ≤
      (s.threads thread).eventsLeft s.filter + callEvents) :
    WithinBudget (past ++ [event]) next thread := by
  simp only [WithinBudget, List.countP_append, List.countP_singleton, mine, starts, decide_true,
    Bool.and_true, if_true, Nat.mul_add, Nat.mul_one] at within ⊢
  omega

/-- Only between lock and unlock does it matter to a thread what the filter is. -/
theorem CacheThread.eventsLeft_outside {place : CacheThread}
    (outside : ∀ result, place ≠ .inside result)
    (before after : Race Empty CacheKey (Fin bloomSlotCount)) :
    place.eventsLeft before = place.eventsLeft after := by
  cases place with
  | inside result => exact absurd rfl (outside result)
  | _ => rfl

/-- What an event leaves to the other threads: they stay where they are, and the filter changes
only if they do not own the mutex. -/
theorem SharedCache.Moves.other {event : CacheEvent ι} (moves : SharedCache.Moves event s next)
    (differ : thread ≠ event.thread) :
    next.threads thread = s.threads thread ∧
      (next.filter = s.filter ∨ s.owner ≠ some thread) := by
  cases moves with
  | write owner wrote =>
      refine ⟨rfl, .inr fun owns => differ ?_⟩
      exact Option.some.inj (owns.symm.trans owner)
  | lock here free locked => exact ⟨moveTo_of_ne differ, .inr (by simp [free])⟩
  | _ => exact ⟨moveTo_of_ne differ, .inl rfl⟩

/-- Every event keeps every thread within its budget. -/
theorem WithinBudget.step {past : List (CacheEvent ι)} {event : CacheEvent ι}
    (tracks : Tracks s shared shown cache settled) (within : WithinBudget past s thread)
    (moves : SharedCache.Moves event s next) : WithinBudget (past ++ [event]) next thread := by
  by_cases mine : event.thread = thread
  · subst mine
    cases moves with
    | call call here =>
        refine within.enter rfl rfl ?_
        rw [SharedCache.moveTo_filter, CacheEvent.thread, SharedCache.moveTo_self, here]
        exact (CacheThread.eventsLeft_enter _ call).trans (Nat.le_add_left _ _)
    | reject here zero =>
        refine within.own rfl rfl ?_
        rw [CacheEvent.thread, SharedCache.moveTo_self, here]
        simp only [CacheThread.eventsLeft]
        omega
    | pass here raised =>
        refine within.own rfl rfl (Nat.le_of_eq ?_)
        rw [CacheEvent.thread, SharedCache.moveTo_self, here, CacheThread.eventsLeft_resume,
          SharedCache.moveTo_filter]
    | miss here =>
        refine within.own rfl rfl (Nat.le_of_eq ?_)
        rw [CacheEvent.thread, SharedCache.moveTo_self, here]
        rfl
    | @lock _ thread call result after here free locked =>
        obtain ⟨_, client, _, placed⟩ := tracks.outside here (by simp)
        cases placed with
        | waiting fits =>
            obtain ⟨next, done, _, log⟩ := CacheCall.locked_refines fits tracks.refines
            obtain ⟨_, rfl⟩ := Prod.mk.inj (Option.some.inj (locked.symm.trans done))
            refine within.own rfl rfl ?_
            rw [CacheEvent.thread, SharedCache.moveTo_self, here, SharedCache.moveTo_filter, log,
              List.drop_left]
            have few := call.length_filterWork cache
            simp only [CacheThread.eventsLeft, Race.accesses, (tracks.unowned free).2.1,
              bloomHashes]
            omega
    | write owner wrote =>
        obtain ⟨result, inside, _⟩ := tracks.owned _ owner
        refine within.own rfl rfl (Nat.le_of_eq ?_)
        simp only [CacheEvent.thread, inside, CacheThread.eventsLeft,
          writeStep_accesses length_keySlots wrote]
    | unlock here noCalls idle owner =>
        refine within.own rfl rfl ?_
        rw [CacheEvent.thread, SharedCache.moveTo_self, here]
        simp only [CacheThread.eventsLeft]
        omega
    | ret here =>
        refine within.own rfl rfl (Nat.le_of_eq ?_)
        rw [CacheEvent.thread, SharedCache.moveTo_self, here]
        rfl
  · obtain ⟨stays, filter | unowned⟩ := moves.other (Ne.symm mine)
    · exact within.other mine (by rw [stays, filter])
    · refine within.other mine ?_
      rw [stays]
      refine CacheThread.eventsLeft_outside (fun result inside => ?_) _ _
      have placed := tracks.placed thread unowned
      rw [inside] at placed
      cases placed

/-- In no schedule does a thread have more than `callEvents` events for each of its calls; and
wherever a schedule leads, a thread inside a call can go on, or the owner of the mutex can. -/
theorem sharedCache_progress {events : List (CacheEvent ι)} {final : SharedCache ι}
    (fits : ∀ event ∈ events, event.Fits)
    (done : Schedule.run SharedCache.step events .start = some final) (thread : ι) :
    events.countP (·.thread = thread) ≤
        callEvents * events.countP (fun event => event.starts && event.thread = thread) ∧
      (final.threads thread ≠ .idle →
        ∃ event next, (event.thread = thread ∨ final.owner = some event.thread) ∧
          final.step event = some next) := by
  have keeps : ∀ past event (s next : SharedCache ι), event.Fits →
      (∃ shared shown cache settled, Tracks s shared shown cache settled) ∧
        WithinBudget past s thread → s.step event = some next →
      (∃ shared shown cache settled, Tracks next shared shown cache settled) ∧
        WithinBudget (past ++ [event]) next thread := by
    rintro past event s next fits ⟨⟨shared, shown, cache, settled, tracks⟩, within⟩ stepped
    obtain ⟨after, _, tracked⟩ := tracks.step fits stepped
    exact ⟨⟨after, tracked⟩, within.step tracks (SharedCache.moves_of_step stepped)⟩
  have fresh : WithinBudget [] (SharedCache.start : SharedCache ι) thread := Nat.zero_le _
  obtain ⟨⟨shared, shown, cache, settled, tracks⟩, within⟩ :=
    Schedule.run_invariant keeps fits ⟨⟨_, _, _, _, .start⟩, fresh⟩ done
  refine ⟨(Nat.le_add_right _ _).trans within, fun busy => ?_⟩
  obtain ⟨event, next, mover, moves⟩ := tracks.busy_moves busy
  exact ⟨event, next, mover, SharedCache.step_of_moves moves⟩

/-- While the put of the overlapping calls has the mutex, the lookup can go on. -/
theorem sharedCache_progress_example :
    ∃ final, Schedule.run SharedCache.step (overlappingCalls.take 6) .start = some final ∧
      ∃ event next, (event.thread = 1 ∨ final.owner = some event.thread) ∧
        final.step event = some next := by
  have rejected : (Schedule.run SharedCache.step (overlappingCalls.take 6) .start).map
      (·.threads 1) = some .rejected := by
    decide +kernel
  obtain ⟨final, done, here⟩ := Option.map_eq_some_iff.mp rejected
  exact ⟨final, done, (sharedCache_progress (by decide) done 1).2 (by rw [here]; simp)⟩

end FizzDns
