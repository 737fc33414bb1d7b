import FizzDns.Foundation.CountingFilter

/-!
# A counting filter read while it is written

One writer adds and deletes keys, one after the other, by loading and storing one counter
at a time; any number of readers test keys, loading one counter at a time and without a
lock. `run` executes a schedule of single loads and stores.

A key is *settled* from the last store of its addition to the first load of its deletion.
`run_consistent` says that in every state the counters are exact for the settled keys and
for the slots that the writer's current call has raised, or has not lowered yet; so a
reader that tests a key while it is settled sees no zero (`run_window`).
-/

namespace FizzDns.FilterRace

open CountingFilter

variable {ρ κ ι : Type} [DecidableEq κ] [DecidableEq ι]

/-- What the writer is asked to do. -/
inductive Call (κ : Type) where
  | add (key : κ)
  | del (key : κ)
  deriving DecidableEq

/-- The points of a call that matter to a reader: the last store of an addition and the
first load of a deletion. -/
inductive Mark (κ : Type) where
  | inserted (key : κ)
  | removing (key : κ)
  deriving DecidableEq

namespace Call

/-- The key of a call. -/
def key : Call κ → κ
  | .add key => key
  | .del key => key

/-- The store that follows a load. -/
def store : Call κ → UInt8 → ι → Slots ι → Slots ι
  | .add _ => raiseFrom
  | .del _ => lowerFrom

/-- What the first load of a call marks. -/
def atFirstLoad : Call κ → Option (Mark κ)
  | .add _ => none
  | .del key => some (.removing key)

/-- What the last store of a call marks. -/
def atLastStore : Call κ → Option (Mark κ)
  | .add key => some (.inserted key)
  | .del _ => none

end Call

/-- The keys present after calls that delete only what is present. -/
def replay : List (Call κ) → List κ → Option (List κ)
  | [], present => some present
  | .add key :: calls, present => replay calls (key :: present)
  | .del key :: calls, present =>
      if key ∈ present then replay calls (present.erase key) else none

/-- Calls are replayed one after the other. -/
theorem replay_append (first second : List (Call κ)) (present : List κ) :
    replay (first ++ second) present = (replay first present).bind (replay second) := by
  induction first generalizing present with
  | nil => rfl
  | cons call calls ih =>
      cases call with
      | add key => exact ih (key :: present)
      | del key =>
          simp only [List.cons_append, replay]
          split
          · exact ih (present.erase key)
          · rfl

/-- One more insertion. -/
theorem replay_concat_add {calls : List (Call κ)} {present : List κ} {key : κ}
    (replayed : replay calls [] = some present) :
    replay (calls ++ [.add key]) [] = some (key :: present) := by
  rw [replay_append, replayed]
  rfl

/-- One more removal, of a key that is there. -/
theorem replay_concat_del {calls : List (Call κ)} {present keys : List κ} {key : κ}
    (replayed : replay calls [] = some present) (same : present.Perm (key :: keys)) :
    ∃ left, replay (calls ++ [.del key]) [] = some left ∧ left.Perm keys := by
  have member : key ∈ present := same.mem_iff.mpr List.mem_cons_self
  refine ⟨present.erase key, ?_, ((List.perm_cons_erase member).symm.trans same).cons_inv⟩
  rw [replay_append, replayed, Option.bind_some, replay, if_pos member, replay]

/-- Whether a call adds. -/
def Call.adds : Call κ → Bool
  | .add _ => true
  | .del _ => false

/-- What is present is what was added and not deleted. -/
theorem replay_length {calls : List (Call κ)} {before after : List κ}
    (replayed : replay calls before = some after) :
    after.length + calls.countP (!·.adds) = before.length + calls.countP (·.adds) := by
  induction calls generalizing before with
  | nil =>
      cases replayed
      rfl
  | cons call calls ih =>
      cases call with
      | add key =>
          have rest := ih replayed
          simp only [List.countP_cons, Call.adds, List.length_cons, Bool.not_true,
            Bool.false_eq_true, if_false, if_true] at rest ⊢
          omega
      | del key =>
          rw [replay] at replayed
          split at replayed
          · next member =>
              have rest := ih replayed
              have positive := List.length_pos_of_mem member
              rw [List.length_erase_of_mem member] at rest
              simp only [List.countP_cons, Call.adds, Bool.not_false, Bool.false_eq_true, if_false,
                if_true] at rest ⊢
              omega
          · cases replayed

/-- Deleting what is present leaves the others. -/
theorem replay_del (calls : List (Call κ)) {present keys : List κ} {key : κ}
    (same : present.Perm (key :: keys)) :
    replay (.del key :: calls) present = replay calls (present.erase key) ∧
      (present.erase key).Perm keys := by
  have member : key ∈ present := same.mem_iff.mpr List.mem_cons_self
  exact ⟨if_pos member, ((List.perm_cons_erase member).symm.trans same).cons_inv⟩

/-- Where the writer is inside a call: the slot it is at, the slots after it, and the
counter it has loaded, if it has. -/
structure Progress (κ ι : Type) where
  call : Call κ
  slot : ι
  rest : List ι
  seen : Option UInt8

/-- Where a reader is. -/
inductive Reader (κ ι : Type) where
  | idle
  | reading (key : κ) (left : List ι)
  | returned (key : κ) (result : Bool)
  deriving DecidableEq

namespace Reader

/-- A reader that has seen no zero, with slots left to load. -/
def resume (key : κ) : List ι → Reader κ ι
  | [] => .returned key true
  | slot :: rest => .reading key (slot :: rest)

/-- Load the next counter. -/
def load (key : κ) (slots : Slots ι) : List ι → Reader κ ι
  | [] => .returned key true
  | slot :: rest => if slots slot = 0 then .returned key false else resume key rest

end Reader

/-- The shared counters, the writer with the calls it has not begun, and the readers. -/
structure Race (ρ κ ι : Type) where
  slots : Slots ι
  calls : List (Call κ)
  current : Option (Progress κ ι)
  readers : ρ → Reader κ ι

/-- All counters zero, and nobody inside a call. -/
def Race.start (calls : List (Call κ)) : Race ρ κ ι where
  slots := fun _ => 0
  calls := calls
  current := none
  readers := fun _ => .idle

/-- A single load or store. `write` is the writer's next one, with what it marks; `enter`
is the first load of a reader's test, `read` a further one. -/
inductive Event (ρ κ : Type) where
  | write (mark : Option (Mark κ))
  | enter (reader : ρ) (key : κ)
  | read (reader : ρ)
  deriving DecidableEq

variable (slotsOf : κ → List ι)

/-- The writer's next load or store. Every key has at least one slot. -/
def writeStep (race : Race ρ κ ι) : Option (Race ρ κ ι × Option (Mark κ)) :=
  match race.current with
  | none =>
      match race.calls with
      | [] => none
      | call :: calls =>
          match slotsOf call.key with
          | [] => none
          | slot :: rest =>
              some ({ race with
                calls := calls
                current := some ⟨call, slot, rest, some (race.slots slot)⟩ }, call.atFirstLoad)
  | some progress =>
      match progress.seen with
      | none =>
          some ({ race with
            current := some { progress with seen := some (race.slots progress.slot) } }, none)
      | some seen =>
          let slots := progress.call.store seen progress.slot race.slots
          match progress.rest with
          | [] => some ({ race with slots := slots, current := none }, progress.call.atLastStore)
          | slot :: rest =>
              some ({ race with
                slots := slots
                current := some ⟨progress.call, slot, rest, none⟩ }, none)

/-- The call that a mark belongs to. -/
def Mark.call : Mark κ → Call κ
  | .inserted key => .add key
  | .removing key => .del key

/-- The calls whose marks are still to come. -/
def Race.owed (race : Race ρ κ ι) : List (Call κ) :=
  match race.current with
  | some ⟨.add key, _, _, _⟩ => .add key :: race.calls
  | _ => race.calls

omit [DecidableEq κ] in
/-- A write makes the mark of the next call that is owed, or none. -/
theorem writeStep_owed {slotsOf : κ → List ι} {race next : Race ρ κ ι} {mark : Option (Mark κ)}
    (stepped : writeStep slotsOf race = some (next, mark)) :
    race.owed = (mark.map Mark.call).toList ++ next.owed := by
  obtain ⟨slots, calls, current, readers⟩ := race
  unfold writeStep at stepped
  cases current with
  | none =>
      cases calls with
      | nil => cases stepped
      | cons call calls =>
          simp only at stepped
          split at stepped
          · cases stepped
          · cases stepped
            cases call <;> rfl
  | some progress =>
      obtain ⟨call, slot, rest, seen⟩ := progress
      cases seen with
      | none =>
          cases stepped
          cases call <;> rfl
      | some seen =>
          cases rest with
          | nil =>
              cases stepped
              cases call <;> rfl
          | cons following rest =>
              cases stepped
              cases call <;> rfl

/-- How many loads and stores the writer has still to make, if every key has `width` slots. -/
def Race.accesses (width : Nat) (race : Race ρ κ ι) : Nat :=
  2 * width * race.calls.length +
    match race.current with
    | none => 0
    | some progress => 2 * progress.rest.length + if progress.seen.isSome then 1 else 2

omit [DecidableEq κ] in
/-- A write is one access less to make. -/
theorem writeStep_accesses {slotsOf : κ → List ι} {width : Nat}
    (uniform : ∀ key, (slotsOf key).length = width) {race next : Race ρ κ ι}
    {mark : Option (Mark κ)} (stepped : writeStep slotsOf race = some (next, mark)) :
    race.accesses width = next.accesses width + 1 := by
  obtain ⟨slots, calls, current, readers⟩ := race
  unfold writeStep at stepped
  cases current with
  | none =>
      cases calls with
      | nil => cases stepped
      | cons call calls =>
          simp only at stepped
          have wide := uniform call.key
          split at stepped
          · cases stepped
          · next slot rest uses =>
              cases stepped
              rw [uses, List.length_cons] at wide
              subst wide
              simp only [Race.accesses, List.length_cons, Option.isSome_some, if_true]
              ring
  | some progress =>
      obtain ⟨call, slot, rest, seen⟩ := progress
      cases seen with
      | none =>
          cases stepped
          rfl
      | some seen =>
          cases rest with
          | nil =>
              cases stepped
              rfl
          | cons following rest =>
              cases stepped
              simp only [Race.accesses, List.length_cons, Option.isSome_some, if_true,
                Option.isSome_none, Bool.false_eq_true, if_false]
              ring

omit [DecidableEq κ] in
/-- While calls are owed or one is going on, there is something to write. -/
theorem exists_writeStep {slotsOf : κ → List ι} (nonempty : ∀ key, slotsOf key ≠ [])
    {race : Race ρ κ ι} (busy : race.calls ≠ [] ∨ race.current ≠ none) :
    ∃ next mark, writeStep slotsOf race = some (next, mark) := by
  obtain ⟨slots, calls, current, readers⟩ := race
  cases current with
  | none =>
      cases calls with
      | nil => simp at busy
      | cons call calls =>
          obtain ⟨slot, rest, uses⟩ := List.exists_cons_of_ne_nil (nonempty call.key)
          simp [writeStep, uses]
  | some progress =>
      obtain ⟨call, slot, rest, seen⟩ := progress
      cases seen with
      | none => exact ⟨_, _, rfl⟩
      | some seen => cases rest <;> exact ⟨_, _, rfl⟩

/-- One load or store. -/
def step [DecidableEq ρ] (event : Event ρ κ) (race : Race ρ κ ι) : Option (Race ρ κ ι) :=
  match event with
  | .write mark => do
      let (next, made) ← writeStep slotsOf race
      if made = mark then some next else none
  | .enter reader key =>
      match race.readers reader with
      | .reading _ _ => none
      | _ => some { race with
          readers := Function.update race.readers reader
            (Reader.load key race.slots (slotsOf key)) }
  | .read reader =>
      match race.readers reader with
      | .reading key left => some { race with
          readers := Function.update race.readers reader (Reader.load key race.slots left) }
      | _ => none

/-- A schedule of loads and stores. -/
def run [DecidableEq ρ] : List (Event ρ κ) → Race ρ κ ι → Option (Race ρ κ ι)
  | [], race => some race
  | event :: events, race => do
      let next ← step slotsOf event race
      run events next

/-- The settled keys after one more event. -/
def settle (settled : List κ) : Event ρ κ → List κ
  | .write (some (.inserted key)) => key :: settled
  | .write (some (.removing key)) => settled.erase key
  | _ => settled

/-- The settled keys after a schedule. -/
def settledBy (settled : List κ) (events : List (Event ρ κ)) : List κ :=
  events.foldl settle settled

/-! ## The invariant -/

/-- What the current call occupies besides the settled keys, and the keys that will be
present when it is done. -/
inductive Midway : Option (Progress κ ι) → (settled : List κ) → (extra : List ι) →
    (present : List κ) → Prop
  | idle {settled} : Midway none settled [] settled
  | adding {key slot rest seen settled raised} (slots : slotsOf key = raised ++ slot :: rest) :
      Midway (some ⟨.add key, slot, rest, seen⟩) settled raised (key :: settled)
  | deleting {key slot rest seen settled} :
      Midway (some ⟨.del key, slot, rest, seen⟩) settled (slot :: rest) settled

/-- The counters are exact for the settled keys and the current call, a loaded counter is
still current, and the calls to come delete only what will be present. -/
structure Consistent (race : Race ρ κ ι) (settled : List κ) : Prop where
  exact : ∃ extra present, Midway slotsOf race.current settled extra present ∧
    Exact race.slots (settled.flatMap slotsOf ++ extra) ∧ (replay race.calls present).isSome
  fresh : ∀ progress, race.current = some progress → ∀ seen, progress.seen = some seen →
    seen = race.slots progress.slot

variable {slotsOf} {race next : Race ρ κ ι} {settled : List κ}

/-- Before the first store. -/
theorem start_consistent {calls : List (Call κ)} (sound : (replay calls []).isSome) :
    Consistent slotsOf (Race.start calls : Race ρ κ ι) [] where
  exact := ⟨[], [], .idle, exact_zero, sound⟩
  fresh := fun _ none => by cases none

/-- The slots of a settled key are not zero. -/
theorem Consistent.ne_zero (consistent : Consistent slotsOf race settled) {key : κ}
    (member : key ∈ settled) {slot : ι} (uses : slot ∈ slotsOf key) : race.slots slot ≠ 0 := by
  obtain ⟨extra, present, _, exact, _⟩ := consistent.exact
  exact exact.ne_zero (List.mem_append_left _ (List.mem_flatMap.mpr ⟨key, member, uses⟩))

/-- A writer that is between two calls can be given other calls. -/
theorem Consistent.assign (consistent : Consistent slotsOf race settled)
    (idle : race.current = none) {calls : List (Call κ)} (sound : (replay calls settled).isSome) :
    Consistent slotsOf { race with calls := calls } settled := by
  obtain ⟨⟨extra, present, midway, exact, _⟩, fresh⟩ := consistent
  rw [idle] at midway
  cases midway
  exact ⟨⟨[], settled, idle ▸ .idle, exact, sound⟩, fresh⟩

/-! ## One step -/

/-- A call that begins has loaded its first counter. -/
private theorem begin_consistent {call : Call κ} {calls : List (Call κ)} {slot : ι} {rest : List ι}
    {slots : Slots ι} {readers : ρ → Reader κ ι}
    (exact : Exact slots (settled.flatMap slotsOf))
    (sound : (replay (call :: calls) settled).isSome)
    (uses : slotsOf call.key = slot :: rest) :
    Consistent slotsOf ⟨slots, calls, some ⟨call, slot, rest, some (slots slot)⟩, readers⟩
      (settle settled (.write call.atFirstLoad : Event ρ κ)) := by
  refine ⟨?_, ?_⟩
  · cases call with
    | add key => exact ⟨[], key :: settled, .adding uses, by rwa [List.append_nil], sound⟩
    | del key =>
        have member : key ∈ settled := by
          by_contra absent
          simp [replay, absent] at sound
        rw [replay, if_pos member] at sound
        refine ⟨slot :: rest, settled.erase key, .deleting, exact.perm ?_, sound⟩
        -- the slots of the deleted key are still raised
        rw [← uses]
        exact ((List.perm_cons_erase member).flatMap_right slotsOf).trans List.perm_append_comm
  · rintro progress same seen loaded
    cases same
    exact (Option.some.inj loaded).symm

/-- A store raises or lowers one counter, and may finish the call. -/
private theorem store_consistent {progress : Progress κ ι} {extra : List ι} {present : List κ}
    (current : race.current = some progress)
    (midway : Midway slotsOf (some progress) settled extra present)
    (exact : Exact race.slots (settled.flatMap slotsOf ++ extra))
    (sound : (replay race.calls present).isSome) :
    match progress.rest with
    | [] => Consistent slotsOf
        { race with
          slots := progress.call.store (race.slots progress.slot) progress.slot race.slots
          current := none }
        (settle settled (.write progress.call.atLastStore : Event ρ κ))
    | slot :: rest => Consistent slotsOf
        { race with
          slots := progress.call.store (race.slots progress.slot) progress.slot race.slots
          current := some ⟨progress.call, slot, rest, none⟩ } settled := by
  cases midway with
  | @adding key slot rest seen _ _ uses =>
      have raisedExact : Exact (raise slot race.slots)
          (settled.flatMap slotsOf ++ (extra ++ [slot])) := by
        refine (exact.raise slot).perm ?_
        rw [← List.append_assoc]
        exact (List.perm_append_singleton slot _).symm
      cases rest with
      | nil =>
          refine ⟨⟨[], key :: settled, .idle, raisedExact.perm ?_, sound⟩,
            fun _ none => by cases none⟩
          rw [← uses, List.append_nil]
          exact List.perm_append_comm
      | cons following rest =>
          refine ⟨⟨extra ++ [slot], key :: settled, .adding (by simpa using uses), raisedExact,
            sound⟩, ?_⟩
          rintro progress same seen loaded
          cases same
          cases loaded
  | @deleting key slot rest seen =>
      have loweredExact : Exact (lower slot race.slots) (settled.flatMap slotsOf ++ rest) :=
        Exact.lower (exact.perm List.perm_middle)
      cases rest with
      | nil => exact ⟨⟨[], settled, .idle, loweredExact, sound⟩, fun _ none => by cases none⟩
      | cons following rest =>
          refine ⟨⟨following :: rest, settled, .deleting, loweredExact, sound⟩, ?_⟩
          rintro progress same seen loaded
          cases same
          cases loaded

/-- The writer keeps the invariant and touches no reader. -/
theorem writeStep_consistent {mark : Option (Mark κ)}
    (consistent : Consistent slotsOf race settled)
    (stepped : writeStep slotsOf race = some (next, mark)) :
    Consistent slotsOf next (settle settled (.write mark : Event ρ κ)) ∧
      next.readers = race.readers := by
  obtain ⟨⟨extra, present, midway, exact, sound⟩, fresh⟩ := consistent
  unfold writeStep at stepped
  split at stepped
  · next idle =>
      rw [idle] at midway
      cases midway
      rw [List.append_nil] at exact
      split at stepped
      · cases stepped
      · next call calls pending =>
          rw [pending] at sound
          split at stepped
          · cases stepped
          · next slot rest uses =>
              cases stepped
              exact ⟨begin_consistent exact sound uses, rfl⟩
  · next progress current =>
      rw [current] at midway
      split at stepped
      · next unseen =>
          cases stepped
          refine ⟨⟨⟨extra, present, ?_, exact, sound⟩, ?_⟩, rfl⟩
          · cases midway with
            | adding uses => exact .adding uses
            | deleting => exact .deleting
          · rintro other same seen loaded
            cases same
            exact (Option.some.inj loaded).symm
      · next seen loaded =>
          obtain rfl := fresh progress current seen loaded
          have stored := store_consistent current midway exact sound
          split at stepped
          · next done =>
              rw [done] at stored
              cases stepped
              exact ⟨stored, rfl⟩
          · next slot rest more =>
              rw [more] at stored
              cases stepped
              exact ⟨stored, rfl⟩

/-! ## Settled keys -/

/-- A settled key stays settled until its removal starts. -/
theorem mem_settle {key : κ} (member : key ∈ settled) {event : Event ρ κ}
    (keeps : event ≠ .write (some (.removing key))) : key ∈ settle settled event := by
  unfold settle
  split
  · exact List.mem_cons_of_mem _ member
  · next other =>
      refine (List.mem_erase_of_ne ?_).mpr member
      rintro rfl
      exact keeps rfl
  · exact member

/-- A settled key stays settled until its removal begins. -/
theorem mem_settledBy {key : κ} {events : List (Event ρ κ)} (member : key ∈ settled)
    (keeps : .write (some (.removing key)) ∉ events) : key ∈ settledBy settled events := by
  induction events generalizing settled with
  | nil => exact member
  | cons event events ih =>
      rw [List.mem_cons, not_or] at keeps
      exact ih (mem_settle member (Ne.symm keeps.1)) keeps.2

/-- A load of a settled key's counter lets the reader go on. -/
theorem Consistent.load (consistent : Consistent slotsOf race settled) {key : κ}
    (member : key ∈ settled) {slot : ι} {rest : List ι} (uses : slot ∈ slotsOf key) :
    Reader.load key race.slots (slot :: rest) = Reader.resume key rest := by
  rw [Reader.load, if_neg (consistent.ne_zero member uses)]

variable [DecidableEq ρ]

/-! ## Schedules -/

/-- Every event keeps the invariant. -/
theorem step_consistent {event : Event ρ κ} (consistent : Consistent slotsOf race settled)
    (stepped : step slotsOf event race = some next) :
    Consistent slotsOf next (settle settled event) := by
  cases event with
  | write mark =>
      simp only [step, Option.bind_eq_bind, Option.bind_eq_some_iff] at stepped
      obtain ⟨⟨written, made⟩, wrote, same⟩ := stepped
      split at same
      · next equal =>
          cases same
          subst equal
          exact (writeStep_consistent consistent wrote).1
      · cases same
  | enter reader key =>
      simp only [step] at stepped
      split at stepped
      · cases stepped
      · cases stepped
        exact ⟨consistent.exact, consistent.fresh⟩
  | read reader =>
      simp only [step] at stepped
      split at stepped
      · cases stepped
        exact ⟨consistent.exact, consistent.fresh⟩
      · cases stepped

/-- Every schedule keeps the invariant. -/
theorem run_consistent {events : List (Event ρ κ)} {final : Race ρ κ ι}
    (consistent : Consistent slotsOf race settled) (done : run slotsOf events race = some final) :
    Consistent slotsOf final (settledBy settled events) := by
  induction events generalizing race settled with
  | nil =>
      cases done
      exact consistent
  | cons event events ih =>
      simp only [run, Option.bind_eq_bind, Option.bind_eq_some_iff] at done
      obtain ⟨next, stepped, rest⟩ := done
      exact ih (step_consistent consistent stepped) rest

/-- A run can be cut in two. -/
theorem run_append {first second : List (Event ρ κ)} {final : Race ρ κ ι}
    (done : run slotsOf (first ++ second) race = some final) :
    ∃ middle, run slotsOf first race = some middle ∧ run slotsOf second middle = some final := by
  induction first generalizing race with
  | nil => exact ⟨race, rfl, done⟩
  | cons event events ih =>
      simp only [List.cons_append, run, Option.bind_eq_bind, Option.bind_eq_some_iff] at done
      obtain ⟨next, stepped, rest⟩ := done
      obtain ⟨middle, before, after⟩ := ih rest
      exact ⟨middle, by simp [run, stepped, before], after⟩

/-- A reader inside a test of a key that stays settled sees no zero: it has as many slots
left as it has not loaded, and when none is left it has returned true. -/
theorem run_window {events : List (Event ρ κ)} {final : Race ρ κ ι} {reader : ρ} {key : κ}
    {left : List ι} (consistent : Consistent slotsOf race settled) (member : key ∈ settled)
    (inside : race.readers reader = Reader.resume key left) (uses : left ⊆ slotsOf key)
    (keeps : .write (some (.removing key)) ∉ events)
    (same : ∀ other, .enter reader other ∉ events)
    (done : run slotsOf events race = some final) :
    final.readers reader = Reader.resume key (left.drop (events.count (.read reader))) := by
  induction events generalizing race settled left with
  | nil =>
      cases done
      exact inside
  | cons event events ih =>
      simp only [run, Option.bind_eq_bind, Option.bind_eq_some_iff] at done
      obtain ⟨next, stepped, rest⟩ := done
      have nextConsistent := step_consistent consistent stepped
      rw [List.mem_cons, not_or] at keeps
      have stays := mem_settle member (Ne.symm keeps.1)
      have later : ∀ other, .enter reader other ∉ events := fun other inRest =>
        same other (List.mem_cons_of_mem _ inRest)
      cases event with
      | write mark =>
          rw [List.count_cons_of_ne (by simp)]
          refine ih nextConsistent stays ?_ uses keeps.2 later rest
          simp only [step, Option.bind_eq_bind, Option.bind_eq_some_iff] at stepped
          obtain ⟨⟨written, made⟩, wrote, equal⟩ := stepped
          split at equal
          · cases equal
            rw [(writeStep_consistent consistent wrote).2, inside]
          · cases equal
      | enter other wanted =>
          have differ : reader ≠ other := by
            rintro rfl
            exact same wanted List.mem_cons_self
          rw [List.count_cons_of_ne (by simp)]
          refine ih nextConsistent stays ?_ uses keeps.2 later rest
          simp only [step] at stepped
          split at stepped
          · cases stepped
          · cases stepped
            rw [← inside]
            exact Function.update_of_ne differ _ _
      | read other =>
          by_cases here : other = reader
          · subst here
            cases left with
            | nil => simp [step, inside, Reader.resume] at stepped
            | cons slot left =>
                simp only [step, inside, Reader.resume, Option.some_inj] at stepped
                rw [List.count_cons_self, List.drop_succ_cons]
                refine ih nextConsistent stays ?_
                  (fun s inLeft => uses (List.mem_cons_of_mem _ inLeft))
                  keeps.2 later rest
                rw [← stepped, ← consistent.load member (uses List.mem_cons_self)]
                exact Function.update_self ..
          · rw [List.count_cons_of_ne (by simpa using here)]
            refine ih nextConsistent stays ?_ uses keeps.2 later rest
            simp only [step] at stepped
            split at stepped
            · cases stepped
              rw [← inside]
              exact Function.update_of_ne (Ne.symm here) _ _
            · cases stepped

/-- A reader that enters after a key was inserted, and makes its loads before the key's
removal starts, sees no zero. -/
theorem run_settled {calls : List (Call κ)} {earlier between during : List (Event ρ κ)}
    {final : Race ρ κ ι} {reader : ρ} {key : κ} (sound : (replay calls []).isSome)
    (done : run slotsOf (earlier ++ .write (some (.inserted key)) ::
      (between ++ .enter reader key :: during)) (.start calls) = some final)
    (keeps : .write (some (.removing key)) ∉ between ++ during)
    (same : ∀ other, .enter reader other ∉ during) (nonempty : slotsOf key ≠ []) :
    final.readers reader =
      Reader.resume key ((slotsOf key).drop (1 + during.count (.read reader))) := by
  rw [List.append_cons, ← List.append_assoc] at done
  obtain ⟨entering, before, after⟩ := run_append done
  rw [List.mem_append, not_or] at keeps
  have consistent := run_consistent (start_consistent sound) before
  have member : key ∈ settledBy [] (earlier ++ [.write (some (.inserted key))] ++ between) := by
    rw [settledBy, List.foldl_append, List.foldl_append]
    exact mem_settledBy List.mem_cons_self keeps.1
  simp only [run, Option.bind_eq_bind, Option.bind_eq_some_iff] at after
  obtain ⟨inside, entered, rest⟩ := after
  have insideConsistent := step_consistent consistent entered
  obtain ⟨slot, left, uses⟩ := List.exists_cons_of_ne_nil nonempty
  have resumed : inside.readers reader = Reader.resume key left := by
    simp only [step] at entered
    split at entered
    · cases entered
    · cases entered
      rw [← consistent.load member (show slot ∈ slotsOf key by simp [uses]), ← uses]
      exact Function.update_self ..
  rw [uses, Nat.add_comm, List.drop_succ_cons]
  exact run_window insideConsistent member resumed (by simp [uses]) keeps.2 same rest

end FizzDns.FilterRace
