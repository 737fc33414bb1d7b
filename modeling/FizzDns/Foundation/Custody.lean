import Mathlib.Tactic

/-!
# Things in places

A program hands things (buffers, jobs) from one place (a stack, a ring, a thread) to another.
`Custody` says that at some moment each live thing is held in one place, once. It is kept when
things are moved (`Custody.move`), put somewhere for the first time (`Custody.add`) or given
up (`Custody.take`); these rules are all that a step of a program has to be checked against.
-/

namespace FizzDns

variable {ι α : Type}

/-- Each live thing is held in one place, once, and nothing else is held. -/
structure Custody (held : ι → List α) (live : α → Prop) : Prop where
  nodup : ∀ place, (held place).Nodup
  unique : ∀ {here there thing}, thing ∈ held here → thing ∈ held there → here = there
  complete : ∀ thing, live thing ↔ ∃ place, thing ∈ held place

namespace Custody

variable {held held' : ι → List α} {live live' : α → Prop}

/-- What is alive is in one place. -/
theorem existsUnique (custody : Custody held live) {thing : α} (alive : live thing) :
    ∃! place, thing ∈ held place := by
  obtain ⟨place, member⟩ := (custody.complete thing).mp alive
  exact ⟨place, member, fun other also => custody.unique also member⟩

/-- What is in a place is alive. -/
theorem live_of_mem (custody : Custody held live) (place : ι) {thing : α}
    (member : thing ∈ held place) : live thing :=
  (custody.complete thing).mpr ⟨place, member⟩

/-- What two places hold is different. -/
theorem nodup_append (custody : Custody held live) {here there : ι} (apart : here ≠ there) :
    (held here ++ held there).Nodup := by
  refine List.nodup_append.mpr ⟨custody.nodup here, custody.nodup there, ?_⟩
  rintro thing first _ second rfl
  exact apart (custody.unique first second)

/-- Two places cannot hold more than there is. -/
theorem length_add_le (custody : Custody held live) {all : List α}
    (within : ∀ thing, live thing → thing ∈ all) {here there : ι} (apart : here ≠ there) :
    (held here).length + (held there).length ≤ all.length := by
  rw [← List.length_append]
  refine ((custody.nodup_append apart).subperm fun thing member => within thing ?_).length_le
  rcases List.mem_append.mp member with first | second
  · exact custody.live_of_mem here first
  · exact custody.live_of_mem there second

/-- The order in which a place holds its things does not matter. -/
theorem reorder (custody : Custody held live) (same : ∀ place, (held' place).Perm (held place)) :
    Custody held' live where
  nodup place := (same place).nodup_iff.mpr (custody.nodup place)
  unique first second :=
    custody.unique ((same _).mem_iff.mp first) ((same _).mem_iff.mp second)
  complete thing := by simp only [(same _).mem_iff, custody.complete thing]

/-- Things that one place gives up are live no longer. -/
theorem take (custody : Custody held live) (source : ι) (things : List α)
    (taken : (held source).Perm (things ++ held' source))
    (others : ∀ place, place ≠ source → held' place = held place)
    (left : ∀ thing, live' thing ↔ live thing ∧ thing ∉ things) : Custody held' live' := by
  have separate := taken.nodup_iff.mp (custody.nodup source)
  rw [List.nodup_append] at separate
  obtain ⟨_, rest, disjoint⟩ := separate
  have mem_iff : ∀ place thing, thing ∈ held' place ↔ thing ∈ held place ∧ thing ∉ things := by
    intro place thing
    by_cases here : place = source
    · subst here
      rw [taken.mem_iff, List.mem_append]
      constructor
      · exact fun member => ⟨Or.inr member, fun gone => disjoint thing gone thing member rfl⟩
      · exact fun ⟨member, kept⟩ => member.resolve_left kept
    · rw [others place here]
      refine ⟨fun member => ⟨member, fun gone => here ?_⟩, And.left⟩
      exact custody.unique member (taken.mem_iff.mpr (List.mem_append_left _ gone))
  refine ⟨fun place => ?_, fun first second => ?_, fun thing => ?_⟩
  · by_cases here : place = source
    · exact here ▸ rest
    · rw [others place here]
      exact custody.nodup place
  · exact custody.unique ((mem_iff _ _).mp first).1 ((mem_iff _ _).mp second).1
  · simp only [left, custody.complete, mem_iff, exists_and_right]

/-- Things that were not live are put in a place. -/
theorem add (custody : Custody held live) (target : ι) (things : List α) (fresh : things.Nodup)
    (dead : ∀ thing ∈ things, ¬ live thing)
    (given : (held' target).Perm (things ++ held target))
    (others : ∀ place, place ≠ target → held' place = held place)
    (joined : ∀ thing, live' thing ↔ live thing ∨ thing ∈ things) : Custody held' live' := by
  have mem_iff : ∀ place thing,
      thing ∈ held' place ↔ thing ∈ held place ∨ place = target ∧ thing ∈ things := by
    intro place thing
    by_cases here : place = target
    · subst here
      rw [given.mem_iff, List.mem_append, or_comm]
      simp
    · simp [others place here, here]
  refine ⟨fun place => ?_, ?_, fun thing => ?_⟩
  · by_cases here : place = target
    · subst here
      refine given.nodup_iff.mpr (List.nodup_append.mpr ⟨fresh, custody.nodup place, ?_⟩)
      rintro thing new _ old rfl
      exact dead thing new (custody.live_of_mem _ old)
    · rw [others place here]
      exact custody.nodup place
  · intro here there thing first second
    rcases (mem_iff here thing).mp first with old | ⟨rfl, new⟩
    · rcases (mem_iff there thing).mp second with also | ⟨_, new⟩
      · exact custody.unique old also
      · exact absurd (custody.live_of_mem _ old) (dead thing new)
    · rcases (mem_iff there thing).mp second with old | ⟨rfl, _⟩
      · exact absurd (custody.live_of_mem _ old) (dead thing new)
      · rfl
  · simp only [joined, custody.complete, mem_iff, exists_or, exists_eq_left]

open Classical in
/-- Things are moved from one place to another. -/
theorem move (custody : Custody held live) (source target : ι) (things : List α)
    (apart : source ≠ target)
    (taken : (held source).Perm (things ++ held' source))
    (given : (held' target).Perm (things ++ held target))
    (others : ∀ place, place ≠ source → place ≠ target → held' place = held place) :
    Custody held' live := by
  -- between the two steps the things are nowhere
  let between : ι → List α := fun place => if place = source then held' source else held place
  have gone : Custody between fun thing => live thing ∧ thing ∉ things := by
    have left : (held source).Perm (things ++ between source) := by
      simpa [between] using taken
    exact custody.take source things left (fun place away => if_neg away) fun _ => Iff.rfl
  have arrived : (held' target).Perm (things ++ between target) := by
    simpa [between, apart.symm] using given
  have separate := taken.nodup_iff.mp (custody.nodup source)
  refine gone.add target things (List.nodup_append.mp separate).1
    (fun _ member alive => alive.2 member) arrived ?_ ?_
  · intro place away
    by_cases here : place = source
    · simp [between, here]
    · simp [between, here, others place here away]
  · intro thing
    constructor
    · intro alive
      by_cases member : thing ∈ things
      · exact Or.inr member
      · exact Or.inl ⟨alive, member⟩
    · rintro (alive | member)
      · exact alive.1
      · exact custody.live_of_mem source (taken.mem_iff.mpr (List.mem_append_left _ member))

end Custody

end FizzDns
