import Mathlib.Data.Finset.Insert
import Mathlib.Tactic

/-!
# Programs that acquire and release

A program takes resources from its environment and has to give each of them back once. Some rest on
others: while one is held, what it rests on must be held too. A program that breaks these rules has
no result. The calls that it makes may fail, in any pattern: their return values are a list that is
used up.

`Wp` is the weakest precondition of a program. A program that has one ends, breaks no rule, and
leaves a state as described. Resources that rest on each other are mostly taken one above the other
and given back from the top; that every step of this keeps the rules, follows from the order alone
(`Stacks`).
-/

namespace FizzDns.Ledger

variable {ρ σ α β : Type}

/-- What is held, what the calls to come return, and the variables of the program. -/
structure Books (ρ σ : Type) where
  held : Finset ρ
  outcomes : List Int
  vars : σ

/-- A program over resources and variables. -/
abbrev Program (ρ σ : Type) := StateT (Books ρ σ) Option

/-- The return value of the next call. -/
def attempt : Program ρ σ Int := fun s =>
  some (s.outcomes.headD 0, { s with outcomes := s.outcomes.tail })

/-- Read the variables. -/
def vars : Program ρ σ σ := fun s => some (s.vars, s)

/-- Assign to the variables. -/
def assign (change : σ → σ) : Program ρ σ Unit := fun s =>
  some ((), { s with vars := change s.vars })

section Resources

variable [DecidableEq ρ]

/-- Use a resource. -/
def need (resource : ρ) : Program ρ σ Unit := fun s =>
  if resource ∈ s.held then some ((), s) else none

/-- Take a resource, over all that it rests on. -/
def acquire (bases : ρ → List ρ) (resource : ρ) : Program ρ σ Unit := fun s =>
  if resource ∉ s.held ∧ ∀ base ∈ bases resource, base ∈ s.held then
    some ((), { s with held := insert resource s.held })
  else none

/-- Give a resource back. Nothing that is held may rest on it. -/
def release (bases : ρ → List ρ) (resource : ρ) : Program ρ σ Unit := fun s =>
  if resource ∈ s.held ∧ ∀ other ∈ s.held, resource ∉ bases other then
    some ((), { s with held := s.held.erase resource })
  else none

/-- A call that takes a resource if it returns 0. -/
def tryAcquire (bases : ρ → List ρ) (resource : ρ) : Program ρ σ Int := do
  let code ← attempt
  if code = 0 then
    acquire bases resource
    pure code
  else pure code

end Resources

/-- A loop over the numbers from `i` on that a false result ends; how far it came. -/
def upTo (body : Nat → Program ρ σ Bool) : (left i : Nat) → Program ρ σ Nat
  | 0, i => pure i
  | left + 1, i => do
      if ← body i then upTo body left (i + 1) else pure i

/-- A loop over the numbers from `i` on. -/
def forEach (body : Nat → Program ρ σ Unit) : (left i : Nat) → Program ρ σ Unit
  | 0, _ => pure ()
  | left + 1, i => do
      body i
      forEach body left (i + 1)

/-- The program ends without breaking a rule, and with a result and a state as described. -/
def Wp (program : Program ρ σ α) (post : α → Books ρ σ → Prop) (s : Books ρ σ) : Prop :=
  ∃ result, program s = some result ∧ post result.1 result.2

variable {s : Books ρ σ} {post : α → Books ρ σ → Prop}

/-- The rule of consequence. -/
theorem Wp.mono {program : Program ρ σ α} {weaker : α → Books ρ σ → Prop}
    (wp : Wp program post s) (imp : ∀ result s, post result s → weaker result s) :
    Wp program weaker s := by
  obtain ⟨result, ran, holds⟩ := wp
  exact ⟨result, ran, imp _ _ holds⟩

/-- The rule for a program that is done. -/
@[simp] theorem wp_pure {value : α} : Wp (pure value) post s ↔ post value s := by
  constructor
  · rintro ⟨result, ran, holds⟩
    obtain rfl : (value, s) = result := Option.some.inj ran
    exact holds
  · intro holds
    exact ⟨(value, s), rfl, holds⟩

/-- The rule for two programs in sequence. -/
@[simp] theorem wp_bind {program : Program ρ σ β} {next : β → Program ρ σ α} :
    Wp (program >>= next) post s ↔ Wp program (fun value s => Wp (next value) post s) s := by
  simp only [Wp, bind, StateT.bind, Option.bind_eq_some_iff]
  constructor
  · rintro ⟨result, ⟨⟨value, middle⟩, first, second⟩, holds⟩
    exact ⟨(value, middle), first, result, second, holds⟩
  · rintro ⟨⟨value, middle⟩, first, result, second, holds⟩
    exact ⟨result, ⟨(value, middle), first, second⟩, holds⟩

/-- The rule for a conditional. -/
@[simp] theorem wp_ite {condition : Prop} [Decidable condition] {yes no : Program ρ σ α} :
    Wp (if condition then yes else no) post s ↔
      (condition → Wp yes post s) ∧ (¬ condition → Wp no post s) := by
  by_cases holds : condition
  · simp [holds]
  · simp [holds]

@[simp] theorem wp_vars {post : σ → Books ρ σ → Prop} : Wp vars post s ↔ post s.vars s := by
  simp [Wp, vars]

@[simp] theorem wp_assign {change : σ → σ} {post : Unit → Books ρ σ → Prop} :
    Wp (assign change) post s ↔ post () { s with vars := change s.vars } := by
  simp [Wp, assign]

/-- A call may return anything. -/
theorem wp_attempt {post : Int → Books ρ σ → Prop}
    (all : ∀ code outcomes, post code { s with outcomes := outcomes }) : Wp attempt post s :=
  ⟨_, rfl, all _ _⟩

section Resources

variable [DecidableEq ρ] {bases : ρ → List ρ} {resource : ρ}

omit [DecidableEq ρ] in
/-- A step with a rule that it may break. -/
theorem wp_of_rule {program : Program ρ σ α} {rule : Prop} [Decidable rule] {value : α}
    {next : Books ρ σ} (steps : program s = if rule then some (value, next) else none) :
    Wp program post s ↔ rule ∧ post value next := by
  unfold Wp
  rw [steps]
  by_cases kept : rule
  · simp [kept]
  · simp [kept]

/-- The rule for a use: the resource is held. -/
@[simp] theorem wp_need {post : Unit → Books ρ σ → Prop} :
    Wp (need resource) post s ↔ resource ∈ s.held ∧ post () s :=
  wp_of_rule rfl

/-- The rule for taking a resource: it is not held yet, and what it rests on is. -/
@[simp] theorem wp_acquire {post : Unit → Books ρ σ → Prop} :
    Wp (acquire bases resource) post s ↔
      (resource ∉ s.held ∧ ∀ base ∈ bases resource, base ∈ s.held) ∧
        post () { s with held := insert resource s.held } :=
  wp_of_rule rfl

/-- The rule for giving back: the resource is held, and nothing rests on it any more. -/
@[simp] theorem wp_release {post : Unit → Books ρ σ → Prop} :
    Wp (release bases resource) post s ↔
      (resource ∈ s.held ∧ ∀ other ∈ s.held, resource ∉ bases other) ∧
        post () { s with held := s.held.erase resource } :=
  wp_of_rule rfl

/-- A call that may take a resource: it takes it, or it fails. -/
theorem wp_tryAcquire {post : Int → Books ρ σ → Prop}
    (able : resource ∉ s.held ∧ ∀ base ∈ bases resource, base ∈ s.held)
    (took : ∀ outcomes, post 0 { s with
      held := insert resource s.held, outcomes := outcomes })
    (failed : ∀ code outcomes, code ≠ 0 → post code { s with outcomes := outcomes }) :
    Wp (tryAcquire bases resource) post s := by
  unfold tryAcquire
  rw [wp_bind]
  refine wp_attempt fun code outcomes => ?_
  rw [wp_ite, wp_bind, wp_acquire, wp_pure, wp_pure]
  refine ⟨?_, failed code outcomes⟩
  rintro rfl
  exact ⟨able, took outcomes⟩

end Resources

/-! ## Stacks of resources -/

section Stacks

variable [DecidableEq ρ] {bases : ρ → List ρ} {below : Finset ρ} {top : ρ} {stack : List ρ}

/-- Resources one above the other, over others. -/
def pile (below : Finset ρ) : List ρ → Finset ρ
  | [] => below
  | top :: stack => insert top (pile below stack)

/-- Every resource may be put on those under it, and taken from there. -/
inductive Stacks (bases : ρ → List ρ) (below : Finset ρ) : List ρ → Prop where
  | nil : Stacks bases below []
  | cons {top : ρ} {stack : List ρ} (fresh : top ∉ pile below stack)
      (carried : ∀ base ∈ bases top, base ∈ pile below stack)
      (free : ∀ other ∈ pile below stack, top ∉ bases other) (rest : Stacks bases below stack) :
      Stacks bases below (top :: stack)

/-- What is held with a stack on top. -/
theorem mem_pile {resource : ρ} :
    resource ∈ pile below stack ↔ resource ∈ below ∨ resource ∈ stack := by
  induction stack with
  | nil => simp [pile]
  | cons top stack ih =>
      rw [pile, Finset.mem_insert, ih, List.mem_cons]
      tauto

/-- A part of what is held, over the rest. -/
theorem pile_sdiff {held : Finset ρ} (within : ∀ resource ∈ stack, resource ∈ held) :
    pile (held \ stack.toFinset) stack = held := by
  ext resource
  rw [mem_pile, Finset.mem_sdiff, List.mem_toFinset]
  constructor
  · rintro (⟨inside, _⟩ | listed)
    · exact inside
    · exact within resource listed
  · intro inside
    by_cases listed : resource ∈ stack
    · exact .inr listed
    · exact .inl ⟨inside, listed⟩

/-- A stack stays one when its top is gone. -/
theorem Stacks.tail (legal : Stacks bases below (top :: stack)) : Stacks bases below stack := by
  cases legal with
  | cons _ _ _ rest => exact rest

/-- A call that may put a resource on top. -/
theorem wp_tryPush {post : Int → Books ρ σ → Prop} (legal : Stacks bases below (top :: stack))
    (held : s.held = pile below stack)
    (took : ∀ outcomes, post 0 { s with held := pile below (top :: stack), outcomes := outcomes })
    (failed : ∀ code outcomes, code ≠ 0 → post code { s with outcomes := outcomes }) :
    Wp (tryAcquire bases top) post s := by
  cases legal with
  | cons fresh carried _ _ =>
      refine wp_tryAcquire ?_ ?_ failed
      · rw [held]
        exact ⟨fresh, carried⟩
      · rw [held]
        exact took

/-- The resource on top is given back. -/
theorem wp_pop {post : Unit → Books ρ σ → Prop} (legal : Stacks bases below (top :: stack))
    (held : s.held = pile below (top :: stack))
    (after : post () { s with held := pile below stack }) : Wp (release bases top) post s := by
  cases legal with
  | cons fresh carried free _ =>
      have lone : top ∉ bases top := fun own => fresh (carried top own)
      rw [wp_release, held, pile, Finset.erase_insert fresh]
      refine ⟨⟨Finset.mem_insert_self _ _, fun other member => ?_⟩, after⟩
      rcases Finset.mem_insert.mp member with rfl | inside
      · exact lone
      · exact free other inside

end Stacks

/-! ## Loops -/

variable {invariant : Nat → Books ρ σ → Prop}

/-- The rule for a loop that may stop early: an invariant of the turns that went on, and what holds
where it stopped. -/
theorem wp_upTo {body : Nat → Program ρ σ Bool} {stopped : Nat → Books ρ σ → Prop} {left i : Nat}
    (step : ∀ j s, i ≤ j → j < i + left → invariant j s →
      Wp (body j) (fun goes s => if goes then invariant (j + 1) s else stopped j s) s)
    (before : invariant i s) :
    Wp (upTo body left i) (fun reached s =>
      reached = i + left ∧ invariant reached s ∨ i ≤ reached ∧ reached < i + left ∧
        stopped reached s) s := by
  induction left generalizing i s with
  | zero =>
      rw [upTo, wp_pure]
      exact .inl ⟨rfl, before⟩
  | succ left ih =>
      rw [upTo, wp_bind]
      refine (step i s (Nat.le_refl _) (by omega) before).mono ?_
      intro goes s after
      rw [wp_ite]
      refine ⟨fun goesOn => ?_, fun stops => ?_⟩
      · rw [if_pos goesOn] at after
        have rest := ih (fun j s low high => step j s (by omega) (by omega)) after
        refine rest.mono fun reached s ended => ?_
        rcases ended with ⟨all, holds⟩ | ⟨low, high, holds⟩
        · exact .inl ⟨by omega, holds⟩
        · exact .inr ⟨by omega, by omega, holds⟩
      · rw [if_neg stops] at after
        rw [wp_pure]
        exact .inr ⟨Nat.le_refl _, by omega, after⟩

/-- The rule for a loop over numbers, by an invariant. -/
theorem wp_forEach {body : Nat → Program ρ σ Unit} {left i : Nat}
    (step : ∀ j s, i ≤ j → j < i + left → invariant j s →
      Wp (body j) (fun _ s => invariant (j + 1) s) s)
    (before : invariant i s) :
    Wp (forEach body left i) (fun _ s => invariant (i + left) s) s := by
  induction left generalizing i s with
  | zero =>
      rw [forEach, wp_pure]
      exact before
  | succ left ih =>
      rw [forEach, wp_bind]
      refine (step i s (Nat.le_refl _) (by omega) before).mono ?_
      intro _ s after
      have rest := ih (fun j s low high => step j s (by omega) (by omega)) after
      rwa [show i + (left + 1) = i + 1 + left by omega]

/-! ## Numbered resources -/

section Numbered

variable [DecidableEq ρ] {bases : ρ → List ρ} {numbered : Nat → ρ} {below : Finset ρ} {count : Nat}

/-- A call that may take one of several numbered resources: whether it has. -/
def tryNumbered (bases : ρ → List ρ) (numbered : Nat → ρ) (i : Nat) : Program ρ σ Bool := do
  let code ← tryAcquire bases (numbered i)
  pure (decide (code = 0))

/-- The resources with the numbers from `low` to `high`, over others. -/
def row (below : Finset ρ) (numbered : Nat → ρ) (low high : Nat) : Finset ρ :=
  below ∪ (Finset.Ico low high).image numbered

/-- What is held with a row of numbered resources. -/
theorem mem_row {resource : ρ} {low high : Nat} :
    resource ∈ row below numbered low high ↔
      resource ∈ below ∨ ∃ i, (low ≤ i ∧ i < high) ∧ numbered i = resource := by
  simp only [row, Finset.mem_union, Finset.mem_image, Finset.mem_Ico]

@[simp] theorem row_self (low : Nat) : row below numbered low low = below := by
  simp [row]

/-- A row grows at its end. -/
theorem row_succ {low high : Nat} (le : low ≤ high) :
    insert (numbered high) (row below numbered low high) =
      row below numbered low (high + 1) := by
  rw [row, row, Nat.Ico_succ_right_eq_insert_Ico le, Finset.image_insert, Finset.union_insert]

/-- A row shrinks at its beginning. -/
theorem row_erase (injective : Function.Injective numbered) (fresh : ∀ i, numbered i ∉ below)
    {low high : Nat} :
    (row below numbered low high).erase (numbered low) = row below numbered (low + 1) high := by
  ext resource
  rw [Finset.mem_erase, mem_row, mem_row]
  constructor
  · rintro ⟨differ, inside | ⟨i, bounds, rfl⟩⟩
    · exact .inl inside
    · have apart : i ≠ low := fun same => differ (same ▸ rfl)
      exact .inr ⟨i, by omega, rfl⟩
  · rintro (inside | ⟨i, bounds, rfl⟩)
    · exact ⟨fun same => fresh low (same ▸ inside), .inl inside⟩
    · refine ⟨fun same => ?_, .inr ⟨i, by omega, rfl⟩⟩
      have := injective same
      omega

/-- Numbered resources are taken until a call fails. They rest on others only. -/
theorem wp_takeRow {post : Nat → Books ρ σ → Prop} (injective : Function.Injective numbered)
    (fresh : ∀ i, numbered i ∉ s.held)
    (carried : ∀ i < count, ∀ base ∈ bases (numbered i), base ∈ s.held)
    (took : ∀ reached outcomes, reached ≤ count → post reached
      { s with held := row s.held numbered 0 reached, outcomes := outcomes }) :
    Wp (upTo (tryNumbered bases numbered) count 0) post s := by
  have step : ∀ j (now : Books ρ σ), 0 ≤ j → j < 0 + count →
      (∃ outcomes, now = { s with held := row s.held numbered 0 j, outcomes := outcomes }) →
      Wp (tryNumbered bases numbered j) (fun goes now => if goes then
        ∃ outcomes, now = { s with held := row s.held numbered 0 (j + 1), outcomes := outcomes }
      else
        ∃ outcomes, now = { s with held := row s.held numbered 0 j, outcomes := outcomes })
      now := by
    rintro j _ _ below ⟨outcomes, rfl⟩
    unfold tryNumbered
    rw [wp_bind]
    refine wp_tryAcquire ⟨?_, ?_⟩ (fun outcomes => ?_) (fun code outcomes bad => ?_)
    · rw [mem_row]
      rintro (inside | ⟨i, bounds, same⟩)
      · exact fresh j inside
      · have := injective same
        omega
    · exact fun base member => mem_row.mpr (.inl (carried j (by omega) base member))
    · rw [wp_pure, row_succ (Nat.zero_le j)]
      exact ⟨outcomes, rfl⟩
    · rw [wp_pure, decide_eq_false bad]
      exact ⟨outcomes, rfl⟩
  refine (wp_upTo step ⟨s.outcomes, by rw [row_self]⟩).mono ?_
  rintro reached now (⟨all, outcomes, rfl⟩ | ⟨_, within, outcomes, rfl⟩)
  · exact took reached outcomes (by omega)
  · exact took reached outcomes (by omega)

/-- Numbered resources are given back, the first one first. Nothing rests on them. -/
theorem wp_giveRow {post : Unit → Books ρ σ → Prop} (injective : Function.Injective numbered)
    (fresh : ∀ i, numbered i ∉ below) (held : s.held = row below numbered 0 count)
    (free : ∀ i, ∀ other ∈ s.held, numbered i ∉ bases other)
    (after : post () { s with held := below }) :
    Wp (forEach (fun i => release bases (numbered i)) count 0) post s := by
  have step : ∀ j (now : Books ρ σ), 0 ≤ j → j < 0 + count →
      now = { s with held := row below numbered j count } →
      Wp (release bases (numbered j))
        (fun _ now => now = { s with held := row below numbered (j + 1) count }) now := by
    rintro j _ _ within rfl
    rw [wp_release, row_erase injective fresh]
    refine ⟨⟨mem_row.mpr (.inr ⟨j, by omega, rfl⟩), fun other member => ?_⟩, rfl⟩
    refine free j other ?_
    rw [held]
    rcases mem_row.mp member with inside | ⟨i, bounds, same⟩
    · exact mem_row.mpr (.inl inside)
    · exact mem_row.mpr (.inr ⟨i, by omega, same⟩)
  refine (wp_forEach step (by rw [← held])).mono ?_
  rintro _ now rfl
  rw [Nat.zero_add, row_self]
  exact after

end Numbered

end FizzDns.Ledger
