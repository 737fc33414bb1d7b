import Mathlib.Data.Nat.Basic

/-!
# Charges

How far a computation may change a state at a given cost. Costs add up along a computation,
and more may always be charged than is needed. A charge can bound a quantity (`Charge.measure`)
or carry an invariant at no cost (`Charge.keeps`), so that one proof about a program serves for
both.

`Nesting` counts the calls of a recursive function that are open. A charge with a bound on the
nesting (`Charge.nested`) leaves room for one more call around whatever it bounds.
-/

namespace FizzDns

/-- What a state may become at some cost. -/
structure Charge (σ : Type) where
  spends : Nat → σ → σ → Prop
  refl : ∀ s, spends 0 s s
  trans : ∀ {m n s t u}, spends m s t → spends n t u → spends (m + n) s u
  mono : ∀ {m n s t}, m ≤ n → spends m s t → spends n s t

namespace Charge

variable {σ α : Type}

/-- A quantity grows by no more than is spent. -/
def measure (size : σ → Nat) : Charge σ where
  spends n s t := size t ≤ size s + n
  refl _ := Nat.le_refl _
  trans first second := by omega
  mono more spent := by omega

/-- A property is kept, at no cost. -/
def keeps (holds : σ → Prop) : Charge σ where
  spends _ s t := holds s → holds t
  refl _ := id
  trans first second := second ∘ first
  mono _ kept := kept

/-- Every result of a computation is reached within the cost. -/
def Bounds (charge : Charge σ) (n : Nat) (run : σ → α × σ) : Prop :=
  ∀ s, charge.spends n s (run s).2

/-- Nothing is spent by staying. -/
theorem stay (charge : Charge σ) (n : Nat) (s : σ) : charge.spends n s s :=
  charge.mono (Nat.zero_le n) (charge.refl s)

end Charge

/-- How many calls are open, and how many have been open at one time. -/
structure Nesting where
  active : Nat
  peak : Nat

namespace Nesting

/-- No call yet. -/
def none : Nesting := ⟨0, 0⟩

/-- One more call is open. -/
def enter (nesting : Nesting) : Nesting :=
  ⟨nesting.active + 1, max nesting.peak (nesting.active + 1)⟩

/-- The innermost call has returned. -/
def leave (nesting : Nesting) : Nesting :=
  ⟨nesting.active - 1, nesting.peak⟩

variable {σ α : Type}

/-- Count a call. -/
def call (body : σ × Nesting → α × σ × Nesting) (s : σ × Nesting) : α × σ × Nesting :=
  let done := body (s.1, s.2.enter)
  (done.1, done.2.1, done.2.2.leave)

end Nesting

namespace Charge

variable {σ α : Type}

/-- A charge under which, in addition, no call is left open and at most `room` are open at a
time inside. -/
def nested (charge : Charge σ) (room : Nat) : Charge (σ × Nesting) where
  spends n s t := charge.spends n s.1 t.1 ∧ t.2.active = s.2.active ∧
    t.2.peak ≤ max s.2.peak (s.2.active + room)
  refl s := ⟨charge.refl s.1, rfl, Nat.le_max_left _ _⟩
  trans first second := by
    obtain ⟨spent, active, peak⟩ := first
    obtain ⟨more, active', peak'⟩ := second
    refine ⟨charge.trans spent more, active'.trans active, ?_⟩
    rw [active] at peak'
    omega
  mono more spent := ⟨charge.mono more spent.1, spent.2⟩

/-- What can be spent with some room can be spent with more. -/
theorem nested_mono {charge : Charge σ} {room larger : Nat} (fits : room ≤ larger) {n : Nat}
    {s t : σ × Nesting} (spent : (charge.nested room).spends n s t) :
    (charge.nested larger).spends n s t := by
  obtain ⟨cost, active, peak⟩ := spent
  refine ⟨cost, active, ?_⟩
  omega

/-- A call costs what its body costs, and takes one place more. -/
theorem Bounds.call {charge : Charge σ} {room n : Nat} {body : σ × Nesting → α × σ × Nesting}
    (bounds : (charge.nested room).Bounds n body) :
    (charge.nested (room + 1)).Bounds n (Nesting.call body) := by
  intro s
  obtain ⟨cost, active, peak⟩ := bounds (s.1, s.2.enter)
  simp only [Nesting.enter] at active peak
  refine ⟨cost, ?_, ?_⟩
  · simp only [Nesting.call, Nesting.leave, Nesting.enter, active, Nat.add_sub_cancel]
  · simp only [Nesting.call, Nesting.leave, Nesting.enter]
    omega

end Charge

end FizzDns
