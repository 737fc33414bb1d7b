import FizzDns.Foundation.Bytes

/-!
# Checked accesses

A computation that reads a message and writes buffers by index, with every access tested: a read
at or behind the end of the message and a store at or behind the end of a buffer are faults, and
so is a loop that has not ended when its fuel is used up. A program written this way that is
equal to a value makes none of them.
-/

namespace FizzDns

/-- What can go wrong: a read or a store at an index that is outside, or a loop without an end. -/
inductive Fault where
  | read (index : Nat)
  | store (index : Nat)
  | endless
  deriving DecidableEq

/-- A computation with checked accesses. -/
abbrev Checked := Except Fault

theorem Checked.ok_bind {α β : Type} (value : α) (next : α → Checked β) :
    ((Except.ok value : Checked α) >>= next) = next value := rfl

theorem Checked.pure_bind {α β : Type} (value : α) (next : α → Checked β) :
    ((pure value : Checked α) >>= next) = next value := rfl

/-- A test with the same outcome on both sides. -/
theorem Checked.branch {α : Type} {condition : Prop} [Decidable condition]
    {left right : Checked α} {plainLeft plainRight : α}
    (met : condition → left = .ok plainLeft) (failed : ¬ condition → right = .ok plainRight) :
    (if condition then left else right) = .ok (if condition then plainLeft else plainRight) := by
  split
  · exact met ‹_›
  · exact failed ‹_›

/-- A test that leads to -1 on both sides. -/
theorem Checked.guard {α : Type} {condition : Prop} [Decidable condition]
    {checked : Checked (Option α)} {plain : Option α}
    (same : ¬ condition → checked = .ok plain) :
    (if condition then pure none else checked) = .ok (if condition then none else plain) :=
  Checked.branch (fun _ => rfl) same

/-- Read a byte of a message of `len` bytes. -/
def readByte (msg : Bytes) (len index : Nat) : Checked UInt8 :=
  if index < len then .ok (byteAt msg index) else .error (.read index)

/-- Read a 16-bit word. -/
def readWord16 (msg : Bytes) (len off : Nat) : Checked UInt16 := do
  let high ← readByte msg len off
  let low ← readByte msg len (off + 1)
  pure (UInt16.ofNat (high.toNat * 256 + low.toNat))

/-- Read a 32-bit word. -/
def readWord32 (msg : Bytes) (len off : Nat) : Checked UInt32 := do
  let first ← readByte msg len off
  let second ← readByte msg len (off + 1)
  let third ← readByte msg len (off + 2)
  let fourth ← readByte msg len (off + 3)
  pure (UInt32.ofNat
    (((first.toNat * 256 + second.toNat) * 256 + third.toNat) * 256 + fourth.toNat))

/-- Copy a block of `count` bytes out of a message. -/
def readBlock (msg : Bytes) (len off count : Nat) : Checked (Fin count → UInt8) :=
  if off + count ≤ len then .ok fun index => byteAt msg (off + index)
  else .error (.read (off + count))

/-- Copy `count` bytes out of a message to a buffer of its own. -/
def readBytes (msg : Bytes) (len off count : Nat) : Checked Bytes :=
  if off + count ≤ len then .ok (slice msg off count) else .error (.read (off + count))

/-- Store at an index of a buffer with `cap` places. -/
def storeAt (cap index : Nat) : Checked Unit :=
  if index < cap then .ok () else .error (.store index)

/-- Store behind what a buffer with `cap` places holds. -/
def push {α : Type} (cap : Nat) (buffer : List α) (item : α) : Checked (List α) := do
  storeAt cap buffer.length
  pure (buffer ++ [item])

variable {msg : Bytes} {len : Nat}

/-- A byte inside the message is read. -/
theorem readByte_eq {index : Nat} (inside : index < len) :
    readByte msg len index = .ok (byteAt msg index) :=
  if_pos inside

theorem readWord16_eq {off : Nat} (inside : off + 2 ≤ len) :
    readWord16 msg len off = .ok (rd16 msg off) := by
  rw [readWord16, readByte_eq (by omega), Checked.ok_bind, readByte_eq (by omega)]
  rfl

theorem readWord32_eq {off : Nat} (inside : off + 4 ≤ len) :
    readWord32 msg len off = .ok (rd32 msg off) := by
  rw [readWord32, readByte_eq (by omega), Checked.ok_bind, readByte_eq (by omega),
    Checked.ok_bind, readByte_eq (by omega), Checked.ok_bind, readByte_eq (by omega)]
  rfl

/-- A block inside the message is read. -/
theorem readBlock_eq {off count : Nat} (inside : off + count ≤ len) :
    readBlock msg len off count = .ok fun index => byteAt msg (off + index) :=
  if_pos inside

/-- The bytes of a range inside the message are read. -/
theorem readBytes_eq {off count : Nat} (inside : off + count ≤ len) :
    readBytes msg len off count = .ok (slice msg off count) :=
  if_pos inside

/-- A store inside the buffer succeeds. -/
theorem storeAt_eq {cap index : Nat} (inside : index < cap) : storeAt cap index = .ok () :=
  if_pos inside

/-- There is room for one more item. -/
theorem push_eq {α : Type} {cap : Nat} {buffer : List α} (room : buffer.length < cap) (item : α) :
    push cap buffer item = .ok (buffer ++ [item]) := by
  rw [push, storeAt_eq room]
  rfl

end FizzDns
