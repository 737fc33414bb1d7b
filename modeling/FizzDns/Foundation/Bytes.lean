import Mathlib.Tactic

/-!
# Byte strings and machine words

A buffer is a list of bytes read by index. Words cross the wire most significant
byte first; `rd16` and `rd32` read them out of a buffer, `wr16` and `wr32` give
the bytes that a store leaves there, and the two are inverse wherever the bytes
sit (`rd16_wr16`, `rd32_wr32`). Sizes are natural numbers; only their subtraction can
wrap, and it is written out where it matters (`sizeSub`).
-/

namespace FizzDns

/-- The contents of a byte buffer. -/
abbrev Bytes := List UInt8

/-- The byte at an index. Callers test the index against the length first; past
the end the value is not meaningful. -/
def byteAt (buffer : Bytes) (index : Nat) : UInt8 :=
  buffer.getD index 0

/-- Reading behind a first part. -/
theorem byteAt_append_right (before after : Bytes) (index : Nat) :
    byteAt (before ++ after) (before.length + index) = byteAt after index := by
  simp only [byteAt, List.getD_eq_getElem?_getD]
  rw [List.getElem?_append_right (Nat.le_add_right _ _), Nat.add_sub_cancel_left]

/-- Reading inside a first part. -/
theorem byteAt_append_left {before : Bytes} {index : Nat} (inside : index < before.length)
    (after : Bytes) : byteAt (before ++ after) index = byteAt before index := by
  simp only [byteAt, List.getD_eq_getElem?_getD]
  rw [List.getElem?_append_left inside]

@[simp] theorem byteAt_cons_zero (head : UInt8) (tail : Bytes) : byteAt (head :: tail) 0 = head :=
  rfl

@[simp] theorem byteAt_cons_succ (head : UInt8) (tail : Bytes) (index : Nat) :
    byteAt (head :: tail) (index + 1) = byteAt tail index := by
  simp [byteAt]

/-- The bytes of a buffer from an offset on, at most `count` of them. -/
def slice (buffer : Bytes) (offset count : Nat) : Bytes :=
  (buffer.drop offset).take count

/-- Cutting behind a first part. -/
theorem slice_append_right (before after : Bytes) (index count : Nat) :
    slice (before ++ after) (before.length + index) count = slice after index count := by
  simp only [slice]
  rw [List.drop_append, List.drop_eq_nil_of_le (Nat.le_add_right _ _), List.nil_append,
    Nat.add_sub_cancel_left]

/-- Cutting off a first part. -/
theorem slice_append_left (payload after : Bytes) :
    slice (payload ++ after) 0 payload.length = payload := by
  simp [slice]

/-- A cut is cut in two. -/
theorem slice_add (buffer : Bytes) (offset first second : Nat) :
    slice buffer offset (first + second) =
      slice buffer offset first ++ slice buffer (offset + first) second := by
  simp only [slice, List.take_add, List.drop_drop]

theorem slice_one {buffer : Bytes} {offset : Nat} (inside : offset < buffer.length) :
    slice buffer offset 1 = [byteAt buffer offset] := by
  rw [slice, List.drop_eq_getElem_cons inside, List.take_succ_cons, List.take_zero]
  simp [byteAt, List.getD_eq_getElem?_getD, List.getElem?_eq_getElem inside]

/-- A cut inside the buffer has the length asked for. -/
theorem length_slice {buffer : Bytes} {offset count : Nat}
    (inside : offset + count ≤ buffer.length) :
    (slice buffer offset count).length = count := by
  simp only [slice, List.length_take, List.length_drop]
  omega

/-- The 16-bit word at an offset, most significant byte first. -/
def rd16 (buffer : Bytes) (offset : Nat) : UInt16 :=
  UInt16.ofNat ((byteAt buffer offset).toNat * 256 + (byteAt buffer (offset + 1)).toNat)

/-- The 32-bit word at an offset, most significant byte first. -/
def rd32 (buffer : Bytes) (offset : Nat) : UInt32 :=
  UInt32.ofNat ((((byteAt buffer offset).toNat * 256 + (byteAt buffer (offset + 1)).toNat) * 256 +
    (byteAt buffer (offset + 2)).toNat) * 256 + (byteAt buffer (offset + 3)).toNat)

/-- The two bytes stored for a 16-bit word. -/
def wr16 (value : UInt16) : Bytes :=
  [UInt8.ofNat (value.toNat / 256), UInt8.ofNat (value.toNat % 256)]

/-- The four bytes stored for a 32-bit word. -/
def wr32 (value : UInt32) : Bytes :=
  [UInt8.ofNat (value.toNat / 16777216), UInt8.ofNat (value.toNat / 65536 % 256),
    UInt8.ofNat (value.toNat / 256 % 256), UInt8.ofNat (value.toNat % 256)]

@[simp] theorem length_wr16 (value : UInt16) : (wr16 value).length = 2 := rfl

@[simp] theorem length_wr32 (value : UInt32) : (wr32 value).length = 4 := rfl

theorem rd16_append_right (before after : Bytes) (index : Nat) :
    rd16 (before ++ after) (before.length + index) = rd16 after index := by
  simp only [rd16, Nat.add_assoc, byteAt_append_right]

theorem rd32_append_right (before after : Bytes) (index : Nat) :
    rd32 (before ++ after) (before.length + index) = rd32 after index := by
  simp only [rd32, Nat.add_assoc, byteAt_append_right]

theorem byteAt_slice {buffer : Bytes} {offset count index : Nat} (inside : index < count) :
    byteAt (slice buffer offset count) index = byteAt buffer (offset + index) := by
  simp only [byteAt, slice, List.getD_eq_getElem?_getD, List.getElem?_take_of_lt inside,
    List.getElem?_drop]

/-- A word that lies inside a slice. -/
theorem rd16_slice {buffer : Bytes} {offset count index : Nat} (inside : index + 2 ≤ count) :
    rd16 (slice buffer offset count) index = rd16 buffer (offset + index) := by
  rw [rd16, rd16, byteAt_slice (by omega), byteAt_slice (by omega), Nat.add_assoc]

/-- A stored 16-bit word reads back. -/
theorem rd16_wr16 (value : UInt16) (after : Bytes) : rd16 (wr16 value ++ after) 0 = value := by
  apply UInt16.toNat_inj.mp
  have bound := value.toNat_lt
  simp only [rd16, wr16, List.cons_append, List.nil_append, byteAt_cons_zero, byteAt_cons_succ,
    UInt16.toNat_ofNat', UInt8.toNat_ofNat', Nat.zero_add]
  omega

/-- A stored 32-bit word reads back. -/
theorem rd32_wr32 (value : UInt32) (after : Bytes) : rd32 (wr32 value ++ after) 0 = value := by
  apply UInt32.toNat_inj.mp
  have bound := value.toNat_lt
  simp only [rd32, wr32, List.cons_append, List.nil_append, byteAt_cons_zero, byteAt_cons_succ,
    UInt32.toNat_ofNat', UInt8.toNat_ofNat', Nat.zero_add]
  omega

/-- A word that is read is written back as it was. -/
theorem wr16_rd16 {buffer : Bytes} {offset : Nat} (inside : offset + 2 ≤ buffer.length) :
    wr16 (rd16 buffer offset) = slice buffer offset 2 := by
  have high := (byteAt buffer offset).toNat_lt
  have low := (byteAt buffer (offset + 1)).toNat_lt
  rw [show 2 = 1 + 1 from rfl, slice_add, slice_one (by omega), slice_one (by omega)]
  have upper : ((byteAt buffer offset).toNat * 256 + (byteAt buffer (offset + 1)).toNat) % 2 ^ 16 /
      256 = (byteAt buffer offset).toNat := by omega
  have lower : ((byteAt buffer offset).toNat * 256 + (byteAt buffer (offset + 1)).toNat) % 2 ^ 16 %
      256 = (byteAt buffer (offset + 1)).toNat := by omega
  rw [wr16, rd16, UInt16.toNat_ofNat', upper, lower, UInt8.ofNat_toNat, UInt8.ofNat_toNat]
  rfl

/-- A field of a buffer, found behind what stands in front of it. -/
theorem slice_of_front {buffer : Bytes} (front field : Bytes) {offset count : Nat}
    (starts : front ++ field <+: buffer) (position : front.length = offset)
    (size : field.length = count) : slice buffer offset count = field := by
  obtain ⟨back, rfl⟩ := starts
  subst position size
  rw [List.append_assoc]
  exact (slice_append_right front _ 0 _).trans (slice_append_left field back)

/-- A word of a buffer, found behind what stands in front of it. -/
theorem rd16_of_front {buffer : Bytes} (front : Bytes) (value : UInt16) {offset : Nat}
    (starts : front ++ wr16 value <+: buffer) (position : front.length = offset) :
    rd16 buffer offset = value := by
  obtain ⟨back, rfl⟩ := starts
  subst position
  rw [List.append_assoc]
  exact (rd16_append_right front _ 0).trans (rd16_wr16 value back)

/-- Two byte strings of one length that can differ only in `fields`. -/
structure SameOutside (fields : Set Nat) (left right : Bytes) : Prop where
  length_eq : left.length = right.length
  same : ∀ index, index ∉ fields → byteAt left index = byteAt right index

namespace SameOutside

variable {fields wider : Set Nat} {left right left' right' : Bytes}

theorem refl (fields : Set Nat) (bytes : Bytes) : SameOutside fields bytes bytes :=
  ⟨rfl, fun _ _ => rfl⟩

/-- What agrees outside some fields agrees outside more of them. -/
theorem mono (agree : SameOutside fields left right) (inside : fields ⊆ wider) :
    SameOutside wider left right :=
  ⟨agree.length_eq, fun index outside => agree.same index fun member => outside (inside member)⟩

/-- Byte strings of one length that `fields` covers. -/
theorem of_cover (length_eq : left.length = right.length)
    (cover : ∀ index, index < left.length → index ∈ fields) : SameOutside fields left right := by
  refine ⟨length_eq, fun index outside => ?_⟩
  have past : left.length ≤ index := by
    by_contra inside
    exact outside (cover index (Nat.not_le.mp inside))
  simp only [byteAt, List.getD_eq_getElem?_getD, List.getElem?_eq_none past,
    List.getElem?_eq_none (length_eq ▸ past)]

/-- Messages agree if their parts do, the second one in terms of where it begins. -/
theorem append (first : SameOutside fields left right)
    (second : SameOutside {index | left.length + index ∈ fields} left' right') :
    SameOutside fields (left ++ left') (right ++ right') := by
  refine ⟨by simp only [List.length_append, first.length_eq, second.length_eq], ?_⟩
  intro index outside
  rcases Nat.lt_or_ge index left.length with inside | past
  · rw [byteAt_append_left inside, byteAt_append_left (first.length_eq ▸ inside)]
    exact first.same index outside
  · obtain ⟨rest, rfl⟩ := Nat.exists_eq_add_of_le past
    rw [byteAt_append_right, first.length_eq, byteAt_append_right]
    exact second.same rest outside

end SameOutside

/-- Subtraction in `size_t`. -/
def sizeSub (a b : Nat) : Nat :=
  (a + 2 ^ 64 - b) % 2 ^ 64

/-- A subtraction of type `size_t` that does not wrap. -/
theorem sizeSub_of_le {a b : Nat} (ordered : b ≤ a) (bounded : a < 2 ^ 64) :
    sizeSub a b = a - b := by
  unfold sizeSub
  omega

end FizzDns
