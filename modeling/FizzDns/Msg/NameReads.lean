import FizzDns.Msg.NameLimits

/-!
# The bytes a name is read from

Compression pointers let a name use any byte before them, so a name can depend on much more of
a message than the bytes it stands in. `NameOver kept` is a name that is read from the offsets
in `kept` alone. Such a name stands in every message that has the same bytes there
(`NameOver.carry`).

`NameAt.nameOver` is the converse. Let a message and some others, the probes, have the same bytes at
the offsets in `kept`, and let every other offset be told apart by a probe (`Probed`). If the same
text is read in all of them, it is read from the offsets in `kept`.
-/

namespace FizzDns

/-- A name that is read from offsets in `kept`: length bytes, labels and pointers. -/
inductive NameOver (kept : Nat → Prop) (msg : Bytes) (len : Nat) :
    Nat → List Bytes → Nat → Nat → Prop
  | root {off : Nat} (inside : off < len) (zero : byteAt msg off = 0) (head : kept off) :
      NameOver kept msg len off [] 0 (off + 1)
  | label {off pointers next : Nat} {labels : List Bytes} (positive : 1 ≤ (byteAt msg off).toNat)
      (short : (byteAt msg off).toNat ≤ dnsMaxLabel)
      (inside : off + 1 + (byteAt msg off).toNat ≤ len)
      (block : ∀ index, off ≤ index → index < off + 1 + (byteAt msg off).toNat → kept index)
      (rest : NameOver kept msg len (off + 1 + (byteAt msg off).toNat) labels pointers next) :
      NameOver kept msg len off (slice msg (off + 1) (byteAt msg off).toNat :: labels) pointers
        next
  | pointer {off pointers next : Nat} {labels : List Bytes} (inside : off + 1 < len)
      (marked : byteAt msg off &&& 0xC0 = 0xC0) (backwards : pointerTarget msg off < off)
      (head : kept off) (low : kept (off + 1))
      (rest : NameOver kept msg len (pointerTarget msg off) labels pointers next) :
      NameOver kept msg len off labels (pointers + 1) (off + 2)

/-- Slices of the same bytes are the same. -/
theorem slice_congr {left right : Bytes} {offset count : Nat}
    (insideLeft : offset + count ≤ left.length) (insideRight : offset + count ≤ right.length)
    (agree : ∀ index, offset ≤ index → index < offset + count →
      byteAt left index = byteAt right index) :
    slice left offset count = slice right offset count := by
  induction count generalizing offset with
  | zero => simp [slice]
  | succ count ih =>
      rw [Nat.add_comm count 1, slice_add, slice_add, slice_one (by omega), slice_one (by omega),
        agree offset (Nat.le_refl _) (by omega)]
      congr 1
      apply ih
      · omega
      · omega
      · intro index low high
        exact agree index (by omega) (by omega)

namespace NameOver

variable {kept : Nat → Prop} {msg : Bytes} {len off pointers next : Nat} {labels : List Bytes}

/-- A name over some kept bytes is a name. -/
theorem nameAt (name : NameOver kept msg len off labels pointers next) :
    NameAt msg len off labels pointers next := by
  induction name with
  | root inside zero _ => exact .root inside zero
  | label positive short inside _ _ ih => exact .label positive short inside ih
  | pointer inside marked backwards _ _ _ ih => exact .pointer inside marked backwards ih

/-- The same bytes at the offsets in `kept` hold the same name. -/
theorem carry (name : NameOver kept msg len off labels pointers next) (whole : len ≤ msg.length)
    {other : Bytes} {size : Nat} (fits : size ≤ other.length)
    (agree : ∀ index, kept index → index < size ∧ byteAt other index = byteAt msg index) :
    NameOver kept other size off labels pointers next := by
  induction name with
  | root inside zero head =>
      obtain ⟨below, same⟩ := agree _ head
      exact .root below (same.trans zero) head
  | @label off pointers next labels positive short inside block rest ih =>
      have same := (agree off (block off (Nat.le_refl _) (by omega))).2
      have last := (agree (off + (byteAt msg off).toNat) (block _ (by omega) (by omega))).1
      have content : slice other (off + 1) (byteAt msg off).toNat =
          slice msg (off + 1) (byteAt msg off).toNat := by
        apply slice_congr
        · omega
        · omega
        · intro index low high
          exact (agree index (block index (by omega) high)).2
      have step := @NameOver.label kept other size off pointers next labels
      rw [same, content] at step
      exact step positive short (by omega) block ih
  | @pointer off pointers next labels inside marked backwards head low rest ih =>
      obtain ⟨_, sameHead⟩ := agree off head
      obtain ⟨below, sameLow⟩ := agree (off + 1) low
      have target : pointerTarget other off = pointerTarget msg off := by
        rw [pointerTarget, sameHead, sameLow, pointerTarget]
      have step := @NameOver.pointer kept other size off pointers next labels
      rw [sameHead, target] at step
      exact step below marked backwards head low ih

end NameOver

/-! ## Names that several messages share -/

/-- A byte that no name has in front of a label: neither a length nor a pointer. -/
def Reserved (byte : UInt8) : Prop :=
  dnsMaxLabel < byte.toNat ∧ byte &&& 0xC0 ≠ 0xC0

instance (byte : UInt8) : Decidable (Reserved byte) :=
  inferInstanceAs (Decidable (_ ∧ _))

/-- A name does not begin with a reserved label type. -/
theorem NameAt.not_reserved {msg : Bytes} {len off pointers next : Nat} {labels : List Bytes}
    (name : NameAt msg len off labels pointers next) : ¬ Reserved (byteAt msg off) := by
  intro reserved
  cases name with
  | root _ zero =>
      rw [zero] at reserved
      exact absurd reserved (by decide)
  | label _ short => exact absurd short (Nat.not_le.mpr reserved.1)
  | pointer _ marked => exact reserved.2 marked

theorem byteAt_foldCase (text : Bytes) (index : Nat) :
    byteAt (foldCase text) index = tolower (byteAt text index) := by
  simp only [byteAt, foldCase, List.getD_eq_getElem?_getD, List.getElem?_map]
  cases text[index]? with
  | none => rfl
  | some byte => rfl

/-- What was decoded before stays in front. -/
theorem appendLabels_take (out : Bytes) (labels : List Bytes) :
    (appendLabels out labels).take out.length = out := by
  induction labels generalizing out with
  | nil => exact List.take_length
  | cons label rest ih =>
      have longer := congrArg (List.take out.length)
        (ih (out ++ (if out.length = 0 then [] else [46]) ++ foldCase label))
      rw [List.take_take, Nat.min_eq_left (by simp only [List.length_append]; omega),
        List.append_assoc, List.take_left] at longer
      rw [appendLabels, List.append_assoc]
      exact longer

/-- Two names of one text whose first labels are of one size: these labels are the same up to
case. -/
theorem appendLabels_cons_inj {out left right : Bytes} {lefts rights : List Bytes}
    (size : left.length = right.length)
    (same : appendLabels out (left :: lefts) = appendLabels out (right :: rights)) :
    foldCase left = foldCase right := by
  have leftTake := appendLabels_take
    (out ++ (if out.length = 0 then [] else [46]) ++ foldCase left) lefts
  have rightTake := appendLabels_take
    (out ++ (if out.length = 0 then [] else [46]) ++ foldCase right) rights
  rw [appendLabels, appendLabels] at same
  have sizes : (out ++ (if out.length = 0 then [] else [46]) ++ foldCase left).length =
      (out ++ (if out.length = 0 then [] else [46]) ++ foldCase right).length := by
    simp only [List.length_append, length_foldCase, size]
  rw [same, sizes, rightTake] at leftTake
  exact (List.append_cancel_left leftTake).symm

/-- The text of the name at an offset, behind what was decoded before. -/
def ReadsAs (msg : Bytes) (off : Nat) (out text : Bytes) : Prop :=
  ∃ labels pointers next,
    NameAt msg msg.length off labels pointers next ∧ appendLabels out labels = text

namespace ReadsAs

variable {msg out text : Bytes} {off : Nat}

/-- What can be read does not begin with a reserved label type. -/
theorem not_reserved (reads : ReadsAs msg off out text) : ¬ Reserved (byteAt msg off) := by
  obtain ⟨_, _, _, name, _⟩ := reads
  exact name.not_reserved

/-- A length byte is followed by its label and the rest of the name. -/
theorem label (reads : ReadsAs msg off out text) (positive : byteAt msg off ≠ 0)
    (plain : byteAt msg off &&& 0xC0 ≠ 0xC0) :
    (slice msg (off + 1) (byteAt msg off).toNat).length = (byteAt msg off).toNat ∧
      ReadsAs msg (off + 1 + (byteAt msg off).toNat)
        (out ++ (if out.length = 0 then [] else [46]) ++
          foldCase (slice msg (off + 1) (byteAt msg off).toNat)) text := by
  obtain ⟨_, _, _, name, same⟩ := reads
  cases name with
  | root _ zero => exact absurd zero positive
  | label _ _ inside rest => exact ⟨length_slice inside, _, _, _, rest, same⟩
  | pointer _ marked => exact absurd marked plain

/-- A pointer leads back to the rest of the name. -/
theorem pointer (reads : ReadsAs msg off out text) (marked : byteAt msg off &&& 0xC0 = 0xC0) :
    pointerTarget msg off < off ∧ ReadsAs msg (pointerTarget msg off) out text := by
  obtain ⟨_, _, _, name, same⟩ := reads
  cases name with
  | root _ zero =>
      rw [zero] at marked
      cases marked
  | label _ short => exact absurd short (Nat.not_le.mpr (NameAt.marked_length marked))
  | pointer _ _ backwards rest => exact ⟨backwards, _, _, _, rest, same⟩

/-- Two messages with one text and one length byte have the same label up to case, and the same
text behind it. -/
theorem label_eq {probe : Bytes} {labels : List Bytes}
    (reads : ReadsAs probe off out
      (appendLabels out (slice msg (off + 1) (byteAt msg off).toNat :: labels)))
    (head : byteAt probe off = byteAt msg off) (nonzero : byteAt msg off ≠ 0)
    (plain : byteAt msg off &&& 0xC0 ≠ 0xC0)
    (inside : off + 1 + (byteAt msg off).toNat ≤ msg.length) :
    foldCase (slice probe (off + 1) (byteAt msg off).toNat) =
        foldCase (slice msg (off + 1) (byteAt msg off).toNat) ∧
      ReadsAs probe (off + 1 + (byteAt msg off).toNat)
        (out ++ (if out.length = 0 then [] else [46]) ++
          foldCase (slice msg (off + 1) (byteAt msg off).toNat))
        (appendLabels out (slice msg (off + 1) (byteAt msg off).toNat :: labels)) := by
  have next := reads.label
  rw [head] at next
  obtain ⟨size, later⟩ := next nonzero plain
  have same : foldCase (slice probe (off + 1) (byteAt msg off).toNat) =
      foldCase (slice msg (off + 1) (byteAt msg off).toNat) := by
    obtain ⟨_, _, _, _, shape⟩ := later
    exact appendLabels_cons_inj (size.trans (length_slice inside).symm) shape
  rw [same] at later
  exact ⟨same, later⟩

/-- What was decoded before is in front of the text. -/
theorem take_eq (reads : ReadsAs msg off out text) : text.take out.length = out := by
  obtain ⟨labels, _, _, _, rfl⟩ := reads
  exact appendLabels_take out labels

end ReadsAs

/-- The probes agree with a message at the offsets in `kept`. Any other offset spoils a name that
uses it: in front of a label, as a character of a label, or as the second byte of a pointer. -/
structure Probed (kept : Nat → Prop) (msg : Bytes) (len : Nat) (probes : Set Bytes) : Prop where
  agree : ∀ probe ∈ probes, ∀ index, kept index → byteAt probe index = byteAt msg index
  head : ∀ index, index < len → ¬ kept index → Reserved (byteAt msg index) ∨
    ∃ probe ∈ probes, Reserved (byteAt probe index) ∨
      byteAt msg index = 0 ∧ byteAt probe index ≠ 0 ∧ byteAt probe index &&& 0xC0 ≠ 0xC0
  content : ∀ index, index < len → ¬ kept index →
    ∃ probe ∈ probes, tolower (byteAt probe index) ≠ tolower (byteAt msg index)
  low : ∀ index, index + 1 < len → kept index → ¬ kept (index + 1) →
    byteAt msg index &&& 0xC0 = 0xC0 → pointerTarget msg index < index →
    ∃ probe ∈ probes, pointerTarget probe index < index →
      Reserved (byteAt probe (pointerTarget probe index))

section

variable {kept : Nat → Prop} {msg : Bytes} {len off pointers next : Nat} {labels : List Bytes}
  {probes : Set Bytes}

/-- A byte in front of a label, which no probe has as a reserved one. -/
theorem Probed.head_kept (probed : Probed kept msg len probes) (inside : off < len)
    (nonzero : byteAt msg off ≠ 0) (used : ¬ Reserved (byteAt msg off))
    (shared : ∀ probe ∈ probes, ¬ Reserved (byteAt probe off)) : kept off := by
  by_contra other
  rcases probed.head off inside other with reserved | ⟨probe, member, reserved | ⟨zero, _⟩⟩
  · exact used reserved
  · exact shared probe member reserved
  · exact nonzero zero

/-- A label that reads the same in all probes has all its characters in `kept`. -/
theorem Probed.label_kept (probed : Probed kept msg len probes) {count : Nat}
    (inside : off + count ≤ len)
    (same : ∀ probe ∈ probes, foldCase (slice probe off count) = foldCase (slice msg off count))
    {index : Nat} (low : off ≤ index) (high : index < off + count) : kept index := by
  by_contra other
  obtain ⟨probe, member, differ⟩ := probed.content index (by omega) other
  have read := congrArg (fun text => byteAt text (index - off)) (same probe member)
  simp only [byteAt_foldCase] at read
  rw [byteAt_slice (by omega), byteAt_slice (by omega), Nat.add_sub_cancel' low] at read
  exact differ read

/-- A name that reads the same in all probes is read from offsets in `kept`. -/
theorem NameAt.nameOver (name : NameAt msg len off labels pointers next) (whole : len ≤ msg.length)
    (probed : Probed kept msg len probes) (out : Bytes)
    (shared : ∀ probe ∈ probes, ReadsAs probe off out (appendLabels out labels)) :
    NameOver kept msg len off labels pointers next := by
  induction name generalizing out with
  | @root off inside zero =>
      refine .root inside zero ?_
      by_contra other
      rcases probed.head off inside other with reserved | ⟨probe, member, told⟩
      · rw [zero] at reserved
        exact absurd reserved (by decide)
      · rcases told with reserved | ⟨_, positive, plain⟩
        · exact (shared probe member).not_reserved reserved
        · -- the probe has a label where the message has none
          obtain ⟨size, rest⟩ := (shared probe member).label positive plain
          have grown := congrArg List.length rest.take_eq
          have some : (byteAt probe off).toNat ≠ 0 := fun zero =>
            positive (UInt8.toNat_inj.mp zero)
          simp only [appendLabels, List.length_take, List.length_append, length_foldCase,
            size] at grown
          omega
  | @label off pointers next labels positive short inside rest ih =>
      have plain : byteAt msg off &&& 0xC0 ≠ 0xC0 := by
        rw [plain_length short]
        decide
      have nonzero : byteAt msg off ≠ 0 := by
        intro zero
        rw [zero] at positive
        exact absurd positive (by decide)
      have head : kept off := probed.head_kept (by omega) nonzero
        (NameAt.label positive short inside rest).not_reserved
        fun probe member => (shared probe member).not_reserved
      have after := fun probe member => (shared probe member).label_eq
        (probed.agree probe member off head) nonzero plain (inside.trans whole)
      refine .label positive short inside ?_ (ih _ fun probe member => (after probe member).2)
      intro index low high
      rcases Nat.eq_or_lt_of_le low with rfl | later
      · exact head
      · exact probed.label_kept inside (fun probe member => (after probe member).1) later high
  | @pointer off pointers next labels inside marked backwards rest ih =>
      have nonzero : byteAt msg off ≠ 0 := by
        intro zero
        rw [zero] at marked
        cases marked
      have head : kept off := probed.head_kept (by omega) nonzero
        (NameAt.pointer inside marked backwards rest).not_reserved
        fun probe member => (shared probe member).not_reserved
      have follow : ∀ probe ∈ probes, pointerTarget probe off < off ∧
          ReadsAs probe (pointerTarget probe off) out (appendLabels out labels) := by
        intro probe member
        apply (shared probe member).pointer
        rw [probed.agree probe member off head]
        exact marked
      have low : kept (off + 1) := by
        by_contra other
        obtain ⟨probe, member, astray⟩ := probed.low off inside head other marked backwards
        obtain ⟨back, reads⟩ := follow probe member
        exact reads.not_reserved (astray back)
      refine .pointer inside marked backwards head low (ih out ?_)
      intro probe member
      have target : pointerTarget probe off = pointerTarget msg off := by
        rw [pointerTarget, probed.agree probe member off head,
          probed.agree probe member (off + 1) low, pointerTarget]
      rw [← target]
      exact (follow probe member).2

end

end FizzDns
