import FizzDns.Msg.Name

/-!
# Names on the wire

An uncompressed name is a sequence of labels, each behind its length, and a zero byte.
`wireLabels` is that sequence and `appendLabels` the text it stands for. The decoder
reads such a sequence wherever it sits in a message (`nameDecodeLoop_labels`) and a
name it has read without meeting a pointer was one (`nameDecodeLoop_plain`); the encoder
writes one (`dnsNameEncode_ok`), and whether it succeeds depends on the capacity only
through the length of what it writes.
-/

namespace FizzDns

/-- A label of admissible length. -/
def LabelOk (label : Bytes) : Prop :=
  1 ≤ label.length ∧ label.length ≤ dnsMaxLabel

/-- Labels as they are on the wire, without the zero byte that ends the name. -/
def wireLabels (labels : List Bytes) : Bytes :=
  labels.flatMap fun label => UInt8.ofNat label.length :: label

/-- The decoded text of labels that follow `out`. -/
def appendLabels (out : Bytes) : List Bytes → Bytes
  | [] => out
  | label :: rest =>
      appendLabels (out ++ (if out.length = 0 then [] else [46]) ++ foldCase label) rest

/-- A text without its trailing dot. -/
def trimDot (name : Bytes) : Bytes :=
  if name.getLast? = some 46 then name.dropLast else name

/-- Only characters are dropped. -/
theorem trimDot_sublist (name : Bytes) : (trimDot name).Sublist name := by
  unfold trimDot
  split
  · exact List.dropLast_sublist name
  · exact List.Sublist.refl _

@[simp] theorem wireLabels_nil : wireLabels [] = [] := rfl

@[simp] theorem wireLabels_cons (label : Bytes) (rest : List Bytes) :
    wireLabels (label :: rest) = UInt8.ofNat label.length :: label ++ wireLabels rest := rfl

/-- The text only grows. -/
theorem length_le_appendLabels (out : Bytes) (labels : List Bytes) :
    out.length ≤ (appendLabels out labels).length := by
  induction labels generalizing out with
  | nil => exact Nat.le_refl _
  | cons label rest ih =>
      refine Nat.le_trans ?_ (ih _)
      simp only [List.length_append]
      omega

/-- Every label adds a character to the text. -/
theorem length_le_appendLabels_of_valid {labels : List Bytes}
    (valid : ∀ label ∈ labels, LabelOk label) (out : Bytes) :
    out.length + labels.length ≤ (appendLabels out labels).length := by
  induction labels generalizing out with
  | nil => exact Nat.le_refl _
  | cons label rest ih =>
      rw [List.forall_mem_cons] at valid
      have positive := valid.1.1
      refine Nat.le_trans ?_ (ih valid.2 _)
      simp only [List.length_append, length_foldCase, List.length_cons]
      omega

/-- The text of labels is no longer than the labels on the wire. -/
theorem length_appendLabels_le (out : Bytes) (labels : List Bytes) :
    (appendLabels out labels).length ≤ out.length + (wireLabels labels).length := by
  induction labels generalizing out with
  | nil => exact Nat.le_refl _
  | cons label rest ih =>
      refine (ih _).trans ?_
      have dot : (if out.length = 0 then ([] : Bytes) else [46]).length ≤ 1 := by split <;> simp
      simp only [wireLabels_cons, List.length_append, List.length_cons, length_foldCase]
      omega

/-- Text and wire form differ by one byte: the first label has no dot. -/
theorem length_wireLabels_le {labels : List Bytes} (valid : ∀ label ∈ labels, LabelOk label) :
    (wireLabels labels).length ≤ (appendLabels [] labels).length + 1 := by
  have later : ∀ {rest : List Bytes} {out : Bytes}, out.length ≠ 0 →
      out.length + (wireLabels rest).length ≤ (appendLabels out rest).length := by
    intro rest
    induction rest with
    | nil => exact fun _ => Nat.le_refl _
    | cons label rest ih =>
        intro out started
        have grown := @ih (out ++ (if out.length = 0 then [] else [46]) ++ foldCase label)
          (by simp only [List.length_append]; omega)
        rw [if_neg started] at grown
        simp only [appendLabels, if_neg started, wireLabels_cons, List.length_append,
          List.length_cons, List.length_nil, length_foldCase] at grown ⊢
        omega
  cases labels with
  | nil => exact Nat.zero_le _
  | cons label rest =>
      have nonempty := (valid label List.mem_cons_self).1
      have grown := @later rest (foldCase label)
        (by rw [length_foldCase]; omega)
      simp only [appendLabels, List.length_nil, ↓reduceIte, List.nil_append, wireLabels_cons,
        List.length_append, List.length_cons, length_foldCase] at grown ⊢
      omega

/-! ## The bits of a length byte -/

private theorem plain_bits : ∀ l : BitVec 8, l.toNat ≤ 63 → l &&& 0xC0#8 = 0#8 := by decide

/-- A length that a label may have has neither of the two top bits. -/
theorem plain_length {l : UInt8} (short : l.toNat ≤ dnsMaxLabel) : l &&& 0xC0 = 0 := by
  have bits := plain_bits l.toBitVec short
  exact UInt8.eq_of_toBitVec_eq bits

/-- The length of a label fits its length byte. -/
theorem toNat_length {label : Bytes} (valid : LabelOk label) :
    (UInt8.ofNat label.length).toNat = label.length := by
  have short := valid.2
  rw [UInt8.toNat_ofNat']
  simp only [dnsMaxLabel] at short
  omega

/-! ## Decoding -/

/-- The length of a text with one more label. -/
theorem length_append_label (out label : Bytes) :
    (out ++ (if out.length = 0 then [] else [46]) ++ foldCase label).length =
      out.length + (if out.length = 0 then 0 else 1) + label.length := by
  rw [List.length_append, List.length_append, length_foldCase]
  split <;> rfl

/-- One label in front of the reading position. -/
private theorem nameDecodeLoop_label {before label tail out : Bytes} {len outCap fuel jumps : Nat}
    {after : Option Nat} (valid : LabelOk label)
    (inside : before.length + 1 + label.length ≤ len)
    (fits : (out ++ (if out.length = 0 then [] else [46]) ++ foldCase label).length < outCap)
    (short : (out ++ (if out.length = 0 then [] else [46]) ++ foldCase label).length ≤ dnsMaxName) :
    nameDecodeLoop (before ++ (UInt8.ofNat label.length :: label ++ tail)) len outCap (fuel + 1)
        before.length out jumps after =
      nameDecodeLoop (before ++ (UInt8.ofNat label.length :: label ++ tail)) len outCap fuel
        (before.length + 1 + label.length)
        (out ++ (if out.length = 0 then [] else [46]) ++ foldCase label) jumps after := by
  have size := toNat_length valid
  have head : byteAt (before ++ (UInt8.ofNat label.length :: label ++ tail)) before.length =
      UInt8.ofNat label.length := byteAt_append_right before _ 0
  have content : slice (before ++ (UInt8.ofNat label.length :: label ++ tail)) (before.length + 1)
      label.length = label := by
    rw [slice_append_right before]
    exact slice_append_left label tail
  have bits : UInt8.ofNat label.length &&& 0xC0 = 0 := plain_length (size.symm ▸ valid.2)
  have nonzero : UInt8.ofNat label.length ≠ 0 := by
    intro zero
    have none := congrArg UInt8.toNat zero
    rw [size] at none
    exact absurd valid.1 (by simp at none; simp [none])
  rw [length_append_label] at fits short
  rw [nameDecodeLoop]
  simp only [head, size, content, bits, nonzero]
  rw [if_neg (by omega), if_neg (by simp), if_neg (by decide), if_neg (by simp),
    if_neg (Nat.not_lt.mpr valid.2), if_neg (by omega), if_neg (by omega), if_neg (by omega)]

/-- Labels in front of the reading position are appended to the text, and the zero byte
behind them ends the name. -/
theorem nameDecodeLoop_labels {before tail out : Bytes} {labels : List Bytes}
    {len outCap fuel jumps : Nat} {after : Option Nat} (valid : ∀ label ∈ labels, LabelOk label)
    (inside : before.length + (wireLabels labels).length + 1 ≤ len)
    (fits : (appendLabels out labels).length < outCap)
    (short : (appendLabels out labels).length ≤ dnsMaxName) (enough : labels.length < fuel) :
    nameDecodeLoop (before ++ (wireLabels labels ++ 0 :: tail)) len outCap fuel before.length out
        jumps after =
      some (appendLabels out labels,
        after.getD (before.length + (wireLabels labels).length + 1)) := by
  induction labels generalizing before out fuel with
  | nil =>
      obtain ⟨fuel, rfl⟩ := Nat.exists_eq_succ_of_ne_zero (Nat.ne_of_gt enough)
      have head : byteAt (before ++ 0 :: tail) before.length = 0 := byteAt_append_right before _ 0
      simp only [wireLabels_nil, List.nil_append, List.length_nil, Nat.add_zero] at inside ⊢
      rw [Nat.succ_eq_add_one, nameDecodeLoop]
      simp only [head]
      rw [if_neg (by omega), if_pos trivial]
      rfl
  | cons label rest ih =>
      obtain ⟨fuel, rfl⟩ := Nat.exists_eq_succ_of_ne_zero (Nat.ne_of_gt (Nat.zero_lt_of_lt enough))
      rw [List.forall_mem_cons] at valid
      have grows := length_le_appendLabels
        (out ++ (if out.length = 0 then [] else [46]) ++ foldCase label) rest
      simp only [wireLabels_cons, List.length_append, List.length_cons] at inside ⊢
      have shape : before ++ (UInt8.ofNat label.length :: label ++ wireLabels rest ++ 0 :: tail) =
          before ++ (UInt8.ofNat label.length :: label ++ (wireLabels rest ++ 0 :: tail)) := by simp
      rw [shape, nameDecodeLoop_label valid.1 (by omega) (Nat.lt_of_le_of_lt grows fits)
        (grows.trans short)]
      have regroup :
          before ++ (UInt8.ofNat label.length :: label ++ (wireLabels rest ++ 0 :: tail)) =
          (before ++ UInt8.ofNat label.length :: label) ++ (wireLabels rest ++ 0 :: tail) := by simp
      have position : before.length + 1 + label.length =
          (before ++ UInt8.ofNat label.length :: label).length := by
        simp only [List.length_append, List.length_cons]
        omega
      rw [regroup, position, ih valid.2 (by simp only [List.length_append, List.length_cons]; omega)
        fits short (by simpa using enough)]
      simp only [List.length_append, List.length_cons, appendLabels]
      congr 3
      omega

/-- Labels in a message are decoded where they sit. -/
theorem dnsNameDecode_labels {before tail : Bytes} {labels : List Bytes} {len : Nat}
    (valid : ∀ label ∈ labels, LabelOk label)
    (inside : before.length + (wireLabels labels).length + 1 ≤ len)
    (short : (appendLabels [] labels).length ≤ dnsMaxName) :
    dnsNameDecode (before ++ (wireLabels labels ++ 0 :: tail)) len before.length (dnsMaxName + 1) =
      some (appendLabels [] labels, before.length + (wireLabels labels).length + 1) := by
  have few := length_le_appendLabels_of_valid valid []
  rw [List.length_nil, Nat.zero_add] at few
  rw [dnsNameDecode, if_neg (by decide), nameDecodeLoop_labels valid inside
    (Nat.lt_succ_of_le short) short (by omega)]
  rfl

/-- More fuel changes nothing: every turn that goes on takes a jump or writes a character. -/
theorem nameDecodeLoop_fuel {msg out : Bytes} {len outCap fuel off jumps : Nat}
    {after : Option Nat} (whole : len ≤ msg.length) (room : out.length < outCap)
    (enough : outCap - out.length + (maxPtrJumps - jumps) ≤ fuel) (extra : Nat) :
    nameDecodeLoop msg len outCap (fuel + extra) off out jumps after =
      nameDecodeLoop msg len outCap fuel off out jumps after := by
  induction fuel generalizing off out jumps after with
  | zero => omega
  | succ fuel ih =>
      rw [Nat.add_right_comm, nameDecodeLoop, nameDecodeLoop]
      refine ite_congr rfl (fun _ => rfl) fun inside => ?_
      refine ite_congr rfl (fun _ => rfl) fun nonzero => ?_
      refine ite_congr rfl (fun _ => ?_) fun _ => ?_
      · refine ite_congr rfl (fun _ => rfl) fun _ => ?_
        refine ite_congr rfl (fun _ => rfl) fun hops => ?_
        refine ite_congr rfl (fun _ => rfl) fun _ => ?_
        exact ih room (by omega)
      · refine ite_congr rfl (fun _ => rfl) fun _ => ?_
        refine ite_congr rfl (fun _ => rfl) fun _ => ?_
        refine ite_congr rfl (fun _ => rfl) fun within => ?_
        refine ite_congr rfl (fun _ => rfl) fun fits => ?_
        refine ite_congr rfl (fun _ => rfl) fun _ => ?_
        have size : (slice msg (off + 1) (byteAt msg off).toNat).length = (byteAt msg off).toNat :=
          length_slice (by omega)
        have positive : (byteAt msg off).toNat ≠ 0 := fun none => nonzero (UInt8.toNat_inj.mp none)
        refine ih ?_ ?_ <;>
          · rw [length_append_label, size]
            omega

/-- Whether the labels from an offset on lead to a compression pointer. Every step moves
forward, so `len` steps reach the end. -/
def namePointer (msg : Bytes) (len : Nat) : (steps off : Nat) → Bool
  | 0, _ => false
  | steps + 1, off =>
      if off ≥ len then false
      else
        let l := byteAt msg off
        if l = 0 then false
        else if l &&& 0xC0 = 0xC0 then true
        else namePointer msg len steps (off + 1 + l.toNat)

/-- What a turn of the loop can do: stop at a zero byte, follow a pointer, or append a label. -/
theorem nameDecodeLoop_turn {msg out text : Bytes} {len outCap fuel off jumps next : Nat}
    {after : Option Nat} (whole : len ≤ msg.length)
    (decoded : nameDecodeLoop msg len outCap (fuel + 1) off out jumps after = some (text, next)) :
    off < len ∧
      (byteAt msg off = 0 ∧ text = out ∧ next = after.getD (off + 1) ∨
      byteAt msg off ≠ 0 ∧ byteAt msg off &&& 0xC0 = 0xC0 ∧ off + 1 < len ∧
        jumps + 1 ≤ maxPtrJumps ∧
        (byteAt msg off &&& 0x3F).toNat * 256 + (byteAt msg (off + 1)).toNat < off ∧
        nameDecodeLoop msg len outCap fuel
          ((byteAt msg off &&& 0x3F).toNat * 256 + (byteAt msg (off + 1)).toNat) out (jumps + 1)
          (some (after.getD (off + 2))) = some (text, next) ∨
      byteAt msg off ≠ 0 ∧ ¬byteAt msg off &&& 0xC0 = 0xC0 ∧
        LabelOk (slice msg (off + 1) (byteAt msg off).toNat) ∧
        (slice msg (off + 1) (byteAt msg off).toNat).length = (byteAt msg off).toNat ∧
        off + 1 + (byteAt msg off).toNat ≤ len ∧
        (out ++ (if out.length = 0 then [] else [46]) ++
          foldCase (slice msg (off + 1) (byteAt msg off).toNat)).length < outCap ∧
        nameDecodeLoop msg len outCap fuel (off + 1 + (byteAt msg off).toNat)
          (out ++ (if out.length = 0 then [] else [46]) ++
            foldCase (slice msg (off + 1) (byteAt msg off).toNat)) jumps after =
          some (text, next)) := by
  rw [nameDecodeLoop, Option.ite_none_left_eq_some] at decoded
  obtain ⟨inside, decoded⟩ := decoded
  refine ⟨Nat.not_le.mp inside, ?_⟩
  by_cases zero : byteAt msg off = 0
  · rw [if_pos zero] at decoded
    obtain ⟨rfl, rfl⟩ := Prod.mk.inj (Option.some.inj decoded)
    exact Or.inl ⟨zero, rfl, rfl⟩
  rw [if_neg zero] at decoded
  apply Or.inr
  by_cases marked : byteAt msg off &&& 0xC0 = 0xC0
  · rw [if_pos marked] at decoded
    simp only [Option.ite_none_left_eq_some] at decoded
    obtain ⟨more, hops, backwards, decoded⟩ := decoded
    exact Or.inl ⟨zero, marked, Nat.not_le.mp more, Nat.not_lt.mp hops, Nat.not_le.mp backwards,
      decoded⟩
  · rw [if_neg marked] at decoded
    simp only [Option.ite_none_left_eq_some] at decoded
    obtain ⟨_, short, within, fits, _, decoded⟩ := decoded
    have size : (slice msg (off + 1) (byteAt msg off).toNat).length = (byteAt msg off).toNat :=
      length_slice (by omega)
    refine Or.inr ⟨zero, marked, ⟨?_, ?_⟩, size, Nat.not_lt.mp within, ?_, decoded⟩
    · rw [size]
      exact Nat.one_le_iff_ne_zero.mpr fun none => zero (UInt8.toNat_inj.mp none)
    · rw [size]
      exact Nat.not_lt.mp short
    · rw [length_append_label, size]
      omega

/-- A name that was decoded without a pointer is a sequence of labels and a zero byte. -/
theorem nameDecodeLoop_plain {msg out text : Bytes} {len outCap fuel steps off jumps next : Nat}
    (whole : len ≤ msg.length) (room : out.length < outCap)
    (decoded : nameDecodeLoop msg len outCap fuel off out jumps none = some (text, next))
    (plain : namePointer msg len steps off = false) (enough : len < off + steps) :
    ∃ labels, (∀ label ∈ labels, LabelOk label) ∧ text = appendLabels out labels ∧
      text.length < outCap ∧ next = off + (wireLabels labels).length + 1 ∧ next ≤ len ∧
      slice msg off ((wireLabels labels).length + 1) = wireLabels labels ++ [0] := by
  induction fuel generalizing off out steps with
  | zero => cases decoded
  | succ fuel ih =>
      obtain ⟨inside, turn⟩ := nameDecodeLoop_turn whole decoded
      obtain ⟨steps, rfl⟩ : ∃ more, steps = more + 1 := ⟨steps - 1, by omega⟩
      rw [namePointer, if_neg (Nat.not_le.mpr inside)] at plain
      simp only at plain
      rcases turn with ⟨zero, rfl, rfl⟩ | ⟨nonzero, marked, _⟩ |
        ⟨nonzero, label, valid, size, within, grown, decoded⟩
      · refine ⟨[], by simp, rfl, room, rfl, by simp; omega, ?_⟩
        rw [wireLabels_nil, List.length_nil, Nat.zero_add, slice_one (by omega), zero]
        rfl
      · rw [if_neg nonzero, if_pos marked] at plain
        cases plain
      rw [if_neg nonzero, if_neg label] at plain
      obtain ⟨labels, others, rfl, fit, after, inMessage, bytes⟩ :=
        ih grown decoded plain (by omega)
      refine ⟨slice msg (off + 1) (byteAt msg off).toNat :: labels,
        List.forall_mem_cons.mpr ⟨valid, others⟩, rfl, fit, ?_, inMessage, ?_⟩
      · simp only [wireLabels_cons, List.length_append, List.length_cons, size]
        omega
      · simp only [wireLabels_cons, List.length_append, List.length_cons, size]
        rw [show (byteAt msg off).toNat + 1 + (wireLabels labels).length + 1 =
          1 + ((byteAt msg off).toNat + ((wireLabels labels).length + 1)) by omega, slice_add,
          slice_add, slice_one (by omega), bytes, UInt8.ofNat_toNat]
        simp

/-! ## Encoding -/

/-- The label loop succeeds just when the labels and the zero byte fit. The last text
may be empty: that is the trailing dot. -/
theorem encodeLabels_eq {used tail : List Bytes} (nonempty : used ≠ [])
    (valid : ∀ label ∈ used, LabelOk label) (ends : tail = [] ∨ tail = [[]]) (cap : Nat)
    (out : Bytes) :
    (out.length + (wireLabels used).length + 1 ≤ cap →
      encodeLabels cap (used ++ tail) out = .ok (out ++ wireLabels used)) ∧
    (cap < out.length + (wireLabels used).length + 1 →
      ∃ wrote, encodeLabels cap (used ++ tail) out = .error wrote) := by
  induction used generalizing out with
  | nil => exact absurd rfl nonempty
  | cons label rest ih =>
      rw [List.forall_mem_cons] at valid
      obtain ⟨⟨positive, short⟩, others⟩ := valid
      have passes : ¬ (label.length = 0 ∨ label.length > dnsMaxLabel) := by omega
      simp only [List.cons_append, encodeLabels, if_neg passes, wireLabels_cons, List.length_append,
        List.length_cons]
      by_cases last : rest = []
      · subst last
        simp only [List.nil_append, if_pos ends, wireLabels_nil, List.length_nil, List.append_nil]
        constructor
        · intro fits
          rw [if_neg (by omega)]
        · intro full
          exact ⟨out, if_pos (by omega)⟩
      · have more : ¬ (rest ++ tail = [] ∨ rest ++ tail = [[]]) := by
          obtain ⟨following, rest, rfl⟩ := List.exists_cons_of_ne_nil last
          have long := (others following List.mem_cons_self).1
          rintro (empty | dot)
          · cases empty
          · rw [List.cons_append, List.cons.injEq] at dot
            rw [dot.1] at long
            cases long
        obtain ⟨room, full⟩ := ih last others (out ++ UInt8.ofNat label.length :: label)
        simp only [List.length_append, List.length_cons] at room full
        rw [if_neg more]
        constructor
        · intro fits
          rw [if_neg (by omega), room (by omega)]
          simp
        · intro exceeds
          by_cases here : out.length + 1 + label.length + 1 > cap
          · exact ⟨out, if_pos here⟩
          · rw [if_neg here]
            exact full (by omega)

/-- The label loop accepts valid labels only, with at most one empty text behind them. -/
theorem encodeLabels_ok {cap : Nat} {labels : List Bytes} {out result : Bytes}
    (nonempty : labels ≠ []) (accepted : encodeLabels cap labels out = .ok result) :
    ∃ used tail, labels = used ++ tail ∧ (tail = [] ∨ tail = [[]]) ∧ used ≠ [] ∧
      ∀ label ∈ used, LabelOk label := by
  induction labels generalizing out with
  | nil => exact absurd rfl nonempty
  | cons label rest ih =>
      rw [encodeLabels] at accepted
      split at accepted
      · cases accepted
      next passes =>
      split at accepted
      · cases accepted
      have valid : LabelOk label := ⟨by omega, by omega⟩
      simp only at accepted
      split at accepted
      · next ends => exact ⟨[label], rest, rfl, ends, by simp, by simpa using valid⟩
      · next more =>
          obtain ⟨used, tail, rfl, ends, _, others⟩ :=
            ih (fun empty => more (Or.inl empty)) accepted
          exact ⟨label :: used, tail, rfl, ends, by simp, List.forall_mem_cons.mpr ⟨valid, others⟩⟩

/-- The text of labels is what stands between the dots. -/
theorem appendLabels_intercalate {labels : List Bytes} (valid : ∀ label ∈ labels, LabelOk label) :
    appendLabels [] labels = foldCase ([46].intercalate labels) := by
  have later : ∀ {rest : List Bytes} {out : Bytes}, out ≠ [] →
      (∀ label ∈ rest, LabelOk label) →
      appendLabels out rest = out ++ rest.flatMap fun label => 46 :: foldCase label := by
    intro rest
    induction rest with
    | nil => intro out _ _; simp [appendLabels]
    | cons label rest ih =>
        intro out some valid
        rw [List.forall_mem_cons] at valid
        rw [appendLabels, if_neg (by simpa using some), ih (by simp) valid.2]
        simp
  cases labels with
  | nil => rfl
  | cons label rest =>
      rw [List.forall_mem_cons] at valid
      have positive := valid.1.1
      have some : foldCase label ≠ [] := by
        intro empty
        rw [foldCase_eq_nil] at empty
        rw [empty] at positive
        cases positive
      rw [appendLabels, if_pos List.length_nil, List.nil_append, List.nil_append,
        later some valid.2]
      clear later valid some positive
      induction rest generalizing label with
      | nil => simp
      | cons following rest ih =>
          rw [List.intercalate_cons_cons, foldCase_append, foldCase_append, ← ih]
          simp [foldCase, show tolower 46 = 46 from rfl]

/-- The texts between the dots of a name, apart from an empty one behind a trailing dot,
are the name without that dot. -/
theorem intercalate_used {name : Bytes} {used tail : List Bytes}
    (split : name.splitOn 46 = used ++ tail) (ends : tail = [] ∨ tail = [[]]) (nonempty : used ≠ [])
    (valid : ∀ label ∈ used, LabelOk label) : [46].intercalate used = trimDot name := by
  have whole : [46].intercalate (name.splitOn 46) = name := List.intercalate_splitOn 46
  unfold trimDot
  split
  · next dotted =>
      obtain ⟨body, rfl⟩ := List.getLast?_eq_some_iff.mp dotted
      have pieces : (body ++ [46]).splitOn 46 = body.splitOn 46 ++ [[]] :=
        List.splitOn_append_cons_self body []
      rw [pieces] at split
      rw [List.dropLast_concat]
      rcases ends with rfl | rfl
      · rw [List.append_nil] at split
        have empty := (valid [] (split ▸ by simp)).1
        cases empty
      · rw [← List.append_cancel_right split]
        exact List.intercalate_splitOn 46
  · next undotted =>
      rcases ends with rfl | rfl
      · rw [List.append_nil] at split
        rw [← split, whole]
      · -- an empty last text is a trailing dot
        have joined : [46].intercalate (used ++ [[]]) = [46].intercalate used ++ [46] := by
          clear split valid whole undotted
          induction used with
          | nil => exact absurd rfl nonempty
          | cons label rest ih =>
              cases rest with
              | nil => simp
              | cons following rest =>
                  rw [List.cons_append, List.cons_append, List.intercalate_cons_cons,
                    ← List.cons_append, ih (by simp), List.intercalate_cons_cons]
                  simp
        rw [split, joined] at whole
        rw [← whole] at undotted
        simp at undotted

/-- What `dns_name_encode` writes: labels that stand for the name without its trailing
dot, in at most `DNS_MAX_NAME + 1` bytes. Another capacity changes only whether they fit. -/
theorem dnsNameEncode_ok {name encoded : Bytes} {cap : Nat}
    (accepted : dnsNameEncode name cap = .ok encoded) :
    ∃ labels, (∀ label ∈ labels, LabelOk label) ∧ encoded = wireLabels labels ++ [0] ∧
      appendLabels [] labels = foldCase (trimDot name) ∧ encoded.length ≤ dnsMaxName + 1 ∧
      ∀ room, (encoded.length ≤ room → dnsNameEncode name room = .ok encoded) ∧
        (room < encoded.length → ∃ wrote, dnsNameEncode name room = .error wrote) := by
  unfold dnsNameEncode at accepted ⊢
  split at accepted
  · next top =>
      split at accepted
      · cases accepted
      · cases accepted
        refine ⟨[], by simp, rfl, ?_, by decide, fun room => ?_⟩
        · rcases top with rfl | rfl <;> rfl
        · rw [if_pos top]
          constructor
          · intro fits
            exact if_neg (Nat.not_lt.mpr fits)
          · intro full
            exact ⟨[], if_pos full⟩
  · next inner =>
      cases looped : encodeLabels cap (name.splitOn 46) [] with
      | error wrote => rw [looped] at accepted; cases accepted
      | ok out =>
          simp only [looped] at accepted
          split at accepted
          · cases accepted
          next room =>
          split at accepted
          · cases accepted
          next short =>
          cases accepted
          obtain ⟨used, tail, split, ends, nonempty, valid⟩ :=
            encodeLabels_ok (List.splitOn_ne_nil _ _) looped
          have written : out = wireLabels used := by
            obtain ⟨fits, full⟩ := encodeLabels_eq nonempty valid ends cap []
            rw [← split, looped] at fits full
            by_cases exceeds : cap < ([] : Bytes).length + (wireLabels used).length + 1
            · obtain ⟨wrote, failed⟩ := full exceeds
              cases failed
            · simpa using fits (Nat.not_lt.mp exceeds)
          subst written
          refine ⟨used, valid, rfl, ?_,
            by simp only [List.length_append, List.length_singleton]; omega,
            fun limit => ?_⟩
          · rw [appendLabels_intercalate valid, intercalate_used split ends nonempty valid]
          · obtain ⟨fits, full⟩ := encodeLabels_eq nonempty valid ends limit []
            rw [if_neg inner, split]
            simp only [List.length_nil, Nat.zero_add, List.nil_append, List.length_append,
              List.length_singleton] at fits full ⊢
            constructor
            · intro enough
              simp only [fits enough]
              rw [if_neg (by omega), if_neg short]
            · intro exceeds
              obtain ⟨wrote, failed⟩ := full exceeds
              exact ⟨wrote, by simp only [failed]⟩

end FizzDns
