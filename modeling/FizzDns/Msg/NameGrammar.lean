import FizzDns.Msg.NameCodec

/-!
# The names a message holds

`NameAt` says which labels stand at an offset of a message when compression pointers are
followed. It is the meaning of a wire name, and at most one name stands at an offset
(`NameAt.unique`). What `dns_name_decode` accepts is such a name, and the text it returns
is the lower-case labels joined with dots (`dnsNameDecode_nameAt`).

The text determines the labels as long as no label contains a dot, and the C string that
the rest of the program reads determines the text as long as no label contains a NUL
(`Decodes.labels_eq`).
-/

namespace FizzDns

/-- The offset that the two bytes of a compression pointer name. -/
def pointerTarget (msg : Bytes) (off : Nat) : Nat :=
  (byteAt msg off &&& 0x3F).toNat * 256 + (byteAt msg (off + 1)).toNat

/-- A name in the first `len` bytes of a message: its offset, its labels, the number of
pointers on the way and the offset behind it. -/
inductive NameAt (msg : Bytes) (len : Nat) : Nat → List Bytes → Nat → Nat → Prop
  | root {off : Nat} (inside : off < len) (zero : byteAt msg off = 0) :
      NameAt msg len off [] 0 (off + 1)
  | label {off pointers next : Nat} {labels : List Bytes} (positive : 1 ≤ (byteAt msg off).toNat)
      (short : (byteAt msg off).toNat ≤ dnsMaxLabel)
      (inside : off + 1 + (byteAt msg off).toNat ≤ len)
      (rest : NameAt msg len (off + 1 + (byteAt msg off).toNat) labels pointers next) :
      NameAt msg len off (slice msg (off + 1) (byteAt msg off).toNat :: labels) pointers next
  | pointer {off pointers next : Nat} {labels : List Bytes} (inside : off + 1 < len)
      (marked : byteAt msg off &&& 0xC0 = 0xC0) (backwards : pointerTarget msg off < off)
      (rest : NameAt msg len (pointerTarget msg off) labels pointers next) :
      NameAt msg len off labels (pointers + 1) (off + 2)

namespace NameAt

variable {msg : Bytes} {len off pointers next : Nat} {labels : List Bytes}

/-- The labels of a name have 1 to 63 bytes. -/
theorem valid (name : NameAt msg len off labels pointers next) (whole : len ≤ msg.length) :
    ∀ label ∈ labels, LabelOk label := by
  induction name with
  | root => simp
  | label positive short inside _ ih =>
      refine List.forall_mem_cons.mpr ⟨?_, ih⟩
      rw [LabelOk, length_slice (inside.trans whole)]
      exact ⟨positive, short⟩
  | pointer _ _ _ _ ih => exact ih

/-- A name takes at least one byte. -/
theorem lt_next (name : NameAt msg len off labels pointers next) : off < next := by
  induction name with
  | root => omega
  | label _ _ _ _ ih => omega
  | pointer => omega

/-- A name takes at most its labels and a pointer in the message. -/
theorem next_le (name : NameAt msg len off labels pointers next) (whole : len ≤ msg.length) :
    next ≤ off + (wireLabels labels).length + 2 := by
  induction name with
  | root => omega
  | label _ _ inside _ ih =>
      rw [wireLabels_cons, List.length_append, List.length_cons,
        length_slice (inside.trans whole)]
      omega
  | pointer => omega

private theorem marked_bits : ∀ l : BitVec 8, l &&& 0xC0#8 = 0xC0#8 → 192 ≤ l.toNat := by decide

/-- The mark of a pointer is no length that a label may have. -/
theorem marked_length {l : UInt8} (marked : l &&& 0xC0 = 0xC0) : dnsMaxLabel < l.toNat := by
  have large := marked_bits l.toBitVec (congrArg UInt8.toBitVec marked)
  rw [dnsMaxLabel]
  exact Nat.lt_of_lt_of_le (by decide) large

/-- At most one name stands at an offset. -/
theorem unique (name : NameAt msg len off labels pointers next) {labels' : List Bytes}
    {pointers' next' : Nat} (other : NameAt msg len off labels' pointers' next') :
    labels' = labels ∧ pointers' = pointers ∧ next' = next := by
  induction name generalizing labels' pointers' next' with
  | root _ zero =>
      cases other with
      | root => exact ⟨rfl, rfl, rfl⟩
      | label positive => simp [zero] at positive
      | pointer _ marked => simp [zero] at marked
  | label positive short _ _ ih =>
      cases other with
      | root _ zero => simp [zero] at positive
      | label _ _ _ rest =>
          obtain ⟨rfl, rfl, rfl⟩ := ih rest
          exact ⟨rfl, rfl, rfl⟩
      | pointer _ marked => exact absurd short (Nat.not_le.mpr (marked_length marked))
  | pointer _ marked _ _ ih =>
      cases other with
      | root _ zero => simp [zero] at marked
      | label _ short => exact absurd short (Nat.not_le.mpr (marked_length marked))
      | pointer _ _ _ rest =>
          obtain ⟨rfl, rfl, rfl⟩ := ih rest
          exact ⟨rfl, rfl, rfl⟩

/-- Labels on the wire behind other bytes and before a zero byte are a name. -/
theorem of_wireLabels {before tail : Bytes} {labels : List Bytes}
    (valid : ∀ label ∈ labels, LabelOk label) :
    NameAt (before ++ (wireLabels labels ++ 0 :: tail))
      (before ++ (wireLabels labels ++ 0 :: tail)).length before.length labels 0
      (before.length + (wireLabels labels).length + 1) := by
  induction labels generalizing before with
  | nil =>
      refine .root ?_ ?_
      · simp
      · exact byteAt_append_right before _ 0
  | cons label rest ih =>
      rw [List.forall_mem_cons] at valid
      have size := toNat_length valid.1
      have regroup : before ++ (wireLabels (label :: rest) ++ 0 :: tail) =
          (before ++ UInt8.ofNat label.length :: label) ++ (wireLabels rest ++ 0 :: tail) := by simp
      have head : byteAt (before ++ (wireLabels (label :: rest) ++ 0 :: tail)) before.length =
          UInt8.ofNat label.length := byteAt_append_right before _ 0
      have content : slice (before ++ (wireLabels (label :: rest) ++ 0 :: tail))
          (before.length + 1) label.length = label := by
        rw [slice_append_right before, wireLabels_cons, List.append_assoc]
        exact slice_append_left label _
      have name := @NameAt.label (before ++ (wireLabels (label :: rest) ++ 0 :: tail))
        (before ++ (wireLabels (label :: rest) ++ 0 :: tail)).length before.length 0
        (before.length + (wireLabels (label :: rest)).length + 1) rest
      rw [head, size, content] at name
      refine name valid.1.1 valid.1.2 ?_ ?_
      · simp only [wireLabels_cons, List.length_append, List.length_cons]
        omega
      · have later := @ih (before ++ UInt8.ofNat label.length :: label) valid.2
        rw [← regroup] at later
        simp only [wireLabels_cons, List.length_append, List.length_cons] at later ⊢
        convert later using 1 <;> omega

end NameAt

/-! ## What the decoder accepts -/

/-- The loop of `dns_name_decode` appends the labels of the name in front of it. -/
theorem nameDecodeLoop_nameAt {msg out text : Bytes} {len outCap fuel off jumps next : Nat}
    {after : Option Nat} (whole : len ≤ msg.length) (room : out.length < outCap)
    (decoded : nameDecodeLoop msg len outCap fuel off out jumps after = some (text, next)) :
    ∃ labels pointers stop, NameAt msg len off labels pointers stop ∧
      jumps + pointers ≤ max jumps maxPtrJumps ∧ text = appendLabels out labels ∧
      text.length < outCap ∧ next = after.getD stop := by
  induction fuel generalizing off out jumps after with
  | zero => cases decoded
  | succ fuel ih =>
      obtain ⟨inside, turn⟩ := nameDecodeLoop_turn whole decoded
      rcases turn with ⟨zero, rfl, rfl⟩ | ⟨_, marked, _, hops, backwards, decoded⟩ |
        ⟨_, _, valid, size, within, grown, decoded⟩
      · exact ⟨[], 0, off + 1, .root inside zero, Nat.le_max_left _ _, rfl, room, rfl⟩
      · obtain ⟨labels, pointers, stop, name, few, rfl, fits, rfl⟩ := ih room decoded
        exact ⟨labels, pointers + 1, off + 2, .pointer (by omega) marked backwards name, by omega,
          rfl, fits, rfl⟩
      · obtain ⟨labels, pointers, stop, name, few, rfl, fits, rfl⟩ := ih grown decoded
        exact ⟨_ :: labels, pointers, stop,
          .label (size ▸ valid.1) (size ▸ valid.2) (by omega) name, few, rfl, fits, rfl⟩

/-- What `dns_name_decode` accepts into a name buffer is a name of the message. -/
theorem dnsNameDecode_nameAt {msg text : Bytes} {len off next : Nat} (whole : len ≤ msg.length)
    (decoded : dnsNameDecode msg len off (dnsMaxName + 1) = some (text, next)) :
    ∃ labels pointers, NameAt msg len off labels pointers next ∧ pointers ≤ maxPtrJumps ∧
      text = appendLabels [] labels ∧ text.length ≤ dnsMaxName := by
  rw [dnsNameDecode, if_neg (by decide)] at decoded
  obtain ⟨labels, pointers, stop, name, few, shape, fits, rfl⟩ :=
    nameDecodeLoop_nameAt whole (by decide) decoded
  exact ⟨labels, pointers, name, by simpa using few, shape, Nat.lt_succ_iff.mp fits⟩

/-! ## Decoding what was encoded -/

/-- An encoded name is decoded wherever it sits in a message: the text is the name in lower
case without its trailing dot, read as the C string it is, and the decoder stops behind the
bytes that were written. -/
theorem dnsNameDecode_dnsNameEncode {name : CString} {encoded : Bytes} {cap : Nat}
    (accepted : dnsNameEncode name.chars cap = .ok encoded) (before after : Bytes) :
    dnsNameDecode (before ++ encoded ++ after) (before ++ encoded ++ after).length before.length
        (dnsMaxName + 1) =
      some (foldCase (trimDot name.chars), before.length + encoded.length) ∧
    (CString.ofBuffer (foldCase (trimDot name.chars))).chars = foldCase (trimDot name.chars) := by
  obtain ⟨labels, valid, rfl, text, short, _⟩ := dnsNameEncode_ok accepted
  have textSize := length_appendLabels_le [] labels
  have shape : before ++ (wireLabels labels ++ [0]) ++ after =
      before ++ (wireLabels labels ++ 0 :: after) := by simp
  simp only [List.length_append, List.length_singleton, List.length_nil, Nat.zero_add]
    at short textSize
  constructor
  · rw [shape, dnsNameDecode_labels valid (by simp) (by omega), text]
    simp [Nat.add_assoc]
  · apply CString.ofBuffer_chars_of_nulFree
    simp only [foldCase, List.mem_map, tolower_eq_zero, exists_eq_right]
    exact fun zero => name.nulFree ((trimDot_sublist name.chars).subset zero)

/-- A name with an inner capital and a trailing dot, between other bytes. -/
theorem dnsNameDecode_dnsNameEncode_example :
    dnsNameDecode ([7] ++ [1, 65, 2, 98, 99, 0] ++ [9]) ([7] ++ [1, 65, 2, 98, 99, 0] ++ [9]).length
        ([7] : Bytes).length (dnsMaxName + 1) =
      some (foldCase (trimDot [65, 46, 98, 99, 46]), ([7] : Bytes).length + 6) ∧
    (CString.ofBuffer (foldCase (trimDot [65, 46, 98, 99, 46]))).chars =
      foldCase (trimDot [65, 46, 98, 99, 46]) :=
  @dnsNameDecode_dnsNameEncode ⟨[65, 46, 98, 99, 46], by decide⟩ [1, 65, 2, 98, 99, 0] 6
    (by decide) [7] [9]

/-! ## Encoding what was decoded -/

/-- Labels without the byte that separates them in text and the one that ends the text. -/
def CleanLabels (labels : List Bytes) : Prop :=
  ∀ label ∈ labels, 46 ∉ label ∧ 0 ∉ label

/-- The text of a name does not depend on the case of its labels. -/
theorem appendLabels_map_foldCase (out : Bytes) (labels : List Bytes) :
    appendLabels out (labels.map foldCase) = appendLabels out labels := by
  induction labels generalizing out with
  | nil => rfl
  | cons label rest ih =>
      rw [List.map_cons, appendLabels, appendLabels, foldCase_foldCase]
      exact ih _

/-- Nor does the length of its encoding. -/
theorem length_wireLabels_map_foldCase (labels : List Bytes) :
    (wireLabels (labels.map foldCase)).length = (wireLabels labels).length := by
  induction labels with
  | nil => rfl
  | cons label rest ih =>
      simp only [List.map_cons, wireLabels_cons, List.length_append, List.length_cons,
        length_foldCase, ih]

/-- Nor whether its labels are valid. -/
theorem valid_map_foldCase {labels : List Bytes} (valid : ∀ label ∈ labels, LabelOk label) :
    ∀ label ∈ labels.map foldCase, LabelOk label := by
  rw [List.forall_mem_map]
  intro label member
  rw [LabelOk, length_foldCase]
  exact valid label member

/-- Only the root has an empty text. -/
theorem appendLabels_eq_nil {labels : List Bytes} (valid : ∀ label ∈ labels, LabelOk label) :
    appendLabels [] labels = [] ↔ labels = [] := by
  constructor
  · intro empty
    have grows := length_le_appendLabels_of_valid valid []
    rw [empty, List.length_nil, Nat.zero_add] at grows
    exact List.length_eq_zero_iff.mp (Nat.le_zero.mp grows)
  · rintro rfl
    rfl

/-- Case folding goes label by label. -/
theorem foldCase_intercalate (labels : List Bytes) :
    foldCase ([46].intercalate labels) = [46].intercalate (labels.map foldCase) := by
  induction labels with
  | nil => rfl
  | cons label rest ih =>
      cases rest with
      | nil => simp
      | cons following rest =>
          rw [List.intercalate_cons_cons, foldCase_append, foldCase_append, ih]
          simp only [List.map_cons, List.intercalate_cons_cons]
          rfl

/-- The characters of a text are dots and the lower-case bytes of its labels. -/
theorem mem_appendLabels {byte : UInt8} {out : Bytes} {labels : List Bytes}
    (member : byte ∈ appendLabels out labels) :
    byte ∈ out ∨ byte = 46 ∨ ∃ label ∈ labels, byte ∈ foldCase label := by
  induction labels generalizing out with
  | nil => exact Or.inl member
  | cons label rest ih =>
      rw [appendLabels] at member
      rcases ih member with early | dot | ⟨other, inRest, inside⟩
      · rw [List.mem_append, List.mem_append] at early
        rcases early with (before | dot) | inside
        · exact Or.inl before
        · split at dot
          · cases dot
          · exact Or.inr (Or.inl (List.mem_singleton.mp dot))
        · exact Or.inr (Or.inr ⟨label, List.mem_cons_self, inside⟩)
      · exact Or.inr (Or.inl dot)
      · exact Or.inr (Or.inr ⟨other, List.mem_cons_of_mem _ inRest, inside⟩)

/-- The text of labels without dots splits into the labels, in lower case. -/
theorem splitOn_appendLabels {labels : List Bytes} (valid : ∀ label ∈ labels, LabelOk label)
    (clean : CleanLabels labels) (nonempty : labels ≠ []) :
    (appendLabels [] labels).splitOn 46 = labels.map foldCase := by
  rw [appendLabels_intercalate valid, foldCase_intercalate]
  apply List.splitOn_intercalate
  · rw [List.forall_mem_map]
    intro label member
    simp only [foldCase, List.mem_map, tolower_eq_dot, exists_eq_right]
    exact (clean label member).1
  · simpa using nonempty

/-- Given room, the encoder writes the text of labels without dots as those labels in lower
case, and then compares the length with its limit. -/
theorem dnsNameEncode_appendLabels {labels : List Bytes}
    (valid : ∀ label ∈ labels, LabelOk label) (clean : CleanLabels labels) {cap : Nat}
    (room : (wireLabels labels).length + 1 ≤ cap) :
    dnsNameEncode (appendLabels [] labels) cap =
      if (wireLabels labels).length + 1 > dnsMaxName + 1 then
        .error (wireLabels (labels.map foldCase) ++ [0])
      else .ok (wireLabels (labels.map foldCase) ++ [0]) := by
  by_cases top : labels = []
  · subst top
    have text : appendLabels [] ([] : List Bytes) = [] := rfl
    rw [text, dnsNameEncode, if_pos (Or.inl rfl), if_neg (by simp at room; omega),
      if_neg (by decide)]
    rfl
  have pieces := splitOn_appendLabels valid clean top
  have inner : ¬ (appendLabels [] labels = [] ∨ appendLabels [] labels = [46]) := by
    rintro (empty | dot)
    · exact top ((appendLabels_eq_nil valid).mp empty)
    · rw [dot] at pieces
      have blank := (valid_map_foldCase valid [] (pieces ▸ by decide)).1
      cases blank
  have written := (encodeLabels_eq (by simpa using top) (valid_map_foldCase valid) (Or.inl rfl) cap
    []).1 (by simpa [length_wireLabels_map_foldCase] using room)
  rw [List.append_nil, List.nil_append] at written
  rw [dnsNameEncode, if_neg inner, pieces, written]
  simp only [length_wireLabels_map_foldCase]
  rw [if_neg (Nat.not_lt.mpr room)]

/-- A decoded name whose labels contain neither a dot nor a NUL is encoded, given room, and
decoded again to the same text just when its labels, their length bytes and the zero byte
take at most `DNS_MAX_NAME + 1` bytes. -/
theorem decoded_reencodes_iff {msg text : Bytes} {off pointers next : Nat} {labels : List Bytes}
    (decoded : dnsNameDecode msg msg.length off (dnsMaxName + 1) = some (text, next))
    (name : NameAt msg msg.length off labels pointers next) (clean : CleanLabels labels) :
    (∀ cap, text.length + 2 ≤ cap → ∃ encoded, dnsNameEncode text cap = .ok encoded ∧
      ∀ before after, dnsNameDecode (before ++ encoded ++ after)
        (before ++ encoded ++ after).length before.length (dnsMaxName + 1) =
          some (text, before.length + encoded.length)) ↔
      (wireLabels labels).length + 1 ≤ dnsMaxName + 1 := by
  obtain ⟨labels', _, name', _, rfl, short⟩ := dnsNameDecode_nameAt (Nat.le_refl _) decoded
  obtain ⟨rfl, -, -⟩ := name.unique name'
  have valid := name.valid (Nat.le_refl _)
  have wire := length_wireLabels_le valid
  constructor
  · intro encodes
    obtain ⟨encoded, accepted, _⟩ := encodes _ (Nat.le_refl _)
    rw [dnsNameEncode_appendLabels valid clean (by omega)] at accepted
    by_contra long
    rw [if_pos (Nat.not_le.mp long)] at accepted
    cases accepted
  · intro fits cap room
    refine ⟨wireLabels (labels'.map foldCase) ++ [0], ?_, fun before after => ?_⟩
    · rw [dnsNameEncode_appendLabels valid clean (by omega), if_neg (Nat.not_lt.mpr fits)]
    · have shape : before ++ (wireLabels (labels'.map foldCase) ++ [0]) ++ after =
          before ++ (wireLabels (labels'.map foldCase) ++ 0 :: after) := by simp
      rw [shape, dnsNameDecode_labels (valid_map_foldCase valid) (by simp)
        (by rwa [appendLabels_map_foldCase]), appendLabels_map_foldCase]
      simp [Nat.add_assoc]

/-- The name "A". -/
theorem decoded_reencodes_iff_example :
    (∀ cap, ([97] : Bytes).length + 2 ≤ cap → ∃ encoded, dnsNameEncode [97] cap = .ok encoded ∧
      ∀ before after, dnsNameDecode (before ++ encoded ++ after)
        (before ++ encoded ++ after).length before.length (dnsMaxName + 1) =
          some ([97], before.length + encoded.length)) ↔
      (wireLabels [[65]]).length + 1 ≤ dnsMaxName + 1 :=
  @decoded_reencodes_iff [1, 65, 0] [97] 0 0 3 [[65]] (by decide)
    (@NameAt.of_wireLabels [] [] [[65]] (by simp [LabelOk, dnsMaxLabel])) (by simp [CleanLabels])

/-- Four labels of the greatest length, 255 characters with their dots. -/
def longestLabels : List Bytes :=
  List.replicate 4 (List.replicate 63 97)

/-- They are decoded, but their 257 bytes are more than the encoder allows. -/
theorem longest_name_not_reencoded :
    dnsNameDecode (wireLabels longestLabels ++ [0]) 257 0 (dnsMaxName + 1) =
      some (appendLabels [] longestLabels, 257) ∧
    NameAt (wireLabels longestLabels ++ [0]) 257 0 longestLabels 0 257 ∧
    CleanLabels longestLabels ∧
    ¬ ∃ cap encoded, dnsNameEncode (appendLabels [] longestLabels) cap = .ok encoded := by
  have valid : ∀ label ∈ longestLabels, LabelOk label := by
    simp [longestLabels, LabelOk, dnsMaxLabel]
  have clean : CleanLabels longestLabels := by simp [CleanLabels, longestLabels]
  have wire : (wireLabels longestLabels).length = 256 := by
    have size : (List.replicate 63 (97 : UInt8)).length = 63 := List.length_replicate
    rw [longestLabels]
    generalize List.replicate 63 (97 : UInt8) = label at size ⊢
    simp only [List.replicate, wireLabels_cons, wireLabels_nil, List.length_append,
      List.length_cons, List.length_nil, size]
  have text : (appendLabels [] longestLabels).length = 255 := by decide +kernel
  refine ⟨?_, ?_, clean, ?_⟩
  · simpa [wire] using @dnsNameDecode_labels [] [] longestLabels 257 valid (by simp [wire])
      (Nat.le_of_eq text)
  · simpa [wire] using @NameAt.of_wireLabels [] [] longestLabels valid
  · rintro ⟨cap, encoded, accepted⟩
    obtain ⟨_, _, _, _, short, rooms⟩ := dnsNameEncode_ok accepted
    have ample := (rooms 257).1 (short.trans (by decide))
    rw [dnsNameEncode_appendLabels valid clean (by rw [wire]), wire, if_pos (by decide)] at ample
    cases ample

/-! ## Telling names apart -/

/-- `dns_name_decode` reads the name `name` at an offset where the message holds `labels`. -/
structure Decodes (msg : Bytes) (off : Nat) (name : DnsName) (labels : List Bytes) : Prop where
  accepted : ∃ next, decodeName msg msg.length off = some (name, next)
  expands : ∃ pointers next, NameAt msg msg.length off labels pointers next

/-- Labels on the wire whose text fits are read as that text. -/
theorem Decodes.of_wireLabels {labels : List Bytes} (valid : ∀ label ∈ labels, LabelOk label)
    (short : (appendLabels [] labels).length ≤ dnsMaxName) :
    Decodes (wireLabels labels ++ [0]) 0 (DnsName.ofText (appendLabels [] labels)) labels := by
  refine ⟨⟨(wireLabels labels).length + 1, ?_⟩, 0, _, @NameAt.of_wireLabels [] [] labels valid⟩
  have decoded := @dnsNameDecode_labels [] [] labels ((wireLabels labels).length + 1) valid
    (by simp) short
  rw [List.nil_append, List.length_nil, Nat.zero_add] at decoded
  rw [decodeName, List.length_append, List.length_singleton, decoded]
  rfl

/-- The labels of a decoded name have 1 to 63 bytes. -/
theorem Decodes.valid {msg : Bytes} {off : Nat} {name : DnsName} {labels : List Bytes}
    (decodes : Decodes msg off name labels) : ∀ label ∈ labels, LabelOk label := by
  obtain ⟨_, pointers, next, expands⟩ := decodes
  exact expands.valid (Nat.le_refl _)

/-- The C string of a decoded name is the text of its labels up to the first NUL. -/
theorem Decodes.chars {msg : Bytes} {off : Nat} {name : DnsName} {labels : List Bytes}
    (decodes : Decodes msg off name labels) :
    name.chars = (appendLabels [] labels).takeWhile (· ≠ 0) := by
  obtain ⟨⟨next, accepted⟩, pointers, stop, expands⟩ := decodes
  obtain ⟨⟨text, after⟩, decoded, same⟩ := Option.map_eq_some_iff.mp accepted
  obtain ⟨labels', _, expands', _, rfl, short⟩ := dnsNameDecode_nameAt (Nat.le_refl _) decoded
  obtain ⟨rfl, -, -⟩ := expands.unique expands'
  obtain ⟨rfl, -⟩ := Prod.mk.inj same
  exact DnsName.ofText_chars short

/-- Without NULs in the labels the C string is all of the text. -/
theorem Decodes.chars_of_clean {msg : Bytes} {off : Nat} {name : DnsName} {labels : List Bytes}
    (decodes : Decodes msg off name labels) (clean : CleanLabels labels) :
    name.chars = appendLabels [] labels := by
  rw [decodes.chars]
  apply CString.ofBuffer_chars_of_nulFree
  intro zero
  rcases mem_appendLabels zero with none | dot | ⟨label, member, inside⟩
  · cases none
  · cases dot
  · simp only [foldCase, List.mem_map, tolower_eq_zero, exists_eq_right] at inside
    exact (clean label member).2 inside

/-- Clean labels are determined, up to case, by the name that is read for them. -/
theorem Decodes.labels_eq {left right : Bytes} {leftOff rightOff : Nat} {name : DnsName}
    {leftLabels rightLabels : List Bytes} (first : Decodes left leftOff name leftLabels)
    (second : Decodes right rightOff name rightLabels) (leftClean : CleanLabels leftLabels)
    (rightClean : CleanLabels rightLabels) :
    leftLabels.map foldCase = rightLabels.map foldCase := by
  have same := (first.chars_of_clean leftClean).symm.trans (second.chars_of_clean rightClean)
  by_cases top : leftLabels = []
  · subst top
    rw [(appendLabels_eq_nil second.valid).mp same.symm]
  have other : rightLabels ≠ [] := by
    rintro rfl
    exact top ((appendLabels_eq_nil first.valid).mp same)
  rw [← splitOn_appendLabels first.valid leftClean top, same,
    splitOn_appendLabels second.valid rightClean other]

/-- Two names made of the allowed byte values and read as the same C string always have the
same labels up to case just when neither the dot nor NUL is allowed. -/
theorem decoded_names_distinct_iff (allowed : UInt8 → Prop) :
    (∀ (left right : Bytes) (leftOff rightOff : Nat) (leftName rightName : DnsName)
      (leftLabels rightLabels : List Bytes),
      Decodes left leftOff leftName leftLabels → Decodes right rightOff rightName rightLabels →
      (∀ label ∈ leftLabels, ∀ byte ∈ label, allowed byte) →
      (∀ label ∈ rightLabels, ∀ byte ∈ label, allowed byte) →
      leftName = rightName → leftLabels.map foldCase = rightLabels.map foldCase) ↔
    ¬ allowed 46 ∧ ¬ allowed 0 := by
  constructor
  · intro distinct
    constructor
    · -- the text of one label of three dots is that of two labels of one dot
      intro dot
      have one : Decodes [3, 46, 46, 46, 0] 0 (DnsName.ofText [46, 46, 46]) [[46, 46, 46]] :=
        @Decodes.of_wireLabels [[46, 46, 46]] (by simp [LabelOk, dnsMaxLabel]) (by decide)
      have two : Decodes [1, 46, 1, 46, 0] 0 (DnsName.ofText [46, 46, 46]) [[46], [46]] :=
        @Decodes.of_wireLabels [[46], [46]] (by simp [LabelOk, dnsMaxLabel]) (by decide)
      have same := distinct _ _ _ _ _ _ _ _ one two (by simpa using dot) (by simpa using dot) rfl
      cases same
    · -- both texts are empty as C strings
      intro zero
      have one : Decodes [1, 0, 0] 0 (DnsName.ofText []) [[0]] :=
        @Decodes.of_wireLabels [[0]] (by simp [LabelOk, dnsMaxLabel]) (by decide)
      have two : Decodes [2, 0, 0, 0] 0 (DnsName.ofText []) [[0, 0]] :=
        @Decodes.of_wireLabels [[0, 0]] (by simp [LabelOk, dnsMaxLabel]) (by decide)
      have same := distinct _ _ _ _ _ _ _ _ one two (by simpa using zero) (by simpa using zero) rfl
      cases same
  · rintro ⟨noDot, noZero⟩ left right leftOff rightOff leftName rightName leftLabels rightLabels
      first second leftBytes rightBytes rfl
    apply first.labels_eq second
    · exact fun label member => ⟨fun dot => noDot (leftBytes label member 46 dot),
        fun zero => noZero (leftBytes label member 0 zero)⟩
    · exact fun label member => ⟨fun dot => noDot (rightBytes label member 46 dot),
        fun zero => noZero (rightBytes label member 0 zero)⟩

/-- The single label "a.b" is read as the two labels of `a.b`, and the label "a\0b" as the
label of `a`. -/
theorem dotted_label_confused :
    Decodes [3, 97, 46, 98, 0] 0 (DnsName.ofText [97, 46, 98]) [[97, 46, 98]] ∧
    Decodes [1, 97, 1, 98, 0] 0 (DnsName.ofText [97, 46, 98]) [[97], [98]] ∧
    Decodes [3, 97, 0, 98, 0] 0 (DnsName.ofText [97]) [[97, 0, 98]] ∧
    Decodes [1, 97, 0] 0 (DnsName.ofText [97]) [[97]] ∧
    ¬ ∀ (left right : Bytes) (leftOff rightOff : Nat) (leftName rightName : DnsName)
      (leftLabels rightLabels : List Bytes),
      Decodes left leftOff leftName leftLabels → Decodes right rightOff rightName rightLabels →
      leftName = rightName → leftLabels.map foldCase = rightLabels.map foldCase := by
  have joined : Decodes [3, 97, 46, 98, 0] 0 (DnsName.ofText [97, 46, 98]) [[97, 46, 98]] :=
    @Decodes.of_wireLabels [[97, 46, 98]] (by simp [LabelOk, dnsMaxLabel]) (by decide)
  have split : Decodes [1, 97, 1, 98, 0] 0 (DnsName.ofText [97, 46, 98]) [[97], [98]] :=
    @Decodes.of_wireLabels [[97], [98]] (by simp [LabelOk, dnsMaxLabel]) (by decide)
  refine ⟨joined, split, ?_, ?_, fun distinct => ?_⟩
  · exact @Decodes.of_wireLabels [[97, 0, 98]] (by simp [LabelOk, dnsMaxLabel]) (by decide)
  · exact @Decodes.of_wireLabels [[97]] (by simp [LabelOk, dnsMaxLabel]) (by decide)
  · have same := distinct _ _ _ _ _ _ _ _ joined split rfl
    cases same

end FizzDns
