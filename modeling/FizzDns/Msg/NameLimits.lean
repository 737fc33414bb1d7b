import FizzDns.Msg.NameGrammar

/-!
# What names are accepted, and how long they are

`dns_name_decode` accepts the names of `NameAt` and no others, as long as a name uses at most
`MAX_PTR_JUMPS` pointers and its text has at most `DNS_MAX_NAME` characters
(`dnsNameDecode_iff_nameAt`).

On the wire a name takes two octets more than its dotted text: the length byte of the first
label and the zero byte. Neither limit of the code accounts for both, so names of up to 257
octets are accepted (`wire_octets_limited_iff`).
-/

namespace FizzDns

/-! ## Completeness of the decoder -/

section Turn

variable {msg out : Bytes} {len outCap fuel off jumps : Nat} {after : Option Nat}

/-- A turn of the loop at a zero byte. -/
theorem nameDecodeLoop_zero (inside : off < len) (zero : byteAt msg off = 0) :
    nameDecodeLoop msg len outCap (fuel + 1) off out jumps after =
      some (out, after.getD (off + 1)) := by
  rw [nameDecodeLoop, if_neg (Nat.not_le.mpr inside)]
  exact if_pos zero

/-- A turn of the loop at a pointer that may be followed. -/
theorem nameDecodeLoop_pointer (inside : off + 1 < len) (marked : byteAt msg off &&& 0xC0 = 0xC0)
    (few : jumps + 1 ≤ maxPtrJumps) (backwards : pointerTarget msg off < off) :
    nameDecodeLoop msg len outCap (fuel + 1) off out jumps after =
      nameDecodeLoop msg len outCap fuel (pointerTarget msg off) out (jumps + 1)
        (some (after.getD (off + 2))) := by
  have nonzero : byteAt msg off ≠ 0 := by
    intro zero
    rw [zero] at marked
    cases marked
  rw [nameDecodeLoop, if_neg (by omega)]
  simp only
  rw [if_neg nonzero, if_pos marked, if_neg (Nat.not_le.mpr inside), if_neg (Nat.not_lt.mpr few)]
  exact if_neg (Nat.not_le.mpr backwards)

/-- A turn of the loop at a label whose text still fits. -/
theorem nameDecodeLoop_slice (whole : len ≤ msg.length)
    (positive : 1 ≤ (byteAt msg off).toNat) (short : (byteAt msg off).toNat ≤ dnsMaxLabel)
    (inside : off + 1 + (byteAt msg off).toNat ≤ len)
    (fits : (out ++ (if out.length = 0 then [] else [46]) ++
      foldCase (slice msg (off + 1) (byteAt msg off).toNat)).length < outCap)
    (limited : (out ++ (if out.length = 0 then [] else [46]) ++
      foldCase (slice msg (off + 1) (byteAt msg off).toNat)).length ≤ dnsMaxName) :
    nameDecodeLoop msg len outCap (fuel + 1) off out jumps after =
      nameDecodeLoop msg len outCap fuel (off + 1 + (byteAt msg off).toNat)
        (out ++ (if out.length = 0 then [] else [46]) ++
          foldCase (slice msg (off + 1) (byteAt msg off).toNat)) jumps after := by
  have nonzero : byteAt msg off ≠ 0 := by
    intro zero
    rw [zero] at positive
    cases positive
  have bits := plain_length short
  rw [length_append_label, length_slice (inside.trans whole)] at fits limited
  rw [nameDecodeLoop, if_neg (by omega)]
  simp only
  rw [if_neg nonzero, if_neg (by rw [bits]; decide), if_neg (not_not.mpr bits),
    if_neg (Nat.not_lt.mpr short), if_neg (Nat.not_lt.mpr inside), if_neg (by omega),
    if_neg (by omega)]

end Turn

/-- The loop reads every name in front of it that has pointers and characters to spare. -/
theorem NameAt.nameDecodeLoop_eq {msg out : Bytes} {len outCap fuel off jumps pointers next : Nat}
    {labels : List Bytes} {after : Option Nat} (whole : len ≤ msg.length)
    (name : NameAt msg len off labels pointers next) (few : jumps + pointers ≤ maxPtrJumps)
    (fits : (appendLabels out labels).length < outCap)
    (limited : (appendLabels out labels).length ≤ dnsMaxName)
    (enough : labels.length + pointers < fuel) :
    nameDecodeLoop msg len outCap fuel off out jumps after =
      some (appendLabels out labels, after.getD next) := by
  induction name generalizing out jumps after fuel with
  | root inside zero =>
      obtain ⟨fuel, rfl⟩ := Nat.exists_eq_succ_of_ne_zero (Nat.ne_of_gt enough)
      exact nameDecodeLoop_zero inside zero
  | label positive short inside rest ih =>
      obtain ⟨fuel, rfl⟩ := Nat.exists_eq_succ_of_ne_zero (Nat.ne_of_gt (Nat.zero_lt_of_lt enough))
      rw [appendLabels] at fits limited
      have grows := length_le_appendLabels _ _ |>.trans_lt fits
      have stays := (length_le_appendLabels _ _).trans limited
      rw [nameDecodeLoop_slice whole positive short inside grows stays]
      apply ih few fits limited
      rw [List.length_cons] at enough
      omega
  | pointer inside marked backwards rest ih =>
      obtain ⟨fuel, rfl⟩ := Nat.exists_eq_succ_of_ne_zero (Nat.ne_of_gt (Nat.zero_lt_of_lt enough))
      rw [nameDecodeLoop_pointer inside marked (by omega) backwards]
      apply ih
      · omega
      · exact fits
      · exact limited
      · omega

/-- The text has as many characters as the labels joined by dots. -/
theorem NameAt.length_text {msg : Bytes} {len off pointers next : Nat} {labels : List Bytes}
    (name : NameAt msg len off labels pointers next) (whole : len ≤ msg.length) :
    (appendLabels [] labels).length = ([46].intercalate labels).length := by
  rw [appendLabels_intercalate (name.valid whole), length_foldCase]

/-- A name within the limits is decoded. -/
theorem NameAt.dnsNameDecode_eq {msg : Bytes} {len off pointers next : Nat} {labels : List Bytes}
    (name : NameAt msg len off labels pointers next) (whole : len ≤ msg.length)
    (few : pointers ≤ maxPtrJumps) (limited : (appendLabels [] labels).length ≤ dnsMaxName) :
    dnsNameDecode msg len off (dnsMaxName + 1) = some (appendLabels [] labels, next) := by
  have many := length_le_appendLabels_of_valid (name.valid whole) []
  rw [List.length_nil, Nat.zero_add] at many
  rw [dnsNameDecode, if_neg (by decide)]
  apply name.nameDecodeLoop_eq whole
  · rwa [Nat.zero_add]
  · exact Nat.lt_succ_of_le limited
  · exact limited
  · omega

/-- `dns_name_decode` accepts exactly the names of a message with at most `MAX_PTR_JUMPS`
pointers and at most `DNS_MAX_NAME` characters. The text is the labels joined by dots, in
lower case. -/
theorem dnsNameDecode_iff_nameAt {msg : Bytes} {len : Nat} (whole : len ≤ msg.length)
    (off : Nat) (text : Bytes) (next : Nat) :
    dnsNameDecode msg len off (dnsMaxName + 1) = some (text, next) ↔
      ∃ labels pointers, NameAt msg len off labels pointers next ∧ pointers ≤ maxPtrJumps ∧
        ([46].intercalate labels).length ≤ dnsMaxName ∧
        text = foldCase ([46].intercalate labels) := by
  constructor
  · intro decoded
    obtain ⟨labels, pointers, name, few, rfl, limited⟩ := dnsNameDecode_nameAt whole decoded
    rw [appendLabels_intercalate (name.valid whole)] at limited ⊢
    rw [length_foldCase] at limited
    exact ⟨labels, pointers, name, few, limited, rfl⟩
  · rintro ⟨labels, pointers, name, few, limited, rfl⟩
    have shown := appendLabels_intercalate (name.valid whole)
    rw [← length_foldCase, ← shown] at limited
    rw [← shown]
    exact name.dnsNameDecode_eq whole few limited

/-- The name `a.b` as the label "A" and a pointer to the label "b", inside a longer buffer. -/
theorem dnsNameDecode_iff_nameAt_compressed :
    dnsNameDecode [1, 98, 0, 1, 65, 192, 0, 9] 7 3 (dnsMaxName + 1) = some ([97, 46, 98], 7) ↔
      ∃ labels pointers, NameAt [1, 98, 0, 1, 65, 192, 0, 9] 7 3 labels pointers 7 ∧
        pointers ≤ maxPtrJumps ∧ ([46].intercalate labels).length ≤ dnsMaxName ∧
        [97, 46, 98] = foldCase ([46].intercalate labels) :=
  dnsNameDecode_iff_nameAt (by decide) 3 [97, 46, 98] 7

/-! ## Octets on the wire -/

/-- Labels with their length bytes are one octet longer than the labels joined by dots. -/
theorem length_wireLabels {labels : List Bytes} (nonempty : labels ≠ []) :
    (wireLabels labels).length = ([46].intercalate labels).length + 1 := by
  induction labels with
  | nil => exact absurd rfl nonempty
  | cons label rest ih =>
      cases rest with
      | nil => simp
      | cons following rest =>
          rw [wireLabels_cons, List.intercalate_cons_cons]
          simp only [List.length_append, List.length_cons, List.length_nil, ih (by simp)]
          omega

/-- A name and its zero byte take more than `DNS_MAX_NAME` octets just when the dotted text
leaves fewer than two of them free. -/
theorem octets_exceed_iff (labels : List Bytes) :
    dnsMaxName < (wireLabels labels ++ [0]).length ↔
      dnsMaxName < ([46].intercalate labels).length + 2 := by
  rw [List.length_append, List.length_singleton]
  by_cases top : labels = []
  · subst top
    exact ⟨fun long => absurd long (by decide), fun long => absurd long (by decide)⟩
  · rw [length_wireLabels top]

/-- The texts between the dots of a name, its trailing dot apart, all have the length of a
label. -/
def LabelsOk (name : Bytes) : Prop :=
  ∀ label ∈ (trimDot name).splitOn 46, LabelOk label

/-- The texts between the dots of a name with a trailing dot end with an empty one. -/
theorem splitOn_trimDot (name : Bytes) :
    ∃ tail, (tail = [] ∨ tail = [[]]) ∧ name.splitOn 46 = (trimDot name).splitOn 46 ++ tail := by
  unfold trimDot
  split
  · next dotted =>
      obtain ⟨body, rfl⟩ := List.getLast?_eq_some_iff.mp dotted
      refine ⟨[[]], Or.inr rfl, ?_⟩
      rw [List.dropLast_concat]
      exact List.splitOn_append_cons_self body []
  · exact ⟨[], Or.inl rfl, (List.append_nil _).symm⟩

/-- Given room, `dns_name_encode` writes the labels of a name that leaves one of the octets
of `DNS_MAX_NAME` free. -/
theorem dnsNameEncode_of_labelsOk {name : Bytes} {cap : Nat} (valid : LabelsOk name)
    (nonempty : trimDot name ≠ []) (limited : (trimDot name).length < dnsMaxName)
    (room : (trimDot name).length + 2 ≤ cap) :
    ∃ encoded, dnsNameEncode name cap = .ok encoded ∧
      encoded.length = (trimDot name).length + 2 := by
  obtain ⟨tail, ends, pieces⟩ := splitOn_trimDot name
  have some : (trimDot name).splitOn 46 ≠ [] := List.splitOn_ne_nil _ _
  have size := length_wireLabels some
  rw [List.intercalate_splitOn] at size
  have written := (encodeLabels_eq some valid ends cap []).1
    (by rw [List.length_nil, size]; omega)
  have inner : ¬ (name = [] ∨ name = [46]) := by
    rintro (rfl | rfl)
    · exact nonempty rfl
    · exact nonempty rfl
  refine ⟨wireLabels ((trimDot name).splitOn 46) ++ [0], ?_, ?_⟩
  · rw [dnsNameEncode, if_neg inner, pieces, written]
    simp only [List.nil_append]
    rw [if_neg (by omega), if_neg (by omega)]
  · rw [List.length_append, List.length_singleton, size]

/-- What `dns_name_encode` writes for a name other than the root is two octets longer than
the name without its trailing dot. -/
theorem length_dnsNameEncode {name encoded : Bytes} {cap : Nat}
    (accepted : dnsNameEncode name cap = .ok encoded) (long : 1 < encoded.length) :
    encoded.length = (trimDot name).length + 2 := by
  obtain ⟨labels, valid, rfl, shown, _⟩ := dnsNameEncode_ok accepted
  have some : labels ≠ [] := by
    rintro rfl
    exact absurd long (by decide)
  rw [appendLabels_intercalate valid] at shown
  have size := congrArg List.length shown
  rw [length_foldCase, length_foldCase] at size
  rw [List.length_append, List.length_singleton, length_wireLabels some, size]

/-- A name other than the root that `dns_name_encode` accepts is made of labels. -/
theorem labelsOk_of_dnsNameEncode {name encoded : Bytes} {cap : Nat}
    (accepted : dnsNameEncode name cap = .ok encoded) (inner : ¬ (name = [] ∨ name = [46])) :
    LabelsOk name := by
  rw [dnsNameEncode, if_neg inner] at accepted
  cases looped : encodeLabels cap (name.splitOn 46) [] with
  | error wrote =>
      rw [looped] at accepted
      cases accepted
  | ok out =>
      obtain ⟨used, tail, split, ends, nonempty, allowed⟩ :=
        encodeLabels_ok (List.splitOn_ne_nil _ _) looped
      obtain ⟨tail', ends', split'⟩ := splitOn_trimDot name
      have joined := length_wireLabels nonempty
      have pieces := length_wireLabels (List.splitOn_ne_nil 46 (trimDot name))
      rw [intercalate_used split ends nonempty allowed] at joined
      rw [List.intercalate_splitOn, ← joined] at pieces
      -- both splittings set aside at most the empty text behind a trailing dot
      have same : used ++ tail = (trimDot name).splitOn 46 ++ tail' := split.symm.trans split'
      suffices used = (trimDot name).splitOn 46 by
        rwa [this] at allowed
      rcases ends with rfl | rfl
      · rcases ends' with rfl | rfl
        · simpa using same
        · rw [List.append_nil] at same
          have empty := (allowed [] (same ▸ by simp)).1
          cases empty
      · rcases ends' with rfl | rfl
        · rw [List.append_nil] at same
          rw [← same, wireLabels, List.flatMap_append] at pieces
          simp [wireLabels] at pieces
        · exact List.append_cancel_right same

/-- The encoder writes at most `DNS_MAX_NAME` octets unless the name, its trailing dot apart, has
254 characters and labels of the right length. -/
theorem encoded_octets_iff (name : Bytes) :
    (∀ cap encoded, dnsNameEncode name cap = .ok encoded → encoded.length ≤ dnsMaxName) ↔
      ¬ ((trimDot name).length = 254 ∧ LabelsOk name) := by
  constructor
  · rintro limited ⟨length, valid⟩
    obtain ⟨encoded, accepted, size⟩ := dnsNameEncode_of_labelsOk valid
      (List.ne_nil_of_length_pos (by omega)) (by rw [length]; decide) (Nat.le_refl _)
    have small := limited _ encoded accepted
    rw [size, length] at small
    exact absurd small (by decide)
  · intro other cap encoded accepted
    by_contra exceeds
    have exceeds := Nat.not_le.mp exceeds
    have long : 1 < encoded.length := Nat.lt_trans (by decide) exceeds
    have size := length_dnsNameEncode accepted long
    obtain ⟨_, _, _, _, bounded, _⟩ := dnsNameEncode_ok accepted
    have length : (trimDot name).length = 254 := by
      rw [dnsMaxName] at exceeds bounded
      omega
    apply other
    refine ⟨length, labelsOk_of_dnsNameEncode accepted ?_⟩
    rintro (rfl | rfl) <;> cases length

/-- The decoder accepts names of at most `DNS_MAX_NAME` octets unless the labels it reads join to
254 or 255 characters. -/
theorem decoded_octets_iff (msg : Bytes) (off : Nat) :
    (∀ text next labels pointers,
      dnsNameDecode msg msg.length off (dnsMaxName + 1) = some (text, next) →
      NameAt msg msg.length off labels pointers next →
      (wireLabels labels ++ [0]).length ≤ dnsMaxName) ↔
    ∀ labels pointers next, NameAt msg msg.length off labels pointers next →
      pointers ≤ maxPtrJumps →
      ([46].intercalate labels).length ≠ 254 ∧ ([46].intercalate labels).length ≠ 255 := by
  constructor
  · intro limited labels pointers next name few
    by_contra near
    have bounds : 254 ≤ ([46].intercalate labels).length ∧
        ([46].intercalate labels).length ≤ 255 := by omega
    have decoded := name.dnsNameDecode_eq (Nat.le_refl _) few
      ((name.length_text (Nat.le_refl _)).le.trans bounds.2)
    have long := (octets_exceed_iff labels).mpr (by rw [dnsMaxName]; omega)
    exact Nat.not_le.mpr long (limited _ next labels pointers decoded name)
  · intro other text next labels pointers decoded name
    obtain ⟨labels', pointers', name', few, rfl, bounded⟩ :=
      dnsNameDecode_nameAt (Nat.le_refl _) decoded
    rw [name'.length_text (Nat.le_refl _)] at bounded
    obtain ⟨rfl, rfl, -⟩ := name.unique name'
    obtain ⟨not254, not255⟩ := other labels' pointers' next name few
    by_contra exceeds
    have long := (octets_exceed_iff labels').mp (Nat.not_le.mp exceeds)
    rw [dnsMaxName] at long bounded
    omega

/-- **Octets on the wire.** When the encoder and the decoder keep to `DNS_MAX_NAME` octets. -/
theorem wire_octets_limited_iff (name msg : Bytes) (off : Nat) :
    ((∀ cap encoded, dnsNameEncode name cap = .ok encoded → encoded.length ≤ dnsMaxName) ↔
      ¬ ((trimDot name).length = 254 ∧ LabelsOk name)) ∧
    ((∀ text next labels pointers,
      dnsNameDecode msg msg.length off (dnsMaxName + 1) = some (text, next) →
      NameAt msg msg.length off labels pointers next →
      (wireLabels labels ++ [0]).length ≤ dnsMaxName) ↔
    ∀ labels pointers next, NameAt msg msg.length off labels pointers next →
      pointers ≤ maxPtrJumps →
      ([46].intercalate labels).length ≠ 254 ∧ ([46].intercalate labels).length ≠ 255) :=
  ⟨encoded_octets_iff name, decoded_octets_iff msg off⟩

/-- Four labels that join to 254 characters. -/
def overlongLabels : List Bytes :=
  List.replicate 3 (List.replicate 63 97) ++ [List.replicate 62 97]

/-- The encoder writes 256 octets for 254 characters, and the decoder accepts a name of four
labels of 63 characters, which is 257 octets long. -/
theorem overlong_names_accepted :
    (∃ encoded, dnsNameEncode ([46].intercalate overlongLabels) 300 = .ok encoded ∧
      dnsMaxName < encoded.length) ∧
    (∃ text next labels pointers,
      dnsNameDecode (wireLabels longestLabels ++ [0]) (wireLabels longestLabels ++ [0]).length 0
        (dnsMaxName + 1) = some (text, next) ∧
      NameAt (wireLabels longestLabels ++ [0]) (wireLabels longestLabels ++ [0]).length 0 labels
        pointers next ∧
      dnsMaxName < (wireLabels labels ++ [0]).length) := by
  have valid : ∀ label ∈ longestLabels, LabelOk label := by
    simp [longestLabels, LabelOk, dnsMaxLabel]
  have name := @NameAt.of_wireLabels [] [] longestLabels valid
  have text : ([46].intercalate longestLabels).length = 255 := by decide +kernel
  constructor
  · exact ⟨wireLabels overlongLabels ++ [0], by decide +kernel, by decide +kernel⟩
  · have decoded := name.dnsNameDecode_eq (Nat.le_refl _) (by decide)
      ((name.length_text (Nat.le_refl _)).trans text).le
    refine ⟨_, _, longestLabels, 0, decoded, name, ?_⟩
    rw [octets_exceed_iff, text]
    decide

end FizzDns
