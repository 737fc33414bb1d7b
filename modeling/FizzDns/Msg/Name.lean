import FizzDns.Foundation.CString

/-!
# Domain names

The name routines of `dns_msg.c`. On the wire a name is a run of length-prefixed
labels closed by a zero byte, or by a compression pointer to an earlier offset.
In memory it is a dotted, lower-case C string in a `char[DNS_MAX_NAME + 1]`
buffer, the root being the empty string.

`dnsNameDecode` is the loop of the source on explicit state; every turn either
ends, takes one of the `maxPtrJumps` jumps or writes at least one character, so
the fuel it is started with is never what stops it (`nameDecodeLoop_fuel`).
-/

namespace FizzDns

/-- `DNS_MAX_NAME`. -/
def dnsMaxName : Nat := 255

/-- `DNS_MAX_LABEL`. -/
def dnsMaxLabel : Nat := 63

/-- `MAX_PTR_JUMPS`. -/
def maxPtrJumps : Nat := 32

/-- A name as the program stores it: a C string that fits a
`char[DNS_MAX_NAME + 1]` buffer. -/
structure DnsName extends CString where
  fits : chars.length ≤ dnsMaxName
  deriving DecidableEq

namespace DnsName

@[ext] theorem ext {left right : DnsName} (same : left.chars = right.chars) : left = right := by
  obtain ⟨⟨leftChars, _⟩, _⟩ := left
  obtain ⟨⟨rightChars, _⟩, _⟩ := right
  cases same
  rfl

/-- The root, the empty string. -/
def root : DnsName := ⟨CString.empty, Nat.zero_le _⟩

/-- What a name buffer holds, read as a C string, once `text` and a NUL were
written to it. -/
def ofText (text : Bytes) : DnsName where
  toCString := (CString.ofBuffer text).snprintf (dnsMaxName + 1)
  fits := CString.length_snprintf_le _ _

/-- A text that fits is kept up to its terminator. -/
theorem ofText_chars {text : Bytes} (fits : text.length ≤ dnsMaxName) :
    (ofText text).chars = text.takeWhile (· ≠ 0) := by
  have short : (CString.ofBuffer text).chars.length ≤ dnsMaxName + 1 - 1 :=
    (CString.length_ofBuffer_le text).trans fits
  change ((CString.ofBuffer text).snprintf (dnsMaxName + 1)).chars = _
  rw [CString.snprintf_of_fits short]
  rfl

/-- A text that fits and has no NUL is stored unchanged. -/
theorem ofText_chars_of_nulFree {text : Bytes} (fits : text.length ≤ dnsMaxName)
    (clean : 0 ∉ text) : (ofText text).chars = text := by
  rw [ofText_chars fits]
  exact CString.ofBuffer_chars_of_nulFree clean

end DnsName

/-! ## Decoding -/

/-- The loop of `dns_name_decode`. `out` holds the characters written so far,
`jumps` the pointers followed, and `after` the offset past the name in the
original stream once the first pointer has fixed it. -/
def nameDecodeLoop (msg : Bytes) (len outCap : Nat) :
    (fuel off : Nat) → (out : Bytes) → (jumps : Nat) → (after : Option Nat) → Option (Bytes × Nat)
  | 0, _, _, _, _ => none
  | fuel + 1, off, out, jumps, after =>
      if off ≥ len then none
      else
        let l := byteAt msg off
        if l = 0 then some (out, after.getD (off + 1))
        else if l &&& 0xC0 = 0xC0 then
          if off + 1 ≥ len then none
          else if jumps + 1 > maxPtrJumps then none
          else
            let target := (l &&& 0x3F).toNat * 256 + (byteAt msg (off + 1)).toNat
            -- pointers must go strictly backwards
            if target ≥ off then none
            else nameDecodeLoop msg len outCap fuel target out (jumps + 1)
              (some (after.getD (off + 2)))
        else if l &&& 0xC0 ≠ 0 then none
        else if l.toNat > dnsMaxLabel then none
        else if off + 1 + l.toNat > len then none
        else if out.length + (if out.length = 0 then 0 else 1) + l.toNat + 1 > outCap then none
        else if out.length + l.toNat > dnsMaxName then none
        else
          let dot := if out.length = 0 then [] else [46]
          let label := foldCase (slice msg (off + 1) l.toNat)
          nameDecodeLoop msg len outCap fuel (off + 1 + l.toNat) (out ++ dot ++ label) jumps after

/-- `dns_name_decode` on a buffer `out` of `outCap` bytes: the characters written
before the terminator and the offset past the name. -/
def dnsNameDecode (msg : Bytes) (len off outCap : Nat) : Option (Bytes × Nat) :=
  if outCap = 0 then none
  else nameDecodeLoop msg len outCap (outCap + maxPtrJumps + 1) off [] 0 none

/-- The call every parser makes: decode into a `char[DNS_MAX_NAME + 1]` buffer,
which is from then on read as a C string. -/
def decodeName (msg : Bytes) (len off : Nat) : Option (DnsName × Nat) :=
  (dnsNameDecode msg len off (dnsMaxName + 1)).map fun decoded =>
    (DnsName.ofText decoded.1, decoded.2)

/-! ## Encoding -/

/-- The label loop of `dns_name_encode` over the texts between the dots. A failing
run reports the bytes it had already written. -/
def encodeLabels (cap : Nat) : List Bytes → Bytes → Except Bytes Bytes
  | [], out => .ok out
  | label :: rest, out =>
      if label.length = 0 ∨ label.length > dnsMaxLabel then .error out
      else if out.length + 1 + label.length + 1 > cap then .error out
      else
        let out := out ++ UInt8.ofNat label.length :: label
        -- no further dot, or only the trailing one of "example.com."
        if rest = [] ∨ rest = [[]] then .ok out else encodeLabels cap rest out

/-- `dns_name_encode` of the C string `name` into `cap` bytes. -/
def dnsNameEncode (name : Bytes) (cap : Nat) : Except Bytes Bytes :=
  if name = [] ∨ name = [46] then
    if cap < 1 then .error [] else .ok [0]
  else
    match encodeLabels cap (name.splitOn 46) [] with
    | .error out => .error out
    | .ok out =>
        if out.length + 1 > cap then .error out
        else if out.length + 1 > dnsMaxName + 1 then .error (out ++ [0])
        else .ok (out ++ [0])

/-! ## Comparison -/

/-- `dns_name_equal`. -/
def dnsNameEqual : Bytes → Bytes → Bool
  | a :: as, b :: bs => if tolower a ≠ tolower b then false else dnsNameEqual as bs
  | [], [] => true
  | _, _ => false

/-- `dns_name_in_bailiwick`. -/
def dnsNameInBailiwick (name zone : Bytes) : Bool :=
  if zone = [] then true
  else if name.length = zone.length then dnsNameEqual name zone
  else if name.length < zone.length + 2 then false
  else byteAt name (name.length - zone.length - 1) = 46 &&
    dnsNameEqual (name.drop (name.length - zone.length)) zone

/-- Name equality is equality of the case-folded texts. -/
theorem dnsNameEqual_iff (left right : Bytes) :
    dnsNameEqual left right = true ↔ foldCase left = foldCase right := by
  induction left generalizing right with
  | nil => cases right <;> simp [dnsNameEqual, eq_comm]
  | cons head tail ih =>
      cases right with
      | nil => simp [dnsNameEqual]
      | cons other rest =>
          by_cases same : tolower head = tolower other
          · simp [dnsNameEqual, same, ih]
          · simp [dnsNameEqual, same]

@[simp] theorem dnsNameEqual_self (name : Bytes) : dnsNameEqual name name = true :=
  (dnsNameEqual_iff name name).mpr rfl

theorem dnsNameEqual_comm (left right : Bytes) :
    dnsNameEqual left right = dnsNameEqual right left := by
  rw [Bool.eq_iff_iff, dnsNameEqual_iff, dnsNameEqual_iff, eq_comm]

/-- Below a zone other than the root lies the zone itself and whatever ends with a
nonempty prefix, a dot and the zone. -/
theorem dnsNameInBailiwick_iff (name zone : Bytes) :
    dnsNameInBailiwick name zone = true ↔
      zone = [] ∨ foldCase name = foldCase zone ∨
        ∃ front rest, front ≠ [] ∧ name = front ++ 46 :: rest ∧ foldCase rest = foldCase zone := by
  unfold dnsNameInBailiwick
  by_cases top : zone = []
  · simp [top]
  by_cases sameLength : name.length = zone.length
  · simp only [top, ↓reduceIte, sameLength, dnsNameEqual_iff, false_or]
    constructor
    · exact Or.inl
    · rintro (equal | ⟨front, rest, nonempty, rfl, equal⟩)
      · exact equal
      · have lengths := congrArg List.length equal
        simp only [length_foldCase] at lengths
        simp only [List.length_append, List.length_cons] at sameLength
        omega
  by_cases short : name.length < zone.length + 2
  · simp only [top, ↓reduceIte, sameLength, short, Bool.false_eq_true, false_or, false_iff,
      not_or, not_exists, not_and]
    refine ⟨fun equal => ?_, ?_⟩
    · have lengths := congrArg List.length equal
      simp only [length_foldCase] at lengths
      exact sameLength lengths
    · rintro front rest nonempty rfl equal
      have lengths := congrArg List.length equal
      have positive := List.length_pos_iff.mpr nonempty
      simp only [length_foldCase] at lengths
      simp only [List.length_append, List.length_cons] at short
      omega
  simp only [top, ↓reduceIte, sameLength, short, Bool.and_eq_true, decide_eq_true_eq,
    dnsNameEqual_iff, false_or]
  constructor
  · rintro ⟨dot, equal⟩
    refine Or.inr ⟨name.take (name.length - zone.length - 1),
      name.drop (name.length - zone.length), ?_, ?_, equal⟩
    · intro empty
      have lengths := congrArg List.length empty
      simp only [List.length_take, List.length_nil] at lengths
      omega
    · have bound : name.length - zone.length - 1 < name.length := by omega
      have split := List.drop_eq_getElem_cons bound
      rw [show name.length - zone.length - 1 + 1 = name.length - zone.length by omega] at split
      have letter : name[name.length - zone.length - 1] = 46 := by
        simpa [byteAt, List.getD_eq_getElem?_getD, List.getElem?_eq_getElem bound] using dot
      rw [letter] at split
      rw [← split, List.take_append_drop]
  · rintro (equal | ⟨front, rest, nonempty, rfl, equal⟩)
    · have lengths := congrArg List.length equal
      simp only [length_foldCase] at lengths
      exact (sameLength lengths).elim
    · have lengths := congrArg List.length equal
      simp only [length_foldCase] at lengths
      have position : (front ++ 46 :: rest).length - zone.length - 1 = front.length + 0 := by
        simp only [List.length_append, List.length_cons]
        omega
      have start : (front ++ 46 :: rest).length - zone.length = front.length + 1 := by
        simp only [List.length_append, List.length_cons]
        omega
      rw [position, start, byteAt_append_right]
      refine ⟨rfl, ?_⟩
      rw [List.drop_append, List.drop_eq_nil_of_le (Nat.le_succ _)]
      simpa using equal

/-- Bailiwick depends on its arguments only up to case. -/
theorem dnsNameInBailiwick_congr {name name' zone zone' : Bytes}
    (sameName : foldCase name = foldCase name') (sameZone : foldCase zone = foldCase zone') :
    dnsNameInBailiwick name zone = dnsNameInBailiwick name' zone' := by
  have oneWay : ∀ {a a' z z' : Bytes}, foldCase a = foldCase a' → foldCase z = foldCase z' →
      dnsNameInBailiwick a z = true → dnsNameInBailiwick a' z' = true := by
    intro a a' z z' names zones inside
    rw [dnsNameInBailiwick_iff] at inside ⊢
    rcases inside with top | equal | ⟨front, rest, nonempty, rfl, equal⟩
    · refine Or.inl ?_
      rw [top] at zones
      exact (foldCase_eq_nil z').mp zones.symm
    · exact Or.inr (Or.inl (names.symm.trans (equal.trans zones)))
    · right
      right
      rw [foldCase_append, foldCase_cons] at names
      obtain ⟨left, tail, rfl, leftFold, tailFold⟩ := List.map_eq_append_iff.mp names.symm
      obtain ⟨dot, rest', rfl, dotFold, restFold⟩ := List.map_eq_cons_iff.mp tailFold
      refine ⟨left, rest', ?_, ?_, ?_⟩
      · rintro rfl
        exact nonempty ((foldCase_eq_nil front).mp leftFold.symm)
      · rw [(tolower_eq_dot dot).mp dotFold]
      · exact restFold.trans (equal.trans zones)
  rw [Bool.eq_iff_iff]
  exact ⟨oneWay sameName sameZone, oneWay sameName.symm sameZone.symm⟩

end FizzDns
