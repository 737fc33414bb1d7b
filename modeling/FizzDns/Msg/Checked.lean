import FizzDns.Foundation.Access
import FizzDns.Msg.NameLimits
import FizzDns.Msg.Parse

/-!
# The parsers with checked accesses

The parsers of `dns_msg.c` once more, with every read of the message and every store to a buffer
made through a checked access, in the order of the source. Each of them is equal to its plain
model (`dnsNameDecodeChecked_eq` and the theorems behind it), so no call reads at or behind `len`,
stores outside a buffer or loops for ever, whatever the bytes and wherever it starts.
-/

namespace FizzDns

/-! ## Names -/

/-- The copy loop of `dns_name_decode`. -/
def copyLabel (msg : Bytes) (len outCap : Nat) : (count off : Nat) → (out : Bytes) → Checked Bytes
  | 0, _, out => pure out
  | count + 1, off, out => do
      let c ← readByte msg len off
      let out ← push outCap out (tolower c)
      copyLabel msg len outCap count (off + 1) out

/-- The dot before a label, except the first. -/
def pushDot (outCap : Nat) (out : Bytes) : Checked Bytes :=
  if out.length = 0 then pure out else push outCap out 46

/-- The loop of `dns_name_decode`. -/
def nameDecodeLoopChecked (msg : Bytes) (len outCap : Nat) :
    (fuel off : Nat) → (out : Bytes) → (jumps : Nat) → (after : Option Nat) →
      Checked (Option (Bytes × Nat))
  | 0, _, _, _, _ => .error .endless
  | fuel + 1, off, out, jumps, after =>
      if off ≥ len then pure none
      else do
        let l ← readByte msg len off
        if l = 0 then do
          -- the terminator
          storeAt outCap out.length
          pure (some (out, after.getD (off + 1)))
        else if l &&& 0xC0 = 0xC0 then
          if off + 1 ≥ len then pure none
          else if jumps + 1 > maxPtrJumps then pure none
          else do
            let low ← readByte msg len (off + 1)
            let target := (l &&& 0x3F).toNat * 256 + low.toNat
            if target ≥ off then pure none
            else
              nameDecodeLoopChecked msg len outCap fuel target out (jumps + 1)
                (some (after.getD (off + 2)))
        else if l &&& 0xC0 ≠ 0 then pure none
        else if l.toNat > dnsMaxLabel then pure none
        else if off + 1 + l.toNat > len then pure none
        else if out.length + (if out.length = 0 then 0 else 1) + l.toNat + 1 > outCap then pure none
        else if out.length + l.toNat > dnsMaxName then pure none
        else do
          let dotted ← pushDot outCap out
          let grown ← copyLabel msg len outCap l.toNat (off + 1) dotted
          nameDecodeLoopChecked msg len outCap fuel (off + 1 + l.toNat) grown jumps after

/-- `dns_name_decode`. -/
def dnsNameDecodeChecked (msg : Bytes) (len off outCap : Nat) : Checked (Option (Bytes × Nat)) :=
  if outCap = 0 then pure none
  else do
    storeAt outCap 0
    nameDecodeLoopChecked msg len outCap (outCap + maxPtrJumps + 1) off [] 0 none

/-- The call every parser makes. -/
def decodeNameChecked (msg : Bytes) (len off : Nat) : Checked (Option (DnsName × Nat)) := do
  match ← dnsNameDecodeChecked msg len off (dnsMaxName + 1) with
  | none => pure none
  | some (text, next) => pure (some (DnsName.ofText text, next))

section

variable {msg : Bytes} {len : Nat}

/-- The loop that copies a label stays inside the message and the buffer. -/
theorem copyLabel_eq (whole : len ≤ msg.length) {outCap count off : Nat} {out : Bytes}
    (inside : off + count ≤ len) (room : out.length + count ≤ outCap) :
    copyLabel msg len outCap count off out = .ok (out ++ foldCase (slice msg off count)) := by
  induction count generalizing off out with
  | zero => simp [copyLabel, slice, pure, Except.pure]
  | succ count ih =>
      have first : slice msg off (count + 1) = byteAt msg off :: slice msg (off + 1) count := by
        rw [Nat.add_comm, slice_add, slice_one (by omega)]
        rfl
      rw [copyLabel, readByte_eq (by omega), Checked.ok_bind, push_eq (by omega), Checked.ok_bind,
        ih (by omega) (by rw [List.length_append, List.length_singleton]; omega), first]
      simp

/-- There is room for the dot between labels. -/
theorem pushDot_eq {outCap : Nat} {out : Bytes} (room : out.length < outCap) :
    pushDot outCap out = .ok (out ++ if out.length = 0 then [] else [46]) := by
  unfold pushDot
  split
  · rw [List.append_nil]
    rfl
  · exact push_eq room 46

/-- The loop of `dns_name_decode` makes no access that is out of bounds, and the fuel is enough for
it. -/
theorem nameDecodeLoopChecked_eq (whole : len ≤ msg.length) {outCap fuel off jumps : Nat}
    {out : Bytes} {after : Option Nat} (room : out.length < outCap)
    (enough : outCap - out.length + (maxPtrJumps - jumps) < fuel) :
    nameDecodeLoopChecked msg len outCap fuel off out jumps after =
      .ok (nameDecodeLoop msg len outCap fuel off out jumps after) := by
  induction fuel generalizing off out jumps after with
  | zero => omega
  | succ fuel ih =>
      rw [nameDecodeLoopChecked, nameDecodeLoop]
      apply Checked.guard
      intro inside
      rw [readByte_eq (Nat.not_le.mp inside), Checked.ok_bind]
      apply Checked.branch
      · intro _
        rw [storeAt_eq room]
        rfl
      intro nonzero
      apply Checked.branch
      · intro _
        apply Checked.guard
        intro more
        apply Checked.guard
        intro hops
        rw [readByte_eq (Nat.not_le.mp more), Checked.ok_bind]
        apply Checked.guard
        intro _
        exact ih room (by omega)
      intro _
      apply Checked.guard
      intro _
      apply Checked.guard
      intro _
      apply Checked.guard
      intro within
      apply Checked.guard
      intro fits
      apply Checked.guard
      intro _
      have positive : (byteAt msg off).toNat ≠ 0 := fun none => nonzero (UInt8.toNat_inj.mp none)
      have size : (slice msg (off + 1) (byteAt msg off).toNat).length = (byteAt msg off).toNat :=
        length_slice (by omega)
      have copied : copyLabel msg len outCap (byteAt msg off).toNat (off + 1)
          (out ++ if out.length = 0 then [] else [46]) =
            .ok (out ++ (if out.length = 0 then [] else [46]) ++
              foldCase (slice msg (off + 1) (byteAt msg off).toNat)) := by
        apply copyLabel_eq whole (by omega)
        have dot : (if out.length = 0 then ([] : Bytes) else [46]).length =
            if out.length = 0 then 0 else 1 := by
          split <;> rfl
        rw [List.length_append, dot]
        omega
      rw [pushDot_eq room, Checked.ok_bind, copied, Checked.ok_bind]
      apply ih <;>
        · rw [length_append_label, size]
          omega

/-- **Names.** `dns_name_decode` reads below `len`, stores inside its buffer and ends. -/
theorem dnsNameDecodeChecked_eq (whole : len ≤ msg.length) (off outCap : Nat) :
    dnsNameDecodeChecked msg len off outCap = .ok (dnsNameDecode msg len off outCap) := by
  unfold dnsNameDecodeChecked dnsNameDecode
  split
  · rfl
  next some =>
  rw [storeAt_eq (by omega), Checked.ok_bind]
  exact nameDecodeLoopChecked_eq whole (Nat.pos_of_ne_zero some) (by simp)

/-- So `dns_name_decode` makes none at any offset. -/
theorem decodeNameChecked_eq (whole : len ≤ msg.length) (off : Nat) :
    decodeNameChecked msg len off = .ok (decodeName msg len off) := by
  rw [decodeNameChecked, dnsNameDecodeChecked_eq whole, Checked.ok_bind, decodeName]
  cases dnsNameDecode msg len off (dnsMaxName + 1) <;> rfl

end

/-! ## Header, question, record and query -/

/-- `dns_parse_header`. -/
def dnsParseHeaderChecked (msg : Bytes) (len : Nat) : Checked (Option DnsHeader) :=
  if len < dnsHdrLen then pure none
  else do
    let id ← readWord16 msg len 0
    let flags ← readWord16 msg len 2
    let qdcount ← readWord16 msg len 4
    let ancount ← readWord16 msg len 6
    let nscount ← readWord16 msg len 8
    let arcount ← readWord16 msg len 10
    pure (some ⟨id, flags, qdcount, ancount, nscount, arcount⟩)

/-- `dns_skip_question`. -/
def dnsSkipQuestionChecked (msg : Bytes) (len off : Nat) : Checked (Option Nat) := do
  match ← decodeNameChecked msg len off with
  | none => pure none
  | some (_, after) => if after + 4 > len then pure none else pure (some (after + 4))

/-- `dns_parse_rr`. -/
def dnsParseRrChecked (msg : Bytes) (len off : Nat) : Checked (Option (DnsRr × Nat)) := do
  match ← decodeNameChecked msg len off with
  | none => pure none
  | some (name, after) =>
      if after + 10 > len then pure none
      else do
        let type ← readWord16 msg len after
        let rclass ← readWord16 msg len (after + 2)
        let ttl ← readWord32 msg len (after + 4)
        let rdlength ← readWord16 msg len (after + 8)
        if after + 10 + rdlength.toNat > len then pure none
        else
          pure (some (⟨name, type, rclass, ttl, rdlength, after + 10⟩,
            after + 10 + rdlength.toNat))

/-- The EDNS0 part of `dns_parse_query`. -/
def parseEdnsChecked (msg : Bytes) (len arrOff : Nat) (arcount : UInt16) :
    Checked (Option DnsRr) :=
  if arcount ≥ 1 then do
    match ← dnsParseRrChecked msg len arrOff with
    | none => pure none
    | some (opt, _) =>
        pure (if opt.type = dnsTypeOpt ∧ opt.name.chars = [] then some opt else none)
  else pure none

/-- `dns_parse_query`. -/
def dnsParseQueryChecked (msg : Bytes) (len : Nat) : Checked (Option DnsQueryInfo) := do
  match ← dnsParseHeaderChecked msg len with
  | none => pure none
  | some hdr =>
      if hdr.flags &&& dnsFlagQr ≠ 0 then pure none
      else if hdr.flags &&& dnsOpcodeMask ≠ 0 then pure none
      else if hdr.qdcount ≠ 1 then pure none
      else do
        match ← decodeNameChecked msg len dnsHdrLen with
        | none => pure none
        | some (name, after) =>
            if after + 4 > len then pure none
            else do
              let qtype ← readWord16 msg len after
              let qclass ← readWord16 msg len (after + 2)
              let edns ← parseEdnsChecked msg len (after + 4) hdr.arcount
              pure (some
                { hdr := hdr
                  q := ⟨name, qtype, qclass, dnsHdrLen, (after + 4) - dnsHdrLen⟩
                  recursionDesired := hdr.flags &&& dnsFlagRd ≠ 0
                  hasEdns := edns.isSome
                  ednsUdpPayload := (edns.map DnsRr.rclass).getD 0
                  ednsVersion := (edns.map fun opt : DnsRr => (opt.ttl >>> 16).toUInt8).getD 0
                  ednsDo := (edns.map fun opt : DnsRr =>
                    decide (opt.ttl &&& 0x8000 ≠ 0)).getD false })

section

variable {msg : Bytes} {len : Nat}

/-- `dns_parse_header` makes no access that is out of bounds. -/
theorem dnsParseHeaderChecked_eq (msg : Bytes) (len : Nat) :
    dnsParseHeaderChecked msg len = .ok (dnsParseHeader msg len) := by
  unfold dnsParseHeaderChecked dnsParseHeader
  apply Checked.guard
  intro long
  rw [dnsHdrLen] at long
  repeat rw [readWord16_eq (by omega), Checked.ok_bind]
  rfl

/-- Nor does `dns_skip_question`. -/
theorem dnsSkipQuestionChecked_eq (whole : len ≤ msg.length) (off : Nat) :
    dnsSkipQuestionChecked msg len off = .ok (dnsSkipQuestion msg len off) := by
  rw [dnsSkipQuestionChecked, decodeNameChecked_eq whole, Checked.ok_bind, dnsSkipQuestion]
  cases decodeName msg len off with
  | none => rfl
  | some decoded => exact Checked.guard fun _ => rfl

/-- Nor does `dns_parse_rr`. -/
theorem dnsParseRrChecked_eq (whole : len ≤ msg.length) (off : Nat) :
    dnsParseRrChecked msg len off = .ok (dnsParseRr msg len off) := by
  rw [dnsParseRrChecked, decodeNameChecked_eq whole, Checked.ok_bind, dnsParseRr]
  cases decodeName msg len off with
  | none => rfl
  | some decoded =>
      obtain ⟨name, after⟩ := decoded
      apply Checked.guard
      intro fixed
      rw [readWord16_eq (by omega), Checked.ok_bind, readWord16_eq (by omega), Checked.ok_bind,
        readWord32_eq (by omega), Checked.ok_bind, readWord16_eq (by omega), Checked.ok_bind]
      exact Checked.guard fun _ => rfl

/-- Nor does the loop over the additional section. -/
theorem parseEdnsChecked_eq (whole : len ≤ msg.length) (arrOff : Nat) (arcount : UInt16) :
    parseEdnsChecked msg len arrOff arcount = .ok (parseEdns msg len arrOff arcount) := by
  unfold parseEdnsChecked parseEdns
  split
  · rw [dnsParseRrChecked_eq whole, Checked.ok_bind]
    cases dnsParseRr msg len arrOff <;> rfl
  · rfl

/-- Nor does `dns_parse_query`. -/
theorem dnsParseQueryChecked_eq (whole : len ≤ msg.length) :
    dnsParseQueryChecked msg len = .ok (dnsParseQuery msg len) := by
  rw [dnsParseQueryChecked, dnsParseHeaderChecked_eq, Checked.ok_bind, dnsParseQuery]
  cases dnsParseHeader msg len with
  | none => rfl
  | some hdr =>
      apply Checked.guard
      intro _
      apply Checked.guard
      intro _
      apply Checked.guard
      intro _
      rw [decodeNameChecked_eq whole, Checked.ok_bind]
      cases decodeName msg len dnsHdrLen with
      | none => rfl
      | some decoded =>
          obtain ⟨name, after⟩ := decoded
          apply Checked.guard
          intro fixed
          rw [readWord16_eq (by omega), Checked.ok_bind, readWord16_eq (by omega), Checked.ok_bind,
            parseEdnsChecked_eq whole, Checked.ok_bind]
          rfl

/-! ## Progress -/

/-- A name ends inside the message. -/
theorem NameAt.next_le_len {off pointers next : Nat} {labels : List Bytes}
    (name : NameAt msg len off labels pointers next) : next ≤ len := by
  induction name with
  | root inside => exact inside
  | label _ _ _ _ ih => exact ih
  | pointer inside => exact inside

/-- A decoded name leaves room for the terminator and ends behind its start, in the message. -/
theorem dnsNameDecode_advances (whole : len ≤ msg.length) {off outCap next : Nat} {text : Bytes}
    (decoded : dnsNameDecode msg len off outCap = some (text, next)) :
    text.length + 1 ≤ outCap ∧ off < next ∧ next ≤ len := by
  unfold dnsNameDecode at decoded
  split at decoded
  · cases decoded
  next some =>
  obtain ⟨labels, pointers, stop, name, _, _, fits, rfl⟩ :=
    nameDecodeLoop_nameAt whole (Nat.pos_of_ne_zero some) decoded
  exact ⟨fits, name.lt_next, name.next_le_len⟩

/-- Behind a decoded name there is a later offset inside the message. -/
theorem decodeName_advances (whole : len ≤ msg.length) {off next : Nat} {name : DnsName}
    (decoded : decodeName msg len off = some (name, next)) : off < next ∧ next ≤ len := by
  obtain ⟨⟨text, stop⟩, read, same⟩ := Option.map_eq_some_iff.mp decoded
  cases same
  exact (dnsNameDecode_advances whole read).2

/-- And behind a question. -/
theorem dnsSkipQuestion_advances (whole : len ≤ msg.length) {off next : Nat}
    (skipped : dnsSkipQuestion msg len off = some next) : off < next ∧ next ≤ len := by
  unfold dnsSkipQuestion at skipped
  split at skipped
  · cases skipped
  next name after decoded =>
  rw [Option.ite_none_left_eq_some] at skipped
  obtain ⟨inside, same⟩ := skipped
  cases same
  have name := decodeName_advances whole decoded
  omega

/-- And behind a record, whose data ends there. -/
theorem dnsParseRr_advances (whole : len ≤ msg.length) {off next : Nat} {rr : DnsRr}
    (parsed : dnsParseRr msg len off = some (rr, next)) :
    off < next ∧ next ≤ len ∧ rr.rdata + rr.rdlength.toNat = next := by
  unfold dnsParseRr at parsed
  split at parsed
  · cases parsed
  next name after decoded =>
  simp only [Option.ite_none_left_eq_some] at parsed
  obtain ⟨_, inside, same⟩ := parsed
  cases same
  have name := decodeName_advances whole decoded
  refine ⟨by omega, by omega, rfl⟩

end

end FizzDns
