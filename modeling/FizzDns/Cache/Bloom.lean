import FizzDns.Foundation.CString
import FizzDns.Foundation.CountingFilter

/-!
# The key hash and the Bloom filter

`dns_key_hash` and the counting filter of `dns_bloom.c`. The cache calls the filter
through the four operations of `BloomOps`; `countingBloom` is the filter, and
`disabledBloom` is what `-DDNS_BLOOM_DISABLED` compiles instead. The filter's
statistics are diagnostics that no cache function reads and are not part of its state
here; `FizzDns.Cache.Statistics` has them.

The four slots of a hash are pairwise distinct (`bloomSlots_nodup`), because they step
by an odd stride through a table whose size is a power of two.
-/

namespace FizzDns

/-- `BLOOM_SLOTS`. -/
def bloomSlotCount : Nat := 65536

/-- `BLOOM_HASHES`. -/
def bloomHashes : Nat := 4

/-- `dns_key_hash`: FNV-1a over the folded name, then the query type. -/
def dnsKeyHash (name : Bytes) (qtype : UInt16) : UInt64 :=
  let h := name.foldl (fun h byte => (h ^^^ (tolower byte).toUInt64) * 1099511628211)
    14695981039346656037
  (h ^^^ qtype.toUInt64) * 1099511628211

/-- Names that differ in case only hash alike. -/
theorem dnsKeyHash_congr {left right : Bytes} (same : foldCase left = foldCase right)
    (qtype : UInt16) : dnsKeyHash left qtype = dnsKeyHash right qtype := by
  have folded : ∀ (name : Bytes) (start : UInt64),
      name.foldl (fun h byte => (h ^^^ (tolower byte).toUInt64) * 1099511628211) start =
        (foldCase name).foldl (fun h byte => (h ^^^ byte.toUInt64) * 1099511628211) start := by
    intro name start
    rw [foldCase, List.foldl_map]
  simp only [dnsKeyHash, folded, same]

/-- `bloom_slots`: the slots of a hash, `h1 + i * h2` with the stride `h2` made odd. -/
def bloomSlots (hash : UInt64) : List (Fin bloomSlotCount) :=
  let h1 := hash.toUInt32
  let h2 := (hash >>> 32).toUInt32 ||| 1
  (List.range bloomHashes).map fun i =>
    ⟨(h1 + UInt32.ofNat i * h2).toNat % bloomSlotCount, Nat.mod_lt _ (by decide)⟩

/-- The counters of the filter. -/
abbrev BloomSlots := CountingFilter.Slots (Fin bloomSlotCount)

/-- `dns_bloom_reset`. -/
def dnsBloomReset : BloomSlots :=
  fun _ => 0

/-- `dns_bloom_maybe`. -/
def dnsBloomMaybe (hash : UInt64) (slots : BloomSlots) : Bool :=
  CountingFilter.maybe (bloomSlots hash) slots

/-- `dns_bloom_add`. -/
def dnsBloomAdd (hash : UInt64) (slots : BloomSlots) : BloomSlots :=
  CountingFilter.add (bloomSlots hash) slots

/-- `dns_bloom_del`. -/
def dnsBloomDel (hash : UInt64) (slots : BloomSlots) : BloomSlots :=
  CountingFilter.del (bloomSlots hash) slots

/-- What the cache asks of the filter, by the key whose hash it passes. -/
structure BloomOps (β : Type) where
  reset : β → β
  maybe : Bytes → UInt16 → β → Bool
  add : Bytes → UInt16 → β → β
  del : Bytes → UInt16 → β → β

/-- The counting filter of `dns_bloom.c`. -/
def countingBloom : BloomOps BloomSlots where
  reset := fun _ => dnsBloomReset
  maybe := fun name qtype => dnsBloomMaybe (dnsKeyHash name qtype)
  add := fun name qtype => dnsBloomAdd (dnsKeyHash name qtype)
  del := fun name qtype => dnsBloomDel (dnsKeyHash name qtype)

/-- The filter compiled out: every key may be present. -/
def disabledBloom : BloomOps Unit where
  reset := fun _ => ()
  maybe := fun _ _ _ => true
  add := fun _ _ _ => ()
  del := fun _ _ _ => ()

/-- A hash has four slots. -/
theorem length_bloomSlots (hash : UInt64) : (bloomSlots hash).length = bloomHashes := by
  simp [bloomSlots]

/-- The step between slots is odd, so four of them are apart. -/
private theorem odd_or_one (word : UInt32) : (word ||| 1).toNat % 2 = 1 := by
  rw [UInt32.toNat_or]
  simp

/-- Stepping by an odd stride, four steps stay apart. -/
private theorem strided_injective (h1 h2 i j : Nat) (odd : h2 % 2 = 1) (iBelow : i < 4)
    (jBelow : j < 4)
    (same : (h1 + i * h2 % 2 ^ 32) % 2 ^ 32 % 65536 = (h1 + j * h2 % 2 ^ 32) % 2 ^ 32 % 65536) :
    i = j := by
  interval_cases i <;> interval_cases j <;> omega

/-- The slots of one hash are pairwise distinct. -/
theorem bloomSlots_nodup (hash : UInt64) : (bloomSlots hash).Nodup := by
  refine List.Nodup.map_on ?_ List.nodup_range
  intro i iBelow j jBelow same
  rw [List.mem_range] at iBelow jBelow
  have values := congrArg Fin.val same
  simp only [UInt32.toNat_add, UInt32.toNat_mul, UInt32.toNat_ofNat'] at values
  have iWord : i % 2 ^ 32 = i := Nat.mod_eq_of_lt (iBelow.trans (by decide))
  have jWord : j % 2 ^ 32 = j := Nat.mod_eq_of_lt (jBelow.trans (by decide))
  rw [iWord, jWord] at values
  exact strided_injective _ _ i j (odd_or_one _) iBelow jBelow values

end FizzDns
