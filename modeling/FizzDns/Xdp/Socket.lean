import FizzDns.Foundation.Bytes
import FizzDns.Foundation.Ring

/-!
# An AF_XDP socket

The frames of a UMEM, the four rings over which they are passed to and from the kernel, and the
stack of free frames (`xsk_setup.h`). The kernel is a party of its own: it takes frames off the
fill ring and hands them back on the RX ring, and takes frames off the TX ring and hands them
back on the completion ring, at any time and publishing its progress when it likes
(`KernelStep`). The frames it has taken off a ring and not yet handed back are part of the
state.
-/

namespace FizzDns

/-- `NUM_FRAMES`. -/
def numFrames : Nat := 4096

/-- `FRAME_SIZE`. -/
def frameSize : Nat := 4096

/-- `FILL_RING_FRAMES`. -/
def fillRingFrames : Nat := numFrames / 2

/-- `RX_BATCH_SIZE`. -/
def rxBatchSize : Nat := 64

/-- `TX_BATCH_SIZE`. -/
def txBatchSize : Nat := 64

/-- `INVALID_UMEM_FRAME`. -/
def invalidUmemFrame : UInt64 := 0xFFFFFFFFFFFFFFFF

/-- The number of slots of each ring, the default of the library. -/
def ringSize : Nat := 2048

/-- The address of a frame. -/
def frameAddr (index : Nat) : UInt64 :=
  UInt64.ofNat (index * frameSize)

/-- The addresses of all frames. -/
def frameBases : List UInt64 :=
  (List.range numFrames).map frameAddr

/-- `struct xdp_desc`, with the bytes that stand at the address. The length field is their
number. -/
structure XdpDesc where
  addr : UInt64
  packet : Bytes

/-- `struct xsk_stats`. Its fields are of type `uint64_t`, and only `print_stats` reads them: what
it prints is a number here modulo `2 ^ 64`. -/
structure XskStats where
  rxPackets : Nat := 0
  rxBytes : Nat := 0
  txPackets : Nat := 0
  txBytes : Nat := 0
  rxDropped : Nat := 0
  txNoSlot : Nat := 0
  txNoFrame : Nat := 0
  queueFull : Nat := 0

/-- `struct xsk_socket_info` with the rings of its UMEM, and behind it the frames that the
kernel has taken off the fill ring (`driver`) and off the TX ring (`sending`). The stack of free
frames is a list with its top first. -/
structure XskSocketInfo where
  fq : ProdRing UInt64
  cq : ConsRing UInt64
  rx : ConsRing XdpDesc
  tx : ProdRing XdpDesc
  umemFrameAddr : List UInt64
  outstandingTx : Nat
  stats : XskStats
  driver : List UInt64
  sending : List XdpDesc

/-! ## The frame allocator -/

/-- `xsk_alloc_frame`. -/
def xskAllocFrame : List UInt64 → UInt64 × List UInt64
  | [] => (invalidUmemFrame, [])
  | frame :: free => (frame, free)

/-- `xsk_alloc_frame`, `count` times. -/
def allocFrames : (count : Nat) → List UInt64 → List UInt64 × List UInt64
  | 0, free => ([], free)
  | count + 1, free =>
      let (frame, free) := xskAllocFrame free
      let (frames, free) := allocFrames count free
      (frame :: frames, free)

/-- `xsk_free_frame`; `none` is the failed assertion. -/
def xskFreeFrame (frame : UInt64) (free : List UInt64) : Option (List UInt64) :=
  if free.length < numFrames then some (frame :: free) else none

/-- `xsk_frame_base`. -/
def xskFrameBase (addr : UInt64) : UInt64 :=
  (addr &&& 0xFFFFFFFFFFFF) &&& ~~~ (UInt64.ofNat frameSize - 1)

/-- With enough free frames, as many as wanted are taken. -/
theorem allocFrames_of_le {count : Nat} {free : List UInt64} (enough : count ≤ free.length) :
    allocFrames count free = (free.take count, free.drop count) := by
  induction count generalizing free with
  | zero => rfl
  | succ count ih =>
      cases free with
      | nil => cases enough
      | cons frame free =>
          rw [allocFrames, xskAllocFrame]
          simp only [ih (Nat.le_of_succ_le_succ enough), List.take_succ_cons, List.drop_succ_cons]

/-- There is room for a frame that comes back. -/
theorem xskFreeFrame_of_lt {frame : UInt64} {free : List UInt64} (room : free.length < numFrames) :
    xskFreeFrame frame free = some (frame :: free) :=
  if_pos room

theorem toNat_frameAddr {index : Nat} (inside : index < numFrames) :
    (frameAddr index).toNat = index * frameSize := by
  rw [numFrames] at inside
  rw [frameAddr, UInt64.toNat_ofNat', frameSize]
  omega

/-- Clearing the low twelve bits. -/
private theorem and_high (n : Nat) (small : n < 2 ^ 64) :
    n &&& (2 ^ 64 - 4096) = n / 4096 * 4096 := by
  apply Nat.eq_of_testBit_eq
  intro bit
  have high : (2 ^ 64 - 4096 : Nat) = (2 ^ 52 - 1) <<< 12 := by decide
  have cleared : n / 4096 * 4096 = (n >>> 12) <<< 12 := by
    rw [Nat.shiftLeft_eq, Nat.shiftRight_eq_div_pow]
  rw [Nat.testBit_and, high, cleared, Nat.testBit_shiftLeft, Nat.testBit_shiftLeft,
    Nat.testBit_two_pow_sub_one, Nat.testBit_shiftRight]
  by_cases above : 12 ≤ bit
  · have index : 12 + (bit - 12) = bit := by omega
    by_cases within : bit < 64
    · have inside : bit - 12 < 52 := by omega
      simp [above, index, inside]
    · have zero : n.testBit bit = false :=
        Nat.testBit_lt_two_pow (lt_of_lt_of_le small (Nat.pow_le_pow_right (by decide) (by omega)))
      simp [above, index, zero]
  · simp [above]

/-- The base of an address inside a frame is the frame's address. -/
theorem xskFrameBase_add {index offset : Nat} (inside : index < numFrames)
    (within : offset < frameSize) :
    xskFrameBase (frameAddr index + UInt64.ofNat offset) = frameAddr index := by
  have base := toNat_frameAddr inside
  rw [numFrames] at inside
  rw [frameSize] at within base
  apply UInt64.toNat_inj.mp
  have addr : (frameAddr index + UInt64.ofNat offset).toNat = index * 4096 + offset := by
    rw [UInt64.toNat_add, base, UInt64.toNat_ofNat']
    omega
  have mask : (~~~ (UInt64.ofNat frameSize - 1)).toNat = 2 ^ 64 - 4096 := by decide
  have low : ((frameAddr index + UInt64.ofNat offset) &&& 0xFFFFFFFFFFFF).toNat =
      index * 4096 + offset := by
    rw [UInt64.toNat_and, addr]
    refine (Nat.and_two_pow_sub_one_eq_mod _ 48).trans (Nat.mod_eq_of_lt ?_)
    omega
  rw [xskFrameBase, UInt64.toNat_and, low, mask, and_high _ (by omega), base]
  omega

/-- The bases are where the frames begin. -/
theorem mem_frameBases {addr : UInt64} :
    addr ∈ frameBases ↔ ∃ index, index < numFrames ∧ frameAddr index = addr := by
  simp [frameBases]

/-- No two frames begin in the same place. -/
theorem nodup_frameBases : frameBases.Nodup := by
  refine List.Nodup.map_on ?_ List.nodup_range
  intro left leftInside right rightInside same
  have equal := congrArg UInt64.toNat same
  rw [toNat_frameAddr (List.mem_range.mp leftInside),
    toNat_frameAddr (List.mem_range.mp rightInside), frameSize] at equal
  omega

/-- The base of a base is itself. -/
theorem xskFrameBase_of_mem {addr : UInt64} (member : addr ∈ frameBases) :
    xskFrameBase addr = addr := by
  obtain ⟨index, inside, rfl⟩ := mem_frameBases.mp member
  simpa using xskFrameBase_add inside (show 0 < frameSize by decide)

theorem toNat_lt_of_mem_frameBases {addr : UInt64} (member : addr ∈ frameBases) :
    addr.toNat < numFrames * frameSize := by
  obtain ⟨index, inside, rfl⟩ := mem_frameBases.mp member
  rw [toNat_frameAddr inside]
  exact Nat.mul_lt_mul_of_pos_right inside (by decide)

/-- The mark of a failed allocation is no frame, and no address inside one. -/
theorem invalidUmemFrame_notMem :
    invalidUmemFrame ∉ frameBases ∧ xskFrameBase invalidUmemFrame ∉ frameBases :=
  ⟨fun member => absurd (toNat_lt_of_mem_frameBases member) (by decide),
    fun member => absurd (toNat_lt_of_mem_frameBases member) (by decide)⟩

/-! ## Setup -/

/-- The end of `xsk_env_setup_socket`: seed the stack with every frame and hand the first
half to the kernel; `none` if the fill ring has no room. -/
def xskEnvSetupSocket : Option XskSocketInfo :=
  let (frames, free) := allocFrames fillRingFrames frameBases.reverse
  (ProdRing.empty ringSize).produce frames |>.map fun fq =>
    { fq := fq
      cq := .empty ringSize
      rx := .empty ringSize
      tx := .empty ringSize
      umemFrameAddr := free
      outstandingTx := 0
      stats := {}
      driver := []
      sending := [] }

/-- The socket is set up with half of the frames on the fill ring. -/
theorem xskEnvSetupSocket_some :
    ∃ xsk, xskEnvSetupSocket = some xsk ∧
      xsk.fq.entries = frameBases.reverse.take fillRingFrames ∧
      xsk.umemFrameAddr = frameBases.reverse.drop fillRingFrames ∧
      xsk.cq.entries = [] ∧ xsk.rx.entries = [] ∧ xsk.tx.entries = [] ∧ xsk.outstandingTx = 0 ∧
      xsk.driver = [] ∧ xsk.sending = [] ∧ xsk.stats = {} := by
  have length : frameBases.reverse.length = numFrames := by simp [frameBases]
  have enough : fillRingFrames ≤ frameBases.reverse.length := by
    rw [length]
    decide
  have room : (frameBases.reverse.take fillRingFrames).length ≤
      (ProdRing.empty (α := UInt64) ringSize).cachedFree := by
    rw [List.length_take_of_le enough]
    decide
  obtain ⟨fq, produced⟩ := ProdRing.produce_of_le room
  have entries := ProdRing.produce_some produced
  rw [ProdRing.empty, List.nil_append] at entries
  unfold xskEnvSetupSocket
  rw [allocFrames_of_le enough]
  simp only [produced, Option.map_some, Option.some.injEq, exists_eq_left', entries, true_and,
    and_true]
  exact ⟨rfl, rfl, rfl⟩

/-! ## The kernel -/

/-- What the kernel can do next. `which` picks one of the frames that it has taken; a received
packet can be put at any offset of the frame. -/
inductive KernelStep
  | takeFill
  | publishFill (count : Nat)
  | receive (which : Nat) (offset : Fin frameSize) (packet : Bytes)
  | takeTx
  | publishTx (count : Nat)
  | complete (which : Nat)

/-- A step of the kernel. A step that is not possible changes nothing. -/
def XskSocketInfo.kernel (xsk : XskSocketInfo) : KernelStep → XskSocketInfo
  | .takeFill =>
      match xsk.fq.take with
      | none => xsk
      | some (frame, fq) => { xsk with fq := fq, driver := xsk.driver ++ [frame] }
  | .publishFill count => { xsk with fq := xsk.fq.publish count }
  | .receive which offset packet =>
      match xsk.driver[which]? with
      | none => xsk
      | some frame =>
          match xsk.rx.offer ⟨frame + UInt64.ofNat offset, packet⟩ with
          | none => xsk
          | some rx => { xsk with rx := rx, driver := xsk.driver.eraseIdx which }
  | .takeTx =>
      match xsk.tx.take with
      | none => xsk
      | some (desc, tx) => { xsk with tx := tx, sending := xsk.sending ++ [desc] }
  | .publishTx count => { xsk with tx := xsk.tx.publish count }
  | .complete which =>
      match xsk.sending[which]? with
      | none => xsk
      | some desc =>
          match xsk.cq.offer desc.addr with
          | none => xsk
          | some cq => { xsk with cq := cq, sending := xsk.sending.eraseIdx which }

end FizzDns
