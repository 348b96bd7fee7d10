import NetStack.Memory.PageTable
import NetStack.Lib.Concurrent

/-!
# The virtqueues of `virt_mmio.c`

`Virtq` is the memory the driver shares with the device; `VirtioNetQueue` is the driver's own record
of one queue.  The driver's functions are programs (`Driver`) whose operations are the single loads
and stores the source makes, in its order: every field of a shared ring is read each time the source
names it, so that the device can act between any two accesses.  `mem_barrier` orders these accesses
and is no operation of its own; neither is the wait of `uart_putc` for the transmitter.

The contents of a ring are kept in `virtq` and not in the bytes of the pages the ring occupies; the
driver reads and writes them through the structure only.
-/

namespace NetStack

open ByteMem Concurrent

/-! ## Data -/

def descQueueSize : ℕ := 256
def queueBufSize : ℕ := 2048
def virtqDescFWrite : ℕ := 1 <<< 1

@[simp] lemma descQueueSize_eq : descQueueSize = 256 := rfl
@[simp] lemma queueBufSize_eq : queueBufSize = 2048 := rfl

/-- `struct virtq_desc`. -/
structure VirtqDesc where
  addr : ℕ
  len : ℕ
  id : ℕ
  flags : ℕ
  deriving DecidableEq, Repr

/-- `struct virtq_used_elem`. -/
structure VirtqUsedElem where
  id : ℕ
  len : ℕ
  deriving DecidableEq, Repr

/-- `struct virtq`.  Nothing reads the two `flags` words. -/
structure Virtq where
  desc : ℕ → VirtqDesc
  availIdx : ℕ
  availRing : ℕ → ℕ
  usedIdx : ℕ
  usedRing : ℕ → VirtqUsedElem

/-- `struct virtio_net_queue`: `ring` is the pointer, `virtq` what it points to. -/
structure VirtioNetQueue where
  ring : ℕ
  virtq : Virtq
  buffers : ℕ
  size : ℕ
  lastUsedIdx : ℕ
  nextDesc : ℕ
  inUse : ℕ → ℕ

/-- `enum virtio_net_queue_index`. -/
inductive QueueIndex
  | rx
  | tx
  deriving DecidableEq, Repr

def QueueIndex.toNat : QueueIndex → ℕ
  | .rx => 0
  | .tx => 1

/-- What the driver acts on: the heap with its memory, `net_queues`, the characters sent to the
UART and the queue indices written to `QUEUE_NOTIFY`, oldest first. -/
structure NetState where
  heap : Heap
  queues : QueueIndex → VirtioNetQueue
  out : List Char
  notified : List ℕ

def NetState.setQueue (s : NetState) (q : QueueIndex) (queue : VirtioNetQueue) : NetState :=
  { s with queues := Function.update s.queues q queue }

def NetState.setVirtq (s : NetState) (q : QueueIndex) (v : Virtq) : NetState :=
  s.setQueue q { s.queues q with virtq := v }

@[simp] lemma NetState.setQueue_queues (s : NetState) (q : QueueIndex) (queue : VirtioNetQueue) :
    (s.setQueue q queue).queues q = queue := Function.update_self ..

@[simp] lemma NetState.setVirtq_queues (s : NetState) (q : QueueIndex) (v : Virtq) :
    (s.setVirtq q v).queues q = { s.queues q with virtq := v } := Function.update_self ..

def NetState.puts (s : NetState) (str : String) : NetState := { s with out := s.out ++ str.toList }

/-! ## `virt_mmio_net_virtq_init` -/

def sizeofVirtqDesc : ℕ := 16
def sizeofVirtqAvail : ℕ := 4 + 2 * descQueueSize
def sizeofVirtqUsed : ℕ := 4 + 8 * descQueueSize
def sizeofVirtq : ℕ := sizeofVirtqDesc * descQueueSize + sizeofVirtqAvail + sizeofVirtqUsed

/-- The structure found at an address. -/
def readVirtq (m : Mem) (a : ℕ) : Virtq where
  desc i :=
    let d := a + sizeofVirtqDesc * i
    ⟨loadLE m 8 d, loadLE m 4 (d + 8), loadLE m 2 (d + 12), loadLE m 2 (d + 14)⟩
  availIdx := loadLE m 2 (a + sizeofVirtqDesc * descQueueSize + 2)
  availRing i := loadLE m 2 (a + sizeofVirtqDesc * descQueueSize + 4 + 2 * i)
  usedIdx := loadLE m 2 (a + sizeofVirtqDesc * descQueueSize + sizeofVirtqAvail + 2)
  usedRing i :=
    let e := a + sizeofVirtqDesc * descQueueSize + sizeofVirtqAvail + 4 + 8 * i
    ⟨loadLE m 4 e, loadLE m 4 (e + 4)⟩

/-- `mem_zero`. -/
def memZero (m : Mem) (buffer length : ℕ) : Mem := fill m buffer 0 length

/-- The descriptors after the loop `for (i = 0; i < queue->size; i++)`. -/
def initDesc (buffers flags : ℕ) (desc : ℕ → VirtqDesc) : (n : ℕ) → ℕ → VirtqDesc
  | 0 => desc
  | i + 1 =>
      let desc := initDesc buffers flags desc i
      Function.update desc i
        { desc i with addr := (buffers + i * queueBufSize) % 2 ^ 64, len := queueBufSize, flags := flags }

/-- The queue with the memory it has been given, before that memory is cleared. -/
def attachQueue (s : NetState) (q : QueueIndex) (h : Heap) (ring buffers : ℕ) : NetState :=
  { s with heap := h }.setQueue q
    { s.queues q with ring := ring, virtq := readVirtq h.mem ring, buffers := buffers }

/-- The rest of the iteration: ring and buffers are cleared, the descriptors and the driver's own
fields set; `in_use` is left as it is. -/
def setupQueue (s : NetState) (q : QueueIndex) : NetState :=
  let queue := s.queues q
  let m := memZero s.heap.mem queue.ring sizeofVirtq
  let virtq := readVirtq m queue.ring
  let m := memZero m queue.buffers (queueBufSize * descQueueSize)
  let flags := match q with
    | .rx => virtqDescFWrite
    | .tx => 0
  { s with heap := { s.heap with mem := m } }.setQueue q
    { queue with
      virtq := { virtq with desc := initDesc queue.buffers flags virtq.desc descQueueSize }
      size := descQueueSize
      lastUsedIdx := 0
      nextDesc := 0 }

/-- One iteration of the loop over the queues; `false` where the function returns `-1`. -/
def initQueue (limit : ℕ) (s : NetState) (q : QueueIndex) : Option (NetState × Bool) := do
  let (h, ring) ← memAlloc limit s.heap sizeofVirtq
  let (h, buffers) ← memAlloc limit h (queueBufSize * descQueueSize)
  let s := attachQueue s q h ring buffers
  if ring = 0 ∨ buffers = 0 then
    some (s.puts "Failed to allocate Virtio queue memory.\n", false)
  else some (setupQueue s q, true)

/-- `avail.ring` after the loop `for (i = 0; i < rx->size; i++)`. -/
def offerAll (ring : ℕ → ℕ) : (n : ℕ) → ℕ → ℕ
  | 0 => ring
  | i + 1 => Function.update (offerAll ring i) i i

/-- All RX descriptors are put into `avail`. -/
def offerRx (s : NetState) : NetState :=
  let rx := s.queues .rx
  s.setVirtq .rx { rx.virtq with
    availRing := offerAll rx.virtq.availRing rx.size
    availIdx := rx.size }

/-- `virt_mmio_net_virtq_init`; the second component is whether it returns `0`. -/
def virtMmioNetVirtqInit (limit : ℕ) (s : NetState) : Option (NetState × Bool) := do
  let s := s.puts "Initializing Virtio Network Device Queue...\n"
  let (s, ok) ← initQueue limit s .rx
  if ok then
    let (s, ok) ← initQueue limit s .tx
    if ok then some ((offerRx s).puts "Virtio Network Device Queue initialized.\n", true)
    else some (s, false)
  else some (s, false)

/-! ## Operations -/

/-- The driver's accesses to a queue, to memory and to the device. -/
inductive Op
  | size
  | lastUsedIdx
  | setLastUsedIdx (v : ℕ)
  | nextDesc
  | setNextDesc (v : ℕ)
  | inUse (i : ℕ)
  | setInUse (i v : ℕ)
  | availIdx
  | setAvailIdx (v : ℕ)
  | setAvailRing (i v : ℕ)
  | usedIdx
  | usedId (i : ℕ)
  | usedLen (i : ℕ)
  | descAddr (i : ℕ)
  | setDescLen (i v : ℕ)
  | setDescFlags (i v : ℕ)
  | byte (addr : ℕ)
  | setByte (addr : ℕ) (v : UInt8)
  | putc (c : Char)
  | notify (queue : ℕ)
  deriving DecidableEq

/-- What an access returns. -/
@[reducible] def Op.Resp : Op → Type
  | .size | .lastUsedIdx | .nextDesc | .inUse _ | .availIdx | .usedIdx | .usedId _ | .usedLen _
  | .descAddr _ => ℕ
  | .byte _ => UInt8
  | .setLastUsedIdx _ | .setNextDesc _ | .setInUse _ _ | .setAvailIdx _ | .setAvailRing _ _
  | .setDescLen _ _ | .setDescFlags _ _ | .setByte _ _ | .putc _ | .notify _ => PUnit

/-- One access, on the queue `q`. -/
def Op.exec (q : QueueIndex) : (o : Op) → NetState → o.Resp × NetState
  | .size, s => ((s.queues q).size, s)
  | .lastUsedIdx, s => ((s.queues q).lastUsedIdx, s)
  | .setLastUsedIdx v, s => (⟨⟩, s.setQueue q { s.queues q with lastUsedIdx := v })
  | .nextDesc, s => ((s.queues q).nextDesc, s)
  | .setNextDesc v, s => (⟨⟩, s.setQueue q { s.queues q with nextDesc := v })
  | .inUse i, s => ((s.queues q).inUse i, s)
  | .setInUse i v, s =>
      (⟨⟩, s.setQueue q { s.queues q with inUse := Function.update (s.queues q).inUse i v })
  | .availIdx, s => ((s.queues q).virtq.availIdx, s)
  | .setAvailIdx v, s => (⟨⟩, s.setVirtq q { (s.queues q).virtq with availIdx := v })
  | .setAvailRing i v, s =>
      (⟨⟩, s.setVirtq q { (s.queues q).virtq with
        availRing := Function.update (s.queues q).virtq.availRing i v })
  | .usedIdx, s => ((s.queues q).virtq.usedIdx, s)
  | .usedId i, s => (((s.queues q).virtq.usedRing i).id, s)
  | .usedLen i, s => (((s.queues q).virtq.usedRing i).len, s)
  | .descAddr i, s => (((s.queues q).virtq.desc i).addr, s)
  | .setDescLen i v, s =>
      (⟨⟩, s.setVirtq q { (s.queues q).virtq with
        desc := Function.update (s.queues q).virtq.desc i
          { (s.queues q).virtq.desc i with len := v } })
  | .setDescFlags i v, s =>
      (⟨⟩, s.setVirtq q { (s.queues q).virtq with
        desc := Function.update (s.queues q).virtq.desc i
          { (s.queues q).virtq.desc i with flags := v } })
  | .byte a, s => (s.heap.mem a, s)
  | .setByte a v, s => (⟨⟩, { s with heap := { s.heap with mem := write s.heap.mem a v } })
  | .putc c, s => (⟨⟩, { s with out := s.out ++ [c] })
  | .notify i, s => (⟨⟩, { s with notified := s.notified ++ [i] })

/-- A piece of the driver. -/
abbrev Driver : Type → Type := Prog Op Op.Resp

def size : Driver ℕ := .op .size .ret
def lastUsedIdx : Driver ℕ := .op .lastUsedIdx .ret
def nextDesc : Driver ℕ := .op .nextDesc .ret
def inUse (i : ℕ) : Driver ℕ := .op (.inUse i) .ret
def availIdx : Driver ℕ := .op .availIdx .ret
def usedIdx : Driver ℕ := .op .usedIdx .ret
def usedId (i : ℕ) : Driver ℕ := .op (.usedId i) .ret
def usedLen (i : ℕ) : Driver ℕ := .op (.usedLen i) .ret
def descAddr (i : ℕ) : Driver ℕ := .op (.descAddr i) .ret
def byte (a : ℕ) : Driver UInt8 := .op (.byte a) .ret
def setLastUsedIdx (v : ℕ) : Driver PUnit := .op (.setLastUsedIdx v) .ret
def setNextDesc (v : ℕ) : Driver PUnit := .op (.setNextDesc v) .ret
def setInUse (i v : ℕ) : Driver PUnit := .op (.setInUse i v) .ret
def setAvailIdx (v : ℕ) : Driver PUnit := .op (.setAvailIdx v) .ret
def setAvailRing (i v : ℕ) : Driver PUnit := .op (.setAvailRing i v) .ret
def setDescLen (i v : ℕ) : Driver PUnit := .op (.setDescLen i v) .ret
def setDescFlags (i v : ℕ) : Driver PUnit := .op (.setDescFlags i v) .ret
def setByte (a : ℕ) (v : UInt8) : Driver PUnit := .op (.setByte a v) .ret
def uartPutc (c : Char) : Driver PUnit := .op (.putc c) .ret
def virtMmioNotify (q : QueueIndex) : Driver PUnit := .op (.notify q.toNat) .ret

/-! ## Printing -/

/-- `uart_puts`. -/
def uartPuts (str : String) : Driver PUnit := str.toList.forM uartPutc

/-- `uart_b2x`: eight hexadecimal digits. -/
def uartB2x (b : ℕ) : Driver PUnit := do
  uartPuts "0x"
  [28, 24, 20, 16, 12, 8, 4, 0].forM fun i =>
    let t := (b >>> i) &&& 0xF
    uartPutc (Char.ofNat (t + if t > 9 then 0x37 else 0x30))

/-- `print_mac`. -/
def printMac (mac : ℕ) : Driver PUnit :=
  (List.range 6).forM fun i => do
    let b ← byte (mac + i)
    let h := (b.toNat >>> 4) &&& 0xF
    let l := b.toNat &&& 0xF
    uartPutc (Char.ofNat (if h > 9 then h + 'A'.toNat - 10 else h + '0'.toNat))
    uartPutc (Char.ofNat (if l > 9 then l + 'A'.toNat - 10 else l + '0'.toNat))
    if i < 5 then uartPutc ':' else pure ⟨⟩

/-- One byte of `print_ip`, without leading zeros. -/
def printOctet (val : ℕ) : Driver PUnit := do
  if val ≥ 100 then
    uartPutc (Char.ofNat (val / 100 + '0'.toNat))
    uartPutc (Char.ofNat (val / 10 % 10 + '0'.toNat))
    uartPutc (Char.ofNat (val % 10 + '0'.toNat))
  else if val ≥ 10 then
    uartPutc (Char.ofNat (val / 10 + '0'.toNat))
    uartPutc (Char.ofNat (val % 10 + '0'.toNat))
  else
    uartPutc (Char.ofNat (val + '0'.toNat))

/-- `print_ip`; the bytes of the argument in memory order. -/
def printIp (ip : ℕ) : Driver PUnit :=
  (List.range 4).forM fun i => do
    printOctet ((ip >>> (8 * i)) &&& 0xFF)
    if i < 3 then uartPutc '.' else pure ⟨⟩

/-! ## Headers -/

def ethPIp : ℕ := 0x0800
def ethPArp : ℕ := 0x0806
def sizeofVirtioNetHdr : ℕ := 12
def sizeofEthHdr : ℕ := 14

/-- `ntohs`. -/
def ntohs (n : ℕ) : ℕ := ((n <<< 8) ||| (n >>> 8)) % 2 ^ 16

/-- A `uint16_t` field. -/
def readU16 (a : ℕ) : Driver ℕ := do
  let b₀ ← byte a
  let b₁ ← byte (a + 1)
  pure (b₀.toNat + 2 ^ 8 * b₁.toNat)

/-- A `uint32_t` field. -/
def readU32 (a : ℕ) : Driver ℕ := do
  let lo ← readU16 a
  let hi ← readU16 (a + 2)
  pure (lo + 2 ^ 16 * hi)

/-- `parse_arp`; the field offsets are those of `struct arp_hdr`. -/
def parseArp (arp : ℕ) : Driver PUnit := do
  let oper := readU16 (arp + 6)
  let spa := readU32 (arp + 14)
  let tpa := readU32 (arp + 24)
  uartPuts "  ARP: "
  if ntohs (← oper) = 1 then
    uartPuts "Request for "
    printIp (← tpa)
    uartPuts " from "
    printIp (← spa)
    uartPutc '\n'
  else if ntohs (← oper) = 2 then
    uartPuts "Reply from "
    printIp (← spa)
    uartPuts " to "
    printIp (← tpa)
    uartPutc '\n'
  else
    uartPuts "Unknown ARP operation: "
    uartB2x (ntohs (← oper))
    uartPutc '\n'

/-- The part of `virt_mmio_net_poll_rx` that looks at the frame. -/
def printFrame (frame : ℕ) : Driver PUnit := do
  let ethType := ntohs (← readU16 (frame + 12))
  uartPuts "Received Frame ["
  printMac (frame + 6)
  uartPuts " -> "
  printMac frame
  uartPuts "] type=0x"
  uartB2x ethType
  uartPutc '\n'
  if ethType = ethPIp then
    let ip := frame + sizeofEthHdr
    uartPuts "  IPv4: "
    printIp (← readU32 (ip + 12))
    uartPuts " -> "
    printIp (← readU32 (ip + 16))
    uartPuts " proto="
    uartB2x (← byte (ip + 9)).toNat
    uartPutc '\n'
  else if ethType = ethPArp then
    uartPuts "  ARP Packet detected\n"
    parseArp (frame + sizeofEthHdr)
  else pure ⟨⟩

section

variable {A : Op → Prop} (hputc : ∀ c, A (.putc c))
include hputc

lemma only_uartPutc (c : Char) : Only A (uartPutc c) := ⟨hputc c, fun _ => trivial⟩

lemma only_uartPuts (str : String) : Only A (uartPuts str) :=
  Only.forM fun c _ => only_uartPutc hputc c

lemma only_uartB2x (b : ℕ) : Only A (uartB2x b) :=
  (only_uartPuts hputc _).bind fun _ => Only.forM fun _ _ => only_uartPutc hputc _

lemma only_printOctet (val : ℕ) : Only A (printOctet val) := by
  have hdigit : ∀ n, Only A (uartPutc (Char.ofNat n)) := fun n => only_uartPutc hputc _
  unfold printOctet
  split_ifs
  · exact (hdigit _).bind fun _ => (hdigit _).bind fun _ => hdigit _
  · exact (hdigit _).bind fun _ => hdigit _
  · exact hdigit _

lemma only_printIp (ip : ℕ) : Only A (printIp ip) := by
  refine Only.forM fun i _ => (only_printOctet hputc _).bind fun _ => ?_
  split_ifs
  · exact only_uartPutc hputc _
  · trivial

/-- The six bytes of an address are all `print_mac` reads. -/
lemma only_printMac {mac : ℕ} (h : ∀ i < 6, A (.byte (mac + i))) : Only A (printMac mac) := by
  refine Only.forM fun i hi => ⟨h i (List.mem_range.mp hi), fun b => ?_⟩
  refine (only_uartPutc hputc _).bind fun _ => (only_uartPutc hputc _).bind fun _ => ?_
  split_ifs
  · exact only_uartPutc hputc _
  · trivial

omit hputc in
lemma only_readU16 {a : ℕ} (h : ∀ i < 2, A (.byte (a + i))) : Only A (readU16 a) :=
  ⟨h 0 (by omega), fun _ => ⟨h 1 (by omega), fun _ => trivial⟩⟩

omit hputc in
lemma only_readU32 {a : ℕ} (h : ∀ i < 4, A (.byte (a + i))) : Only A (readU32 a) := by
  refine (only_readU16 fun i hi => h i (by omega)).bind fun lo => ?_
  refine (only_readU16 fun i hi => ?_).bind fun hi => trivial
  rw [Nat.add_assoc]
  exact h _ (by omega)

-- a string literal must not be unfolded into its characters by every unification
attribute [irreducible] uartPuts uartB2x printIp printMac readU16 readU32

/-- `parse_arp` reads the 28 bytes of its header. -/
lemma only_parseArp {arp : ℕ} (h : ∀ i < 28, A (.byte (arp + i))) : Only A (parseArp arp) := by
  have hfield : ∀ off n, off + n ≤ 28 → ∀ i < n, A (.byte (arp + off + i)) := by
    intro off n hle i hi
    rw [Nat.add_assoc]
    exact h _ (by omega)
  have hoper := only_readU16 (hfield 6 2 (by omega))
  have hspa := only_readU32 (hfield 14 4 (by omega))
  have htpa := only_readU32 (hfield 24 4 (by omega))
  have hip : ∀ ip, Only A (printIp ip) := only_printIp hputc
  have hputs : ∀ str, Only A (uartPuts str) := only_uartPuts hputc
  have hc : ∀ c, Only A (uartPutc c) := only_uartPutc hputc
  refine (hputs _).bind fun _ => hoper.bind fun o₁ => ?_
  split_ifs
  · exact (hputs _).bind fun _ => htpa.bind fun _ => (hip _).bind fun _ => (hputs _).bind fun _ =>
      hspa.bind fun _ => (hip _).bind fun _ => hc _
  · refine hoper.bind fun o₂ => ?_
    split_ifs
    · exact (hputs _).bind fun _ => hspa.bind fun _ => (hip _).bind fun _ => (hputs _).bind fun _ =>
        htpa.bind fun _ => (hip _).bind fun _ => hc _
    · exact (hputs _).bind fun _ => hoper.bind fun _ => (only_uartB2x hputc _).bind fun _ => hc _

/-- The frame is looked at in its first 42 bytes only. -/
lemma only_printFrame {frame : ℕ} (h : ∀ i < 42, A (.byte (frame + i))) :
    Only A (printFrame frame) := by
  have hfield : ∀ off n, off + n ≤ 42 → ∀ i < n, A (.byte (frame + off + i)) := by
    intro off n hle i hi
    rw [Nat.add_assoc]
    exact h _ (by omega)
  have hputs : ∀ str, Only A (uartPuts str) := only_uartPuts hputc
  have hc : ∀ c, Only A (uartPutc c) := only_uartPutc hputc
  have hb : ∀ b, Only A (uartB2x b) := only_uartB2x hputc
  have hip : ∀ ip, Only A (printIp ip) := only_printIp hputc
  have hmac : Only A (printMac frame) := only_printMac hputc fun i hi => h i (by omega)
  refine (only_readU16 (hfield 12 2 (by omega))).bind fun t => ?_
  refine (hputs _).bind fun _ => (only_printMac hputc (hfield 6 6 (by omega))).bind fun _ =>
    (hputs _).bind fun _ => hmac.bind fun _ => (hputs _).bind fun _ => (hb _).bind fun _ =>
    (hc _).bind fun _ => ?_
  split_ifs
  · exact (hputs _).bind fun _ => (only_readU32 (hfield 26 4 (by omega))).bind fun _ =>
      (hip _).bind fun _ => (hputs _).bind fun _ => (only_readU32 (hfield 30 4 (by omega))).bind
      fun _ => (hip _).bind fun _ => (hputs _).bind fun _ =>
      ⟨hfield 23 1 (by omega) 0 (by omega), fun _ => (hb _).bind fun _ => hc _⟩
  · exact (hputs _).bind fun _ => only_parseArp hputc (hfield 14 28 (by omega))
  · trivial

end

attribute [irreducible] parseArp printFrame

/-! ## `virt_mmio_net_poll_rx` -/

/-- How a piece of `virt_mmio_net_poll_rx` ends: the call has returned, or its `while (1)` goes
round again. -/
inductive PollRx
  | returned
  | again (length : ℕ)
  deriving DecidableEq, Repr

/-- `virt_mmio_net_poll_rx` up to its loop. -/
def virtMmioNetPollRx (length : ℕ) : Driver PollRx := do
  uartPuts "Polling for received data via Virtio Network Device...\n"
  pure (.again length)

/-- The recycling of a processed descriptor. -/
def recycle (descIndex : ℕ) : Driver PUnit := do
  let slot := (← availIdx) % (← size)
  setAvailRing slot (descIndex % 2 ^ 16)
  setAvailIdx (((← availIdx) + 1) % 2 ^ 16)
  setLastUsedIdx (((← lastUsedIdx) + 1) % 2 ^ 16)
  virtMmioNotify .rx

/-- One iteration of the loop, with what follows `exit:` when it is left. -/
def pollRxLoop (length : ℕ) : Driver PollRx := do
  if (← lastUsedIdx) ≠ (← usedIdx) then
    uartPuts "Device updated used index to: "
    uartB2x (← usedIdx)
    uartPutc '\n'
    let slot := (← lastUsedIdx) % (← size)
    let descIndex ← usedId slot
    let len ← usedLen slot
    if descIndex ≥ (← size) then
      uartPuts "Device returned an invalid RX descriptor.\n"
      pure .returned
    else
      let bufAddr ← descAddr descIndex
      let len := if len > length then length else len
      let frame := bufAddr + sizeofVirtioNetHdr
      let frameLen := sub32 len sizeofVirtioNetHdr
      printFrame frame
      recycle descIndex
      uartPuts "Received data length: "
      uartB2x frameLen
      uartPutc '\n'
      uartPuts "Finished polling for received data.\n"
      pure .returned
  else pure (.again length)

/-! ## `virt_mmio_net_send` and the completion step of `virt_mmio_net_tx` -/

/-- `mem_copy`. -/
def memCopy (dest src size : ℕ) : Driver PUnit :=
  (List.range size).forM fun i => do
    setByte (dest + i) (← byte (src + i))

/-- The search for a free descriptor. -/
def searchDesc : (searched descIndex : ℕ) → Driver ℕ
  | 0, descIndex => pure descIndex
  | searched + 1, descIndex => do
      if (← inUse descIndex) = 0 then pure descIndex
      else searchDesc searched ((descIndex + 1) % (← size))

/-- `virt_mmio_net_send`. -/
def virtMmioNetSend (data length : ℕ) : Driver PUnit := do
  uartPuts "Sending data via Virtio Network Device...\n"
  if length > queueBufSize then
    uartPuts "TX packet exceeds queue buffer size.\n"
  else
    let descIndex ← nextDesc
    let descIndex ← searchDesc (← size) descIndex
    if (← inUse descIndex) ≠ 0 then
      uartPuts "No free TX descriptors.\n"
    else
      memCopy (← descAddr descIndex) data length
      setDescLen descIndex length
      setDescFlags descIndex 0
      let slot := (← availIdx) % (← size)
      setAvailRing slot descIndex
      setInUse descIndex 1
      setNextDesc ((descIndex + 1) % (← size))
      setAvailIdx (((← availIdx) + 1) % 2 ^ 16)
      virtMmioNotify .tx

/-- One iteration of the completion loop of `virt_mmio_net_tx`; `true` where it breaks. -/
def reclaimTx : Driver Bool := do
  if (← lastUsedIdx) ≠ (← usedIdx) then
    uartPuts "Device processed TX descriptor.\n"
    let slot := (← lastUsedIdx) % (← size)
    if (← usedId slot) < (← size) then
      setInUse (← usedId slot) 0
      setLastUsedIdx (((← lastUsedIdx) + 1) % 2 ^ 16)
      pure true
    else
      setLastUsedIdx (((← lastUsedIdx) + 1) % 2 ^ 16)
      pure true
  else pure false

end NetStack
