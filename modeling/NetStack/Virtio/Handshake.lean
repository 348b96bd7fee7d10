import NetStack.Virtio.Init

/-!
# The device handshake

`virt_mmio_negotiation` as a program over register accesses, against a device that is free to answer
any read of a register other than `STATUS` by whatever it likes, from all that has happened before.
`STATUS` holds the value written last; the device decides at the write whether it accepts
`FEATURES_OK`, and it may show `DEVICE_NEEDS_RESET` at any read.

A history is the list of accesses, the newest first, so that what precedes an access is the tail after
it.  `Always P` says that each access of a history satisfies `P` in view of what precedes it; `Proper`
is what the driver's accesses are to satisfy.  The registers behind a selector are read through
`readUnder` and `bank`.
-/

namespace NetStack

open Concurrent

/-! ## Registers -/

def virtioMmioDeviceFeatures : ℕ := 0x010
def virtioMmioDeviceFeaturesSel : ℕ := 0x014
def virtioMmioDriverFeatures : ℕ := 0x020
def virtioMmioDriverFeaturesSel : ℕ := 0x024
def virtioMmioQueueSel : ℕ := 0x030
def virtioMmioQueueNumMax : ℕ := 0x034
def virtioMmioQueueNum : ℕ := 0x038
def virtioMmioQueueReady : ℕ := 0x044
def virtioMmioQueueNotify : ℕ := 0x050
def virtioMmioStatus : ℕ := 0x070
def virtioMmioQueueDescLow : ℕ := 0x080
def virtioMmioQueueDescHigh : ℕ := 0x084
def virtioMmioQueueAvailLow : ℕ := 0x090
def virtioMmioQueueAvailHigh : ℕ := 0x094
def virtioMmioQueueUsedLow : ℕ := 0x0A0
def virtioMmioQueueUsedHigh : ℕ := 0x0A4

def acknowledge : ℕ := 1 <<< 0
def driver : ℕ := 1 <<< 1
def driverOk : ℕ := 1 <<< 2
def featuresOk : ℕ := 1 <<< 3
def deviceNeedsReset : ℕ := 1 <<< 6

def virtioFVersion1 : ℕ := 1 <<< 0
def virtioNetFMac : ℕ := 1 <<< 15

/-! ## The device -/

/-- An access to a register. -/
inductive Access
  | read (offset value : ℕ)
  | write (offset value : ℕ)
  deriving DecidableEq, Repr

/-- A device: its answer to a read, whether it accepts the features just written, and whether it
shows `DEVICE_NEEDS_RESET`, each from the history. -/
structure MmioDevice where
  answer : List Access → ℕ → ℕ
  accepts : List Access → Bool
  needsReset : List Access → Bool

/-- `STATUS`: the value written last, without `FEATURES_OK` if that has been refused. -/
def MmioDevice.status (d : MmioDevice) : List Access → ℕ
  | [] => 0
  | .read _ _ :: h => d.status h
  | .write o v :: h =>
      if o = virtioMmioStatus then
        if d.accepts (.write o v :: h) then v else v ^^^ (v &&& featuresOk)
      else d.status h

def MmioDevice.read (d : MmioDevice) (h : List Access) (o : ℕ) : ℕ :=
  if o = virtioMmioStatus then d.status h ||| (if d.needsReset h then deviceNeedsReset else 0)
  else d.answer h o

/-! ## The driver -/

inductive MmioOp
  | read (offset : ℕ)
  | write (offset value : ℕ)
  | puts (str : String)

@[reducible] def MmioOp.Resp : MmioOp → Type
  | .read _ => ℕ
  | .write _ _ | .puts _ => PUnit

/-- The accesses so far, and what has been sent to the UART. -/
structure MmioState where
  history : List Access
  out : List Char

def MmioOp.exec (d : MmioDevice) : (o : MmioOp) → MmioState → o.Resp × MmioState
  | .read o, s => (d.read s.history o, { s with history := .read o (d.read s.history o) :: s.history })
  | .write o v, s => (⟨⟩, { s with history := .write o v :: s.history })
  | .puts str, s => (⟨⟩, { s with out := s.out ++ str.toList })

abbrev Mmio : Type → Type := Prog MmioOp MmioOp.Resp

def virtMmioRead (offset : ℕ) : Mmio ℕ := .op (.read offset) .ret
def virtMmioWrite (offset value : ℕ) : Mmio PUnit := .op (.write offset value) .ret
def Mmio.uartPuts (str : String) : Mmio PUnit := .op (.puts str) .ret

/-- `queue->ring->desc`. -/
def VirtioNetQueue.descArea (queue : VirtioNetQueue) : ℕ := queue.ring

/-- `&queue->ring->avail`. -/
def VirtioNetQueue.availArea (queue : VirtioNetQueue) : ℕ := queue.ring + sizeofVirtqDesc * descQueueSize

/-- `&queue->ring->used`. -/
def VirtioNetQueue.usedArea (queue : VirtioNetQueue) : ℕ :=
  queue.ring + sizeofVirtqDesc * descQueueSize + sizeofVirtqAvail

/-- `virt_mmio_setup_queue`; the value is whether it returns `0`. -/
def virtMmioSetupQueue (queueIndex : ℕ) (queue : VirtioNetQueue) : Mmio Bool := do
  virtMmioWrite virtioMmioQueueSel queueIndex
  let maxSize ← virtMmioRead virtioMmioQueueNumMax
  if maxSize < queue.size then
    Mmio.uartPuts "Virtio queue is smaller than the driver queue.\n"
    pure false
  else
    virtMmioWrite virtioMmioQueueNum queue.size
    virtMmioWrite virtioMmioQueueDescLow (queue.descArea % 2 ^ 32)
    virtMmioWrite virtioMmioQueueDescHigh (queue.descArea >>> 32 % 2 ^ 32)
    virtMmioWrite virtioMmioQueueAvailLow (queue.availArea % 2 ^ 32)
    virtMmioWrite virtioMmioQueueAvailHigh (queue.availArea >>> 32 % 2 ^ 32)
    virtMmioWrite virtioMmioQueueUsedLow (queue.usedArea % 2 ^ 32)
    virtMmioWrite virtioMmioQueueUsedHigh (queue.usedArea >>> 32 % 2 ^ 32)
    virtMmioWrite virtioMmioQueueReady 1
    pure true

/-- The loop over the queues. -/
def setupQueues (queues : QueueIndex → VirtioNetQueue) : List QueueIndex → Mmio Bool
  | [] => pure true
  | q :: qs => do
      if ← virtMmioSetupQueue q.toNat (queues q) then setupQueues queues qs
      else pure false

/-- `virt_mmio_negotiation`; the value is whether it returns `0`. -/
def virtMmioNegotiation (queues : QueueIndex → VirtioNetQueue) : Mmio Bool := do
  Mmio.uartPuts "Starting Virtio MMIO handshake...\n"
  virtMmioWrite virtioMmioStatus acknowledge
  virtMmioWrite virtioMmioStatus (acknowledge ||| driver)
  virtMmioWrite virtioMmioDeviceFeaturesSel 0
  let featLow := (← virtMmioRead virtioMmioDeviceFeatures) &&& virtioNetFMac
  virtMmioWrite virtioMmioDeviceFeaturesSel 1
  let featHigh ← virtMmioRead virtioMmioDeviceFeatures
  if featHigh &&& virtioFVersion1 = 0 then
    Mmio.uartPuts "Virtio MMIO device does not support VERSION_1.\n"
    pure false
  else
    virtMmioWrite virtioMmioDriverFeaturesSel 0
    virtMmioWrite virtioMmioDriverFeatures featLow
    virtMmioWrite virtioMmioDriverFeaturesSel 1
    virtMmioWrite virtioMmioDriverFeatures virtioFVersion1
    let status ← virtMmioRead virtioMmioStatus
    virtMmioWrite virtioMmioStatus (status ||| featuresOk)
    if (← virtMmioRead virtioMmioStatus) &&& featuresOk = 0 then
      Mmio.uartPuts "Virtio MMIO negotiation failed.\n"
      pure false
    else if ← setupQueues queues [.rx, .tx] then
      let status ← virtMmioRead virtioMmioStatus
      virtMmioWrite virtioMmioStatus (status ||| driverOk)
      virtMmioWrite virtioMmioQueueNotify QueueIndex.rx.toNat
      Mmio.uartPuts "Virtio MMIO negotiation completed.\n"
      pure true
    else pure false

/-! ## What the accesses are to satisfy -/

/-- Each access satisfies `P` in view of those before it. -/
def Always (P : Access → List Access → Prop) : List Access → Prop
  | [] => True
  | a :: h => P a h ∧ Always P h

/-- The value last written to a register. -/
def lastWritten (o : ℕ) : List Access → Option ℕ
  | [] => none
  | .read _ _ :: h => lastWritten o h
  | .write o' v :: h => if o' = o then some v else lastWritten o h

/-- The value last read from the register `o` while `sel` was selected in `selector`. -/
def readUnder (selector o sel : ℕ) : List Access → Option ℕ
  | [] => none
  | .write _ _ :: h => readUnder selector o sel h
  | .read o' v :: h => if o' = o ∧ lastWritten selector h = some sel then some v else readUnder selector o sel h

/-- The value written to a register of the selected queue since it was selected. -/
def bank (o : ℕ) : List Access → Option ℕ
  | [] => none
  | .read _ _ :: h => bank o h
  | .write o' v :: h => if o' = o then some v else if o' = virtioMmioQueueSel then none else bank o h

/-- An address given to the selected queue in two halves. -/
def bankAddr (low high : ℕ) (h : List Access) : Option ℕ := do
  let l ← bank low h
  let u ← bank high h
  if l < 2 ^ 32 ∧ u < 2 ^ 32 then some (l + 2 ^ 32 * u) else none

/-- The selected queue has its size and its three addresses. -/
structure QueueSet (queue : VirtioNetQueue) (h : List Access) : Prop where
  num : bank virtioMmioQueueNum h = some descQueueSize
  desc : bankAddr virtioMmioQueueDescLow virtioMmioQueueDescHigh h = some queue.descArea
  avail : bankAddr virtioMmioQueueAvailLow virtioMmioQueueAvailHigh h = some queue.availArea
  used : bankAddr virtioMmioQueueUsedLow virtioMmioQueueUsedHigh h = some queue.usedArea

/-- Queue `q` has been marked ready while it was selected. -/
def MarkedReady (q : ℕ) : List Access → Prop
  | [] => False
  | .read _ _ :: h => MarkedReady q h
  | .write o v :: h => (o = virtioMmioQueueReady ∧ v = 1 ∧ lastWritten virtioMmioQueueSel h = some q) ∨ MarkedReady q h

/-- Every bit of `v` is one of `w`. -/
def Within (v w : ℕ) : Prop := v &&& w = v

/-- What is asked of an access.  A feature word is part of the word offered under the same selector; a
queue is marked ready when it has its size and addresses; `STATUS` keeps the bits it was given, and
`DRIVER_OK` comes when both queues are ready. -/
structure Proper (queues : QueueIndex → VirtioNetQueue) (a : Access) (h : List Access) : Prop where
  feature : ∀ w, a = .write virtioMmioDriverFeatures w →
    ∃ sel offer, lastWritten virtioMmioDriverFeaturesSel h = some sel ∧
      readUnder virtioMmioDeviceFeaturesSel virtioMmioDeviceFeatures sel h = some offer ∧ Within w offer
  ready : ∀ v, a = .write virtioMmioQueueReady v →
    ∃ q, lastWritten virtioMmioQueueSel h = some q.toNat ∧ QueueSet (queues q) h
  keeps : ∀ v w, a = .write virtioMmioStatus v → .write virtioMmioStatus w ∈ h → Within w v
  driverOk : ∀ v, a = .write virtioMmioStatus v → v &&& driverOk ≠ 0 → ∀ q : QueueIndex, MarkedReady q.toNat h

/-- `DRIVER_OK` has been written. -/
def WroteDriverOk (h : List Access) : Prop := ∃ v, .write virtioMmioStatus v ∈ h ∧ v &&& driverOk ≠ 0

/-- The device offered `VERSION_1`, kept `FEATURES_OK` and has room in both queues. -/
structure Willing (h : List Access) : Prop where
  version1 : ∃ offer, readUnder virtioMmioDeviceFeaturesSel virtioMmioDeviceFeatures 1 h = some offer ∧
    offer &&& virtioFVersion1 ≠ 0
  kept : ∃ v, .read virtioMmioStatus v ∈ h ∧ v &&& featuresOk ≠ 0
  room : ∀ q : QueueIndex, ∃ n, readUnder virtioMmioQueueSel virtioMmioQueueNumMax q.toNat h = some n ∧ descQueueSize ≤ n

/-- The device refuses: its high feature word is without `VERSION_1`, `STATUS` is without the `FEATURES_OK` it was given,
or a queue has no room. -/
def Refusal (h : List Access) : Access → Prop
  | .write _ _ => False
  | .read o v =>
      (o = virtioMmioDeviceFeatures ∧ lastWritten virtioMmioDeviceFeaturesSel h = some 1 ∧ v &&& virtioFVersion1 = 0) ∨
      (o = virtioMmioStatus ∧ (∃ w, .write virtioMmioStatus w ∈ h ∧ w &&& featuresOk ≠ 0) ∧ v &&& featuresOk = 0) ∨
      (o = virtioMmioQueueNumMax ∧ (∃ q : QueueIndex, lastWritten virtioMmioQueueSel h = some q.toNat) ∧ v < descQueueSize)

/-- It has refused. -/
def Refused : List Access → Prop
  | [] => False
  | a :: h => Refusal h a ∨ Refused h

/-! ## Runs -/

/-- The program ends with `Q`. -/
def Leads {α : Type} (d : MmioDevice) (Q : α → List Access → Prop) (p : Mmio α) (s : MmioState) : Prop :=
  Q (p.run (MmioOp.exec d) s).1 (p.run (MmioOp.exec d) s).2.history

section

variable {α β : Type} {d : MmioDevice} {Q : α → List Access → Prop} {h : List Access} {out : List Char}

lemma leads_read {o : ℕ} {k : ℕ → Mmio α}
    (hk : ∀ v, v = d.read h o → Leads d Q (k v) ⟨.read o v :: h, out⟩) : Leads d Q (.op (.read o) k) ⟨h, out⟩ :=
  hk _ rfl

lemma leads_write {o v : ℕ} {k : PUnit → Mmio α} (hk : Leads d Q (k ⟨⟩) ⟨.write o v :: h, out⟩) :
    Leads d Q (.op (.write o v) k) ⟨h, out⟩ := hk

lemma leads_puts {str : String} {k : PUnit → Mmio α} (hk : Leads d Q (k ⟨⟩) ⟨h, out ++ str.toList⟩) :
    Leads d Q (.op (.puts str) k) ⟨h, out⟩ := hk

lemma leads_ret {a : α} (ha : Q a h) : Leads d Q (.ret a) ⟨h, out⟩ := ha

end

/-! ## Setting up one queue -/

/-- The accesses that set up a queue, the newest first. -/
def setupAccesses (queueIndex : ℕ) (queue : VirtioNetQueue) (maxSize : ℕ) : List Access :=
  [.write virtioMmioQueueReady 1,
    .write virtioMmioQueueUsedHigh (queue.usedArea >>> 32 % 2 ^ 32),
    .write virtioMmioQueueUsedLow (queue.usedArea % 2 ^ 32),
    .write virtioMmioQueueAvailHigh (queue.availArea >>> 32 % 2 ^ 32),
    .write virtioMmioQueueAvailLow (queue.availArea % 2 ^ 32),
    .write virtioMmioQueueDescHigh (queue.descArea >>> 32 % 2 ^ 32),
    .write virtioMmioQueueDescLow (queue.descArea % 2 ^ 32),
    .write virtioMmioQueueNum queue.size,
    .read virtioMmioQueueNumMax maxSize,
    .write virtioMmioQueueSel queueIndex]

lemma leads_setupQueue {α : Type} {d : MmioDevice} {Q : α → List Access → Prop} {h : List Access} {out : List Char}
    {i : ℕ} {queue : VirtioNetQueue} {f : Bool → Mmio α}
    (hsmall : ∀ n out, n < queue.size →
      Leads d Q (f false) ⟨.read virtioMmioQueueNumMax n :: .write virtioMmioQueueSel i :: h, out⟩)
    (hok : ∀ n, queue.size ≤ n → Leads d Q (f true) ⟨setupAccesses i queue n ++ h, out⟩) :
    Leads d Q (virtMmioSetupQueue i queue >>= f) ⟨h, out⟩ := by
  simp only [virtMmioSetupQueue, virtMmioWrite, virtMmioRead, Mmio.uartPuts, op_bind, ret_bind, pure_eq]
  refine leads_write (leads_read fun n _ => ?_)
  split_ifs with hlt
  · exact leads_puts (hsmall n _ hlt)
  · exact hok n (not_lt.mp hlt)

/-- A queue as `virt_mmio_net_virtq_init` leaves it: its size is set and its ring is in the address
space. -/
structure VirtioNetQueue.Attached (queue : VirtioNetQueue) : Prop where
  size : queue.size = descQueueSize
  ring : queue.ring + sizeofVirtq ≤ 2 ^ 64

/-- Initialised queues are. -/
lemma Initialised.attached {s s' : NetState} {owned : List ℕ} {r₁ b₁ r₂ b₂ : ℕ} (hi : Initialised s s' owned r₁ b₁ r₂ b₂) :
    ∀ q, (s'.queues q).Attached := by
  rcases hi.split with ⟨l, hs⟩
  have hfits : ∀ {r : ℕ}, r + 4096 * 2 ≤ 2 ^ 41 + 4096 → r + sizeofVirtq ≤ 2 ^ 64 := by
    intro r hr
    simp only [sizeofVirtq, sizeofVirtqDesc, sizeofVirtqAvail, sizeofVirtqUsed, descQueueSize_eq]
    omega
  intro q
  cases q with
  | rx =>
      refine ⟨hi.rx.size, ?_⟩
      rw [hi.rx.ring]
      exact hfits (hs.block_bounds (a := r₁) (n := 2) (by decide) fun x hx => by simp [hx]).2
  | tx =>
      refine ⟨hi.tx.size, ?_⟩
      rw [hi.tx.ring]
      exact hfits (hs.block_bounds (a := r₂) (n := 2) (by decide) fun x hx => by simp [hx]).2

attribute [simp] virtioMmioDeviceFeatures virtioMmioDeviceFeaturesSel virtioMmioDriverFeatures
  virtioMmioDriverFeaturesSel virtioMmioQueueSel virtioMmioQueueNumMax virtioMmioQueueNum
  virtioMmioQueueReady virtioMmioQueueNotify virtioMmioStatus virtioMmioQueueDescLow
  virtioMmioQueueDescHigh virtioMmioQueueAvailLow virtioMmioQueueAvailHigh virtioMmioQueueUsedLow
  virtioMmioQueueUsedHigh

/-- The halves of an address recombine. -/
lemma halves {a : ℕ} (ha : a < 2 ^ 64) :
    a % 2 ^ 32 < 2 ^ 32 ∧ a >>> 32 % 2 ^ 32 < 2 ^ 32 ∧ a % 2 ^ 32 + 2 ^ 32 * (a >>> 32 % 2 ^ 32) = a := by
  rw [Nat.shiftRight_eq_div_pow]
  omega

/-- When a queue is marked ready it has its size and addresses. -/
lemma queueSet_setup {queue : VirtioNetQueue} (hq : queue.Attached) (i n : ℕ) (h : List Access) :
    QueueSet queue ((setupAccesses i queue n).tail ++ h) := by
  have hring := hq.ring
  simp only [sizeofVirtq, sizeofVirtqDesc, sizeofVirtqAvail, sizeofVirtqUsed, descQueueSize_eq] at hring
  have haddr : ∀ {a : ℕ}, a < 2 ^ 64 → (do
      let l ← some (a % 2 ^ 32)
      let u ← some (a >>> 32 % 2 ^ 32)
      if l < 2 ^ 32 ∧ u < 2 ^ 32 then some (l + 2 ^ 32 * u) else none) = some a := by
    intro a ha
    rcases halves ha with ⟨hl, hu, heq⟩
    simp only [Option.bind_eq_bind, Option.bind_some]
    rw [if_pos ⟨hl, hu⟩, heq]
  refine ⟨?_, ?_, ?_, ?_⟩
  · simp [setupAccesses, bank, hq.size]
  · refine Eq.trans ?_ (haddr (a := queue.descArea) ?_)
    · simp [setupAccesses, bankAddr, bank]
    · rw [VirtioNetQueue.descArea]
      omega
  · refine Eq.trans ?_ (haddr (a := queue.availArea) ?_)
    · simp [setupAccesses, bankAddr, bank]
    · simp only [VirtioNetQueue.availArea, sizeofVirtqDesc, descQueueSize_eq]
      omega
  · refine Eq.trans ?_ (haddr (a := queue.usedArea) ?_)
    · simp [setupAccesses, bankAddr, bank]
    · simp only [VirtioNetQueue.usedArea, sizeofVirtqDesc, sizeofVirtqAvail, descQueueSize_eq]
      omega

/-- Nothing is asked of most accesses. -/
lemma proper_of_ne {queues : QueueIndex → VirtioNetQueue} {a : Access} {h : List Access}
    (hf : ∀ v, a ≠ .write virtioMmioDriverFeatures v) (hr : ∀ v, a ≠ .write virtioMmioQueueReady v)
    (hs : ∀ v, a ≠ .write virtioMmioStatus v) : Proper queues a h where
  feature := fun w ha => absurd ha (hf w)
  ready := fun v ha => absurd ha (hr v)
  keeps := fun v _ ha => absurd ha (hs v)
  driverOk := fun v ha => absurd ha (hs v)

/-- What the driver and the device have agreed on when the features are settled; it stays so while the
queues are set up. -/
structure Agreed (queues : QueueIndex → VirtioNetQueue) (d : MmioDevice) (h : List Access) : Prop where
  proper : Always (Proper queues) h
  status : ∀ w, .write virtioMmioStatus w ∈ h → Within w (d.status h) ∧ w &&& driverOk = 0
  version1 : ∃ offer, readUnder virtioMmioDeviceFeaturesSel virtioMmioDeviceFeatures 1 h = some offer ∧
    offer &&& virtioFVersion1 ≠ 0
  kept : ∃ v, .read virtioMmioStatus v ∈ h ∧ v &&& featuresOk ≠ 0
  accepted : d.status h &&& featuresOk ≠ 0
  unrefused : ¬ Refused h

variable {queues : QueueIndex → VirtioNetQueue} {d : MmioDevice} {h : List Access} {q : QueueIndex} {n : ℕ}

lemma Agreed.not_wrote (ha : Agreed queues d h) : ¬ WroteDriverOk h := by
  rintro ⟨v, hv, hok⟩
  exact hok (ha.status v hv).2

/-- A queue is selected. -/
lemma Agreed.select (ha : Agreed queues d h) (i n : ℕ) :
    Always (Proper queues) (.read virtioMmioQueueNumMax n :: .write virtioMmioQueueSel i :: h) :=
  ⟨proper_of_ne (by simp) (by simp) (by simp), proper_of_ne (by simp) (by simp) (by simp), ha.proper⟩

lemma Agreed.setup (ha : Agreed queues d h) (hq : (queues q).Attached) (hn : descQueueSize ≤ n) :
    Agreed queues d (setupAccesses q.toNat (queues q) n ++ h) where
  proper := by
    refine ⟨?_, ?_⟩
    · refine ⟨by simp, fun v _ => ⟨q, ?_, queueSet_setup hq q.toNat n h⟩, by simp, by simp⟩
      simp [lastWritten]
    · refine ⟨?_, ?_, ?_, ?_, ?_, ?_, ?_, ha.select q.toNat n⟩ <;>
        exact proper_of_ne (by simp) (by simp) (by simp)
  status := by simpa [setupAccesses, MmioDevice.status] using ha.status
  version1 := by simpa [setupAccesses, readUnder] using ha.version1
  kept := by simpa [setupAccesses] using ha.kept
  accepted := by simpa [setupAccesses, MmioDevice.status] using ha.accepted
  unrefused := by
    have hroom : ¬ n < 256 := not_lt.mpr hn
    simpa [setupAccesses, Refused, Refusal, hroom] using ha.unrefused

lemma readUnder_setup (q : QueueIndex) (queue : VirtioNetQueue) (n : ℕ) (h : List Access) (q' : QueueIndex) :
    readUnder virtioMmioQueueSel virtioMmioQueueNumMax q'.toNat (setupAccesses q.toNat queue n ++ h) =
      if q = q' then some n else readUnder virtioMmioQueueSel virtioMmioQueueNumMax q'.toNat h := by
  cases q <;> cases q' <;> simp [setupAccesses, readUnder, lastWritten, QueueIndex.toNat]

lemma markedReady_setup (q : QueueIndex) (queue : VirtioNetQueue) (n : ℕ) (h : List Access) :
    MarkedReady q.toNat (setupAccesses q.toNat queue n ++ h) := by
  refine .inl ⟨rfl, rfl, ?_⟩
  simp [lastWritten]

lemma MarkedReady.setup {i j : ℕ} {queue : VirtioNetQueue} (hm : MarkedReady i h) :
    MarkedReady i (setupAccesses j queue n ++ h) := by
  simp [setupAccesses, MarkedReady, hm]

/-- What is proved of a handshake: its accesses are proper, it succeeds exactly when it writes `DRIVER_OK`, that is, when
the device is willing, and it fails exactly when the device refuses. -/
structure Handshake (queues : QueueIndex → VirtioNetQueue) (ok : Bool) (h : List Access) : Prop where
  proper : Always (Proper queues) h
  wrote : ok = true ↔ WroteDriverOk h
  willing : ok = true ↔ Willing h
  refused : ok = false ↔ Refused h

lemma Handshake.failed (hp : Always (Proper queues) h) (hw : ¬ WroteDriverOk h) (hd : ¬ Willing h) (hr : Refused h) :
    Handshake queues false h := ⟨hp, by simpa using hw, by simpa using hd, by simpa using hr⟩

/-- A queue is too small. -/
lemma Agreed.too_small (ha : Agreed queues d h) (hlt : n < descQueueSize) :
    Handshake queues false (.read virtioMmioQueueNumMax n :: .write virtioMmioQueueSel q.toNat :: h) := by
  refine .failed (ha.select q.toNat n) (by simpa [WroteDriverOk] using ha.not_wrote) (fun hw => ?_) ?_
  · rcases hw.room q with ⟨m, hm, hle⟩
    simp only [readUnder, lastWritten, and_self, if_true, Option.some.injEq] at hm
    omega
  · exact .inl (.inr (.inr ⟨rfl, ⟨q, by simp [lastWritten]⟩, hlt⟩))

/-- A read of `STATUS`. -/
lemma read_status {v : ℕ} (hv : v = d.read h virtioMmioStatus) :
    v = d.status h ∨ v = d.status h ||| deviceNeedsReset := by
  rw [hv, MmioDevice.read, if_pos rfl]
  split_ifs
  · exact .inr rfl
  · exact .inl (Nat.or_zero _)

lemma within_or {v w u : ℕ} (h : Within v w) : Within v (w ||| u) := by
  rw [Within] at h ⊢
  rw [Nat.and_or_distrib_left, h]
  apply Nat.eq_of_testBit_eq
  intro i
  simp only [Nat.testBit_or, Nat.testBit_and]
  cases v.testBit i <;> simp

/-- No bit that was written is lost when the status read back is written with another. -/
lemma Agreed.within {v w u : ℕ} (ha : Agreed queues d h) (hv : v = d.read h virtioMmioStatus)
    (hw : .write virtioMmioStatus w ∈ h) : Within w (v ||| u) := by
  have hold := (ha.status w hw).1
  rcases read_status hv with hv | hv
  · rw [hv]
    exact within_or hold
  · rw [hv]
    exact within_or (within_or hold)

/-- The device still says `FEATURES_OK`. -/
lemma Agreed.featuresOk_read {v : ℕ} (ha : Agreed queues d h) (hv : v = d.read h virtioMmioStatus) :
    v &&& featuresOk ≠ 0 := by
  rcases read_status hv with hv | hv
  · rw [hv]
    exact ha.accepted
  · rw [hv, Nat.and_or_distrib_right]
    intro hzero
    exact ha.accepted (Nat.or_eq_zero_iff.mp hzero).1

/-- **Both queues are ready**: `DRIVER_OK` is written. -/
lemma Agreed.completed {v m : ℕ} (ha : Agreed queues d h) (hm : ∀ q : QueueIndex, MarkedReady q.toNat h)
    (hroom : ∀ q : QueueIndex, ∃ n, readUnder virtioMmioQueueSel virtioMmioQueueNumMax q.toNat h = some n ∧ descQueueSize ≤ n)
    (hv : v = d.read h virtioMmioStatus) :
    Handshake queues true (.write virtioMmioQueueNotify m :: .write virtioMmioStatus (v ||| driverOk) ::
      .read virtioMmioStatus v :: h) := by
  have hok := ha.featuresOk_read hv
  refine ⟨⟨proper_of_ne (by simp) (by simp) (by simp), ⟨by simp, by simp, ?_, ?_⟩,
    proper_of_ne (by simp) (by simp) (by simp), ha.proper⟩, ?_, ?_, ?_⟩
  · rintro x w ⟨⟩ hw
    exact ha.within hv (by simpa using hw)
  · rintro x - - q
    exact hm q
  · refine iff_of_true rfl ⟨v ||| driverOk, by simp, ?_⟩
    have hbit : Within driverOk (v ||| driverOk) := by
      rw [Nat.or_comm]
      exact within_or (Nat.and_self _)
    rw [Nat.and_comm, hbit]
    decide
  · refine iff_of_true rfl ⟨by simpa [readUnder] using ha.version1, ?_, fun q => ?_⟩
    · rcases ha.kept with ⟨u, hu, hok⟩
      exact ⟨u, List.mem_cons_of_mem _ (List.mem_cons_of_mem _ (List.mem_cons_of_mem _ hu)), hok⟩
    · simpa [readUnder] using hroom q
  · refine iff_of_false (by simp) ?_
    have hnone := ha.unrefused
    simpa [Refused, Refusal, hok] using hnone

/-! ## The features -/

/-- The accesses up to the device's feature words, the newest first. -/
def featureReads (low high : ℕ) : List Access :=
  [.read virtioMmioDeviceFeatures high,
    .write virtioMmioDeviceFeaturesSel 1,
    .read virtioMmioDeviceFeatures low,
    .write virtioMmioDeviceFeaturesSel 0,
    .write virtioMmioStatus (acknowledge ||| driver),
    .write virtioMmioStatus acknowledge]

/-- The driver's words and `FEATURES_OK`, with the reads of `STATUS` around it. -/
def featureWrites (low status answer : ℕ) : List Access :=
  [.read virtioMmioStatus answer,
    .write virtioMmioStatus (status ||| featuresOk),
    .read virtioMmioStatus status,
    .write virtioMmioDriverFeatures virtioFVersion1,
    .write virtioMmioDriverFeaturesSel 1,
    .write virtioMmioDriverFeatures (low &&& virtioNetFMac),
    .write virtioMmioDriverFeaturesSel 0]

lemma proper_featureReads (queues : QueueIndex → VirtioNetQueue) (low high : ℕ) :
    Always (Proper queues) (featureReads low high) := by
  refine ⟨?_, ?_, ?_, ?_, ⟨by simp, by simp, ?_, ?_⟩, ⟨by simp, by simp, by simp, ?_⟩, trivial⟩
  · exact proper_of_ne (by simp) (by simp) (by simp)
  · exact proper_of_ne (by simp) (by simp) (by simp)
  · exact proper_of_ne (by simp) (by simp) (by simp)
  · exact proper_of_ne (by simp) (by simp) (by simp)
  · rintro v w ⟨⟩ hw
    obtain rfl : w = acknowledge := by simpa using hw
    rfl
  · rintro v ⟨⟩ hok
    exact absurd rfl hok
  · rintro v ⟨⟩ hok
    exact absurd rfl hok

lemma version1_within {high : ℕ} (hv : high &&& virtioFVersion1 ≠ 0) : Within virtioFVersion1 high := by
  rw [Within, Nat.and_comm]
  rw [virtioFVersion1] at hv ⊢
  simp only [Nat.shiftLeft_zero, Nat.and_one_is_mod] at hv ⊢
  omega

lemma and_within (v w : ℕ) : Within (v &&& w) v := by
  rw [Within, Nat.and_assoc, Nat.and_comm w v, ← Nat.and_assoc, Nat.and_self]

/-- The value of `STATUS` before `FEATURES_OK` is written. -/
lemma status_before {low high w₁ w₂ w₃ w₄ v : ℕ}
    (hv : v = d.read (.write virtioMmioDriverFeatures w₁ :: .write virtioMmioDriverFeaturesSel w₂ ::
      .write virtioMmioDriverFeatures w₃ :: .write virtioMmioDriverFeaturesSel w₄ :: featureReads low high)
        virtioMmioStatus) : v = 3 ∨ v = 67 := by
  have hstatus : d.status (.write virtioMmioDriverFeatures w₁ :: .write virtioMmioDriverFeaturesSel w₂ ::
      .write virtioMmioDriverFeatures w₃ :: .write virtioMmioDriverFeaturesSel w₄ :: featureReads low high) = 3 := by
    simp only [MmioDevice.status, featureReads, virtioMmioDriverFeatures, virtioMmioDriverFeaturesSel,
      virtioMmioStatus, virtioMmioDeviceFeaturesSel]
    split_ifs <;> first | rfl | omega
  have hread := read_status hv
  rw [hstatus] at hread
  exact hread

/-- The device does not offer `VERSION_1`. -/
lemma unsupported {low high : ℕ} (hv : high &&& virtioFVersion1 = 0) :
    Handshake queues false (featureReads low high) := by
  refine .failed (proper_featureReads queues low high) ?_ (fun hw => ?_) (.inl (.inl ⟨rfl, rfl, hv⟩))
  · rintro ⟨v, hmem, hok⟩
    have hcases : v = acknowledge ||| driver ∨ v = acknowledge := by simpa [featureReads] using hmem
    rcases hcases with rfl | rfl
    · exact hok rfl
    · exact hok rfl
  · rcases hw.version1 with ⟨offer, hoffer, hne⟩
    have heq : high = offer := by simpa [featureReads, readUnder, lastWritten] using hoffer
    rw [← heq] at hne
    exact hne hv

section

variable {low high status answer : ℕ}

/-- The values `STATUS` is given up to `FEATURES_OK`. -/
lemma statusWrites (answer : ℕ) {w : ℕ} (hst : status = 3 ∨ status = 67)
    (hw : .write virtioMmioStatus w ∈ featureWrites low status answer ++ featureReads low high) :
    Within w (status ||| featuresOk) ∧ w &&& driverOk = 0 := by
  have hcases : w = status ||| featuresOk ∨ w = acknowledge ||| driver ∨ w = acknowledge := by
    simpa [featureWrites, featureReads] using hw
  rcases hst with rfl | rfl <;> rcases hcases with rfl | rfl | rfl <;> exact ⟨rfl, rfl⟩

lemma proper_featureWrites (queues : QueueIndex → VirtioNetQueue) (hv : high &&& virtioFVersion1 ≠ 0)
    (hst : status = 3 ∨ status = 67) :
    Always (Proper queues) (featureWrites low status answer ++ featureReads low high) := by
  refine ⟨?_, ⟨by simp, by simp, ?_, ?_⟩, ?_, ⟨?_, by simp, by simp, by simp⟩, ?_, ⟨?_, by simp, by simp, by simp⟩, ?_,
    proper_featureReads queues low high⟩
  · exact proper_of_ne (by simp) (by simp) (by simp)
  · rintro v w ⟨⟩ hw
    exact (statusWrites answer hst (List.mem_cons_of_mem _ (List.mem_cons_of_mem _ hw))).1
  · rintro v ⟨⟩ hok
    rcases hst with rfl | rfl <;> exact absurd rfl hok
  · exact proper_of_ne (by simp) (by simp) (by simp)
  · rintro w ⟨⟩
    refine ⟨1, high, ?_, ?_, version1_within hv⟩ <;> simp [featureReads, readUnder, lastWritten]
  · exact proper_of_ne (by simp) (by simp) (by simp)
  · rintro w ⟨⟩
    refine ⟨0, low, ?_, ?_, and_within _ _⟩ <;> simp [featureReads, readUnder, lastWritten]
  · exact proper_of_ne (by simp) (by simp) (by simp)

/-- The device refuses the features. -/
lemma refused (hv : high &&& virtioFVersion1 ≠ 0) (hst : status = 3 ∨ status = 67)
    (hans : answer &&& featuresOk = 0) :
    Handshake queues false (featureWrites low status answer ++ featureReads low high) := by
  refine .failed (proper_featureWrites queues hv hst) ?_ (fun hw => ?_)
    (.inl (.inr (.inl ⟨rfl, ⟨status ||| featuresOk, by simp, ?_⟩, hans⟩)))
  · rintro ⟨v, hmem, hok⟩
    exact hok (statusWrites answer hst hmem).2
  · rcases hw.kept with ⟨v, hmem, hok⟩
    have hcases : v = answer ∨ v = status := by simpa [featureWrites, featureReads] using hmem
    rcases hcases with rfl | rfl
    · exact hok hans
    · rcases hst with rfl | rfl <;> exact hok rfl
  · rcases hst with rfl | rfl <;> decide

/-- The device accepts them. -/
lemma agreed (hv : high &&& virtioFVersion1 ≠ 0) (hst : status = 3 ∨ status = 67)
    (hread : answer = d.read ((featureWrites low status answer).tail ++ featureReads low high) virtioMmioStatus)
    (hans : answer &&& featuresOk ≠ 0) :
    Agreed queues d (featureWrites low status answer ++ featureReads low high) := by
  -- a refusal would show in the answer
  have hkept : d.status (featureWrites low status answer ++ featureReads low high) = status ||| featuresOk := by
    have hcases := read_status hread
    by_cases hacc : d.accepts ((featureWrites low status answer).tail ++ featureReads low high) = true
    · exact if_pos hacc
    · have hval : d.status ((featureWrites low status answer).tail ++ featureReads low high) =
          (status ||| featuresOk) ^^^ ((status ||| featuresOk) &&& featuresOk) := if_neg hacc
      rw [hval] at hcases
      rcases hst with rfl | rfl <;> rcases hcases with rfl | rfl <;> exact absurd rfl hans
  refine ⟨proper_featureWrites queues hv hst, fun w hw => ?_, ?_, ⟨answer, by simp [featureWrites], hans⟩, ?_, ?_⟩
  · rw [hkept]
    exact statusWrites answer hst hw
  · exact ⟨high, by simp [featureWrites, featureReads, readUnder, lastWritten], hv⟩
  · rw [hkept]
    rcases hst with rfl | rfl <;> decide
  · have hearly : acknowledge &&& featuresOk = 0 ∧ (acknowledge ||| driver) &&& featuresOk = 0 := by decide
    simp [featureWrites, featureReads, Refused, Refusal, lastWritten, hans, hv, hearly]

end

/-! ## `virt_mmio_negotiation` -/

/-- The end of the handshake, after the loop over the queues. -/
lemma leads_completed {out : List Char} {m : ℕ} (ha : Agreed queues d h) (hm : ∀ q : QueueIndex, MarkedReady q.toNat h)
    (hroom : ∀ q : QueueIndex, ∃ n,
      readUnder virtioMmioQueueSel virtioMmioQueueNumMax q.toNat h = some n ∧ descQueueSize ≤ n) :
    Leads d (Handshake queues) (.op (.read virtioMmioStatus) fun status =>
      .op (.write virtioMmioStatus (status ||| driverOk)) fun _ => .op (.write virtioMmioQueueNotify m) fun _ =>
        .op (.puts "Virtio MMIO negotiation completed.\n") fun _ => .ret true) ⟨h, out⟩ :=
  leads_read fun _ hv => leads_write (leads_write (leads_puts (leads_ret (ha.completed hm hroom hv))))

/-- **The queues are set up** after the features have been agreed on. -/
lemma leads_setupQueues {out : List Char} {p : Mmio Bool} (ha : Agreed queues d h) (hq : ∀ q, (queues q).Attached)
    (hp : ∀ h' out', Agreed queues d h' → (∀ q : QueueIndex, MarkedReady q.toNat h') →
      (∀ q : QueueIndex, ∃ n, readUnder virtioMmioQueueSel virtioMmioQueueNumMax q.toNat h' = some n ∧ descQueueSize ≤ n) →
      Leads d (Handshake queues) p ⟨h', out'⟩) :
    Leads d (Handshake queues) (setupQueues queues [.rx, .tx] >>= fun ok => if ok then p else .ret false) ⟨h, out⟩ := by
  simp only [setupQueues, bind_bind]
  refine leads_setupQueue (fun n out hlt => ?_) fun n hn => ?_
  · rw [(hq .rx).size] at hlt
    exact leads_ret (ha.too_small hlt)
  rw [(hq .rx).size] at hn
  have ha₁ := ha.setup (hq .rx) hn
  simp only [if_true, bind_bind]
  refine leads_setupQueue (fun m out hlt => ?_) fun m hm => ?_
  · rw [(hq .tx).size] at hlt
    exact leads_ret (ha₁.too_small hlt)
  rw [(hq .tx).size] at hm
  refine hp _ _ (ha₁.setup (hq .tx) hm) (fun q => ?_) fun q => ?_
  · cases q with
    | rx => exact (markedReady_setup .rx (queues .rx) n h).setup
    | tx => exact markedReady_setup .tx (queues .tx) m _
  · rw [readUnder_setup]
    cases q with
    | rx =>
        refine ⟨n, ?_, hn⟩
        rw [if_neg (by simp), readUnder_setup, if_pos rfl]
    | tx => exact ⟨m, if_pos rfl, hm⟩

/-- **The handshake, for every device.**  Every access is proper in view of those before it; the
handshake returns `0` exactly if it wrote `DRIVER_OK`, and exactly if the device offered `VERSION_1`,
kept `FEATURES_OK` and reported room for 256 descriptors in both queues; and it returns `-1` exactly if
the device refused one of these. -/
theorem negotiation_handshake (d : MmioDevice) (queues : QueueIndex → VirtioNetQueue) (out : List Char)
    (hq : ∀ q, (queues q).Attached) :
    Handshake queues ((virtMmioNegotiation queues).run (MmioOp.exec d) ⟨[], out⟩).1
      ((virtMmioNegotiation queues).run (MmioOp.exec d) ⟨[], out⟩).2.history := by
  suffices hleads : Leads d (Handshake queues) (virtMmioNegotiation queues) ⟨[], out⟩ from hleads
  simp only [virtMmioNegotiation, virtMmioWrite, virtMmioRead, Mmio.uartPuts, op_bind, ret_bind, pure_eq]
  refine leads_puts (leads_write (leads_write (leads_write (leads_read fun low _ => leads_write
    (leads_read fun high _ => ?_)))))
  split_ifs with hv
  · exact leads_puts (leads_ret (unsupported hv))
  refine leads_write (leads_write (leads_write (leads_write (leads_read fun status hstatus => leads_write
    (leads_read fun answer hanswer => ?_)))))
  have hst : status = 3 ∨ status = 67 := status_before hstatus
  split_ifs with hans
  · exact leads_puts (leads_ret (refused hv hst hans))
  refine leads_setupQueues (agreed hv hst hanswer hans) hq fun h' out' ha hm hroom => ?_
  exact leads_completed ha hm hroom

/-- A device that agrees to everything. -/
def agreeable : MmioDevice where
  answer _ _ := 2 ^ 32 - 1
  accepts _ := true
  needsReset _ := false

theorem negotiation_handshake_agreeable :
    ∃ queues : QueueIndex → VirtioNetQueue, (∀ q, (queues q).Attached) ∧
      Willing ((virtMmioNegotiation queues).run (MmioOp.exec agreeable) ⟨[], []⟩).2.history := by
  let queue : VirtioNetQueue := ⟨0x80200000, readVirtq (fun _ => 0) 0x80200000, 0x80202000, 256, 0, 0, fun _ => 0⟩
  have hring : queue.ring + sizeofVirtq ≤ 2 ^ 64 := by decide
  have hq : ∀ q : QueueIndex, ((fun _ => queue) q).Attached := fun _ => ⟨rfl, hring⟩
  have hok : ((virtMmioNegotiation fun _ => queue).run (MmioOp.exec agreeable) ⟨[], []⟩).1 = true := rfl
  exact ⟨fun _ => queue, hq, (negotiation_handshake agreeable _ [] hq).willing.mp hok⟩

end NetStack
