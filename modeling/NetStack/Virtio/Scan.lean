import NetStack.Virtio.Handshake
import NetStack.Virtio.Leak
import NetStack.Virtio.Output

/-!
# One slot of `virt_find_all_devices`

What the loop does with the device in a slot: it reads who is there, and a network device is reset, gets the queues
of a new initialisation, is negotiated with and polled once.  `ScanSlot` is the body of the loop; `SlotReport` is what
the device has seen at the end of it.

The handshake does not begin with an empty history here, but after a reset.  A device that has been reset is one
that may remember (`MmioDevice.after`), and what is proved of the handshake holds of it as well.
-/

namespace NetStack

open Concurrent

/-! ## The functions -/

def virtioMagic : ℕ := 0x74726976
def qemuVendorId : ℕ := 0x554D4551
def virtioMmioConfig : ℕ := 0x100

def Mmio.uartPutc (c : Char) : Mmio PUnit := Mmio.uartPuts (String.singleton c)
def Mmio.uartB2x (b : ℕ) : Mmio PUnit := Mmio.uartPuts (String.ofList (b2xText b))

/-- A line of `virt_print_device_info`. -/
def printRegister (text : String) (offset : ℕ) : Mmio PUnit := do
  Mmio.uartPuts text
  Mmio.uartB2x (← virtMmioRead offset)
  Mmio.uartPutc '\n'

/-- `virt_print_device_info`. -/
def virtPrintDeviceInfo : Mmio PUnit := do
  Mmio.uartPuts "Virtio MMIO Device Info:\n"
  printRegister "Magic: " 0x000
  printRegister "Version: " 0x004
  printRegister "Device ID: " 0x008
  printRegister "Vendor ID: " 0x00c
  printRegister "Queue Max Size: " virtioMmioQueueNumMax
  printRegister "Host feature sel: " virtioMmioDeviceFeaturesSel
  printRegister "Host Features Low: " virtioMmioDeviceFeatures
  printRegister "Guest Features Low: " virtioMmioDriverFeatures
  virtMmioWrite virtioMmioDeviceFeaturesSel 1
  printRegister "Host feature sel: " virtioMmioDeviceFeaturesSel
  printRegister "Host Features High: " virtioMmioDeviceFeatures
  printRegister "Guest Features High: " virtioMmioDriverFeatures

/-- `virt_mmio_read_config`: the bytes, in order. -/
def virtMmioReadConfig (offset : ℕ) : (len : ℕ) → Mmio (List ℕ)
  | 0 => pure []
  | len + 1 => do
      let buf ← virtMmioReadConfig offset len
      let b ← virtMmioRead (virtioMmioConfig + offset + len)
      pure (buf ++ [b % 2 ^ 8])

/-- The loop of `virt_mmio_net_get_mac_address`. -/
def printMacBuf : List ℕ → Mmio PUnit
  | [] => pure ⟨⟩
  | [b] => Mmio.uartB2x b
  | b :: mac => do
      Mmio.uartB2x b
      Mmio.uartPutc ':'
      printMacBuf mac

/-- `virt_mmio_net_get_mac_address`. -/
def virtMmioNetGetMacAddress : Mmio PUnit := do
  let macBuf ← virtMmioReadConfig 0x0 6
  Mmio.uartPuts "MAC Address: "
  printMacBuf macBuf
  Mmio.uartPutc '\n'

/-- The body of the loop of `virt_find_all_devices` up to the reset; the value is whether there is a network device. -/
def probeSlot (i : ℕ) : Mmio Bool := do
  if (← virtMmioRead 0x000) = virtioMagic then
    if (← virtMmioRead 0x00c) = qemuVendorId then
      Mmio.uartPuts "Slot "
      Mmio.uartB2x i
      Mmio.uartPuts ": "
      let id ← virtMmioRead 0x008
      if id = 0 then
        Mmio.uartPuts "Found placeholder.\n"
        pure false
      else if id = 1 then
        Mmio.uartPuts "Found Virtio Network Device.\n"
        virtPrintDeviceInfo
        virtMmioWrite virtioMmioStatus 0
        pure true
      else if id = 2 then
        Mmio.uartPuts "Found Virtio Block Device.\n"
        pure false
      else
        Mmio.uartPuts "Found Unknown Virtio Device. Device ID: "
        Mmio.uartB2x (← virtMmioRead 0x008)
        Mmio.uartPutc '\n'
        pure false
    else pure false
  else pure false

def failedText : String := "Virtio network initialization failed.\n"

/-- The notifications of a poll, as the device sees them; the newest first. -/
def notifies (before after : NetState) : List Access :=
  ((after.notified.drop before.notified.length).map (.write virtioMmioQueueNotify)).reverse

/-- What came of a slot: nothing to initialise, no memory for the queues, or a handshake with some queues. -/
inductive Outcome
  | skipped
  | noMemory
  | negotiated (queues : QueueIndex → VirtioNetQueue) (ok : Bool)

/-- **The body of the loop**, for a device with the history `h`. -/
inductive ScanSlot (d : MmioDevice) (i : ℕ) (s : NetState) (h : List Access) : Outcome → NetState → List Access → Prop
  | skipped {h' : List Access} {out : List Char}
      (hprobe : (probeSlot i).run (MmioOp.exec d) ⟨h, s.out⟩ = (false, ⟨h', out⟩)) :
      ScanSlot d i s h .skipped { s with out := out } h'
  | noMemory {h' : List Access} {out : List Char} {limit : ℕ} {s' : NetState}
      (hprobe : (probeSlot i).run (MmioOp.exec d) ⟨h, s.out⟩ = (true, ⟨h', out⟩))
      (hinit : virtMmioNetVirtqInit limit { s with out := out } = some (s', false)) :
      ScanSlot d i s h .noMemory (s'.puts failedText) h'
  | refused {h₁ h₂ : List Access} {out₁ out₂ : List Char} {limit : ℕ} {s' : NetState}
      (hprobe : (probeSlot i).run (MmioOp.exec d) ⟨h, s.out⟩ = (true, ⟨h₁, out₁⟩))
      (hinit : virtMmioNetVirtqInit limit { s with out := out₁ } = some (s', true))
      (hneg : (virtMmioNegotiation s'.queues).run (MmioOp.exec d) ⟨h₁, s'.out⟩ = (false, ⟨h₂, out₂⟩)) :
      ScanSlot d i s h (.negotiated s'.queues false) ({ s' with out := out₂ }.puts failedText) h₂
  | polled {h₁ h₂ h₃ : List Access} {out₁ out₂ out₃ : List Char} {limit : ℕ} {s' s'' : NetState}
      (hprobe : (probeSlot i).run (MmioOp.exec d) ⟨h, s.out⟩ = (true, ⟨h₁, out₁⟩))
      (hinit : virtMmioNetVirtqInit limit { s with out := out₁ } = some (s', true))
      (hneg : (virtMmioNegotiation s'.queues).run (MmioOp.exec d) ⟨h₁, s'.out⟩ = (true, ⟨h₂, out₂⟩))
      (hmac : virtMmioNetGetMacAddress.run (MmioOp.exec d) ⟨h₂, out₂⟩ = (⟨⟩, ⟨h₃, out₃⟩))
      (hpoll : NetStep { s' with out := out₃ } (.pollRx 2048) s'') :
      ScanSlot d i s h (.negotiated s'.queues true) s'' (notifies s' s'' ++ h₃)

/-! ## A device that remembers -/

section

variable {α : Type} {d : MmioDevice} {h₀ : List Access}

/-- The device after the accesses `h₀`. -/
def MmioDevice.after (d : MmioDevice) (h₀ : List Access) : MmioDevice where
  answer h := d.answer (h ++ h₀)
  accepts h := d.accepts (h ++ h₀)
  needsReset h := d.needsReset (h ++ h₀)

/-- A device that has just been reset shows no status. -/
lemma MmioDevice.status_reset (d : MmioDevice) (h : List Access) : d.status (.write virtioMmioStatus 0 :: h) = 0 := by
  rw [MmioDevice.status, if_pos rfl]
  split_ifs <;> rfl

lemma MmioDevice.status_after (hst : d.status h₀ = 0) : ∀ h, (d.after h₀).status h = d.status (h ++ h₀)
  | [] => hst.symm
  | .read _ _ :: h => MmioDevice.status_after hst h
  | .write o v :: h => by
      rw [List.cons_append, MmioDevice.status, MmioDevice.status, MmioDevice.status_after hst h]
      rfl

/-- **What runs on it** runs as on a device without a past. -/
lemma MmioDevice.run_after (hst : d.status h₀ = 0) (p : Mmio α) (h : List Access) (out : List Char) :
    p.run (MmioOp.exec d) ⟨h ++ h₀, out⟩ = ((p.run (MmioOp.exec (d.after h₀)) ⟨h, out⟩).1,
      ⟨(p.run (MmioOp.exec (d.after h₀)) ⟨h, out⟩).2.history ++ h₀, (p.run (MmioOp.exec (d.after h₀)) ⟨h, out⟩).2.out⟩) := by
  refine run_map (f := fun s : MmioState => MmioState.mk (s.history ++ h₀) s.out) (fun o s => ?_) p ⟨h, out⟩
  cases o with
  | read o =>
      have hread : d.read (s.history ++ h₀) o = (d.after h₀).read s.history o := by
        rw [MmioDevice.read, MmioDevice.read, MmioDevice.status_after hst]
        rfl
      simp only [MmioOp.exec, hread, List.cons_append]
  | write o v => rfl
  | puts str => rfl

end

/-! ## What a slot sees -/

def Access.IsRead : Access → Prop
  | .read _ _ => True
  | .write _ _ => False

/-- It has said that it is a network device; nothing but the selector of the feature words has been written. -/
structure Identified (pre : List Access) : Prop where
  magic : .read 0x000 virtioMagic ∈ pre
  vendor : .read 0x00c qemuVendorId ∈ pre
  id : .read 0x008 1 ∈ pre
  quiet : ∀ a ∈ pre, a.IsRead ∨ a = .write virtioMmioDeviceFeaturesSel 1

/-- After the handshake: the configuration is read, and there is something in the queues. -/
def AfterHandshake (a : Access) : Prop := (∃ o v, a = .read o v ∧ virtioMmioConfig ≤ o) ∨ ∃ v, a = .write virtioMmioQueueNotify v

/-- **What the device has seen of the scan**, the newest access first.  It is written to once it has said that it is
a network device; the handshake begins after a reset and is one with its own queues; nothing follows a failure. -/
inductive SlotReport : Outcome → List Access → Prop
  | skipped {new : List Access} (h : ∀ a ∈ new, a.IsRead) : SlotReport .skipped new
  | noMemory {pre : List Access} (h : Identified pre) : SlotReport .noMemory (.write virtioMmioStatus 0 :: pre)
  | negotiated {queues : QueueIndex → VirtioNetQueue} {ok : Bool} {post handshake pre : List Access}
      (h : Identified pre) (hhand : Handshake queues ok handshake) (hpost : ∀ a ∈ post, AfterHandshake a)
      (hok : ok = false → post = []) :
      SlotReport (.negotiated queues ok) (post ++ handshake ++ .write virtioMmioStatus 0 :: pre)

section

variable {α : Type} {d : MmioDevice} {Q : α → List Access → Prop} {A : Access → Prop} {h : List Access} {out : List Char}

/-- An operation that makes accesses with `A` only. -/
def Makes (A : Access → Prop) : MmioOp → Prop
  | .read o => ∀ v, A (.read o v)
  | .write o v => A (.write o v)
  | .puts _ => True

/-- The history grows by accesses with `A`. -/
lemma extends_run {p : Mmio α} (hp : Only (Makes A) p) (s : MmioState) :
    ∃ new, (p.run (MmioOp.exec d) s).2.history = new ++ s.history ∧ ∀ a ∈ new, A a := by
  refine Only.run (A := Makes A) (P := fun t : MmioState => ∃ new, t.history = new ++ s.history ∧ ∀ a ∈ new, A a)
    (fun o ho t ⟨new, ht, hnew⟩ => ?_) hp ⟨[], rfl, by simp⟩
  have hcons : ∀ a, A a → ∃ new', a :: t.history = new' ++ s.history ∧ ∀ b ∈ new', A b := fun a ha =>
    ⟨a :: new, by rw [ht, List.cons_append], List.forall_mem_cons.mpr ⟨ha, hnew⟩⟩
  cases o with
  | read o => exact hcons _ (ho _)
  | write o v => exact hcons _ ho
  | puts str => exact ⟨new, ht, hnew⟩

lemma leads_only {p : Mmio PUnit} {k : PUnit → Mmio α} (hp : Only (Makes A) p)
    (hk : ∀ new out', (∀ a ∈ new, A a) → Leads d Q (k ⟨⟩) ⟨new ++ h, out'⟩) : Leads d Q (p >>= k) ⟨h, out⟩ := by
  obtain ⟨new, heq, hnew⟩ := extends_run (d := d) hp ⟨h, out⟩
  rw [Leads, run_bind]
  have hrest := hk new (p.run (MmioOp.exec d) ⟨h, out⟩).2.out hnew
  rwa [← heq] at hrest

end

/-! ## The probe -/

/-- The end of a probe. -/
def Probed (h : List Access) (found : Bool) (h' : List Access) : Prop :=
  if found then ∃ pre, h' = .write virtioMmioStatus 0 :: (pre ++ h) ∧ Identified pre
  else ∃ new, h' = new ++ h ∧ ∀ a ∈ new, a.IsRead

lemma only_printRegister (text : String) (offset : ℕ) :
    Only (Makes fun a => a.IsRead ∨ a = .write virtioMmioDeviceFeaturesSel 1) (printRegister text offset) :=
  ⟨trivial, fun _ => ⟨fun _ => .inl trivial, fun _ => ⟨trivial, fun _ => ⟨trivial, fun _ => trivial⟩⟩⟩⟩

lemma only_virtPrintDeviceInfo :
    Only (Makes fun a => a.IsRead ∨ a = .write virtioMmioDeviceFeaturesSel 1) virtPrintDeviceInfo := by
  have hreg := only_printRegister
  refine ⟨trivial, fun _ => ?_⟩
  refine (hreg _ _).bind fun _ => (hreg _ _).bind fun _ => (hreg _ _).bind fun _ => (hreg _ _).bind fun _ => ?_
  refine (hreg _ _).bind fun _ => (hreg _ _).bind fun _ => (hreg _ _).bind fun _ => (hreg _ _).bind fun _ => ?_
  exact ⟨.inr rfl, fun _ => (hreg _ _).bind fun _ => (hreg _ _).bind fun _ => hreg _ _⟩

/-- **What a probe does.** -/
lemma leads_probeSlot (d : MmioDevice) (i : ℕ) (h : List Access) (out : List Char) :
    Leads d (Probed h) (probeSlot i) ⟨h, out⟩ := by
  simp only [probeSlot, virtMmioRead, virtMmioWrite, Mmio.uartPuts, Mmio.uartB2x, Mmio.uartPutc, op_bind, ret_bind, pure_eq]
  have hskip : ∀ (new : List Access) {out' : List Char}, (∀ a ∈ new, a.IsRead) →
      Leads d (Probed h) (.ret false) ⟨new ++ h, out'⟩ := fun _ _ hnew => leads_ret ⟨_, rfl, hnew⟩
  refine leads_read fun magic _ => ?_
  split_ifs with hmagic
  swap
  · exact hskip [_] (by simp [Access.IsRead])
  refine leads_read fun vendor _ => ?_
  split_ifs with hvendor
  swap
  · exact hskip [_, _] (by simp [Access.IsRead])
  refine leads_puts (leads_puts (leads_puts (leads_read fun id _ => ?_)))
  split_ifs with hnone hnet hblock
  · exact leads_puts (hskip [_, _, _] (by simp [Access.IsRead]))
  · subst hmagic hvendor hnet
    refine leads_puts (leads_only only_virtPrintDeviceInfo fun info out' hinfo => leads_write (leads_ret ?_))
    refine ⟨info ++ [.read 0x008 1, .read 0x00c qemuVendorId, .read 0x000 virtioMagic], by simp, ?_⟩
    refine ⟨by simp, by simp, by simp, fun a ha => ?_⟩
    rcases List.mem_append.mp ha with ha | ha
    · exact hinfo a ha
    · refine .inl ?_
      simp only [List.mem_cons, List.not_mem_nil, or_false] at ha
      rcases ha with rfl | rfl | rfl <;> trivial
  · exact leads_puts (hskip [_, _, _] (by simp [Access.IsRead]))
  · exact leads_puts (leads_read fun _ _ => leads_puts (leads_puts
      (hskip [_, _, _, _] (by simp [Access.IsRead]))))

/-! ## The MAC address -/

lemma only_virtMmioReadConfig (offset : ℕ) : ∀ len, Only (Makes AfterHandshake) (virtMmioReadConfig offset len)
  | 0 => trivial
  | len + 1 => (only_virtMmioReadConfig offset len).bind fun _ =>
      ⟨fun v => .inl ⟨_, v, rfl, by omega⟩, fun _ => trivial⟩

lemma only_printMacBuf {A : Access → Prop} : ∀ mac, Only (Makes A) (printMacBuf mac)
  | [] => trivial
  | [_] => ⟨trivial, fun _ => trivial⟩
  | _ :: b :: mac => ⟨trivial, fun _ => ⟨trivial, fun _ => only_printMacBuf (b :: mac)⟩⟩

lemma only_virtMmioNetGetMacAddress : Only (Makes AfterHandshake) virtMmioNetGetMacAddress :=
  (only_virtMmioReadConfig 0 6).bind fun _ => ⟨trivial, fun _ => (only_printMacBuf _).bind fun _ =>
    ⟨trivial, fun _ => trivial⟩⟩

/-! ## The slot -/

section

variable {d : MmioDevice} {i : ℕ} {s s' : NetState} {h h' : List Access} {l owned : List ℕ}

/-- **The handshake after a reset** is one of a device without a past. -/
lemma handshake_after {queues : QueueIndex → VirtioNetQueue} {ok : Bool} {pre h' : List Access} {out out' : List Char}
    (hq : ∀ q, (queues q).Attached)
    (hrun : (virtMmioNegotiation queues).run (MmioOp.exec d) ⟨.write virtioMmioStatus 0 :: pre, out⟩ = (ok, ⟨h', out'⟩)) :
    ∃ handshake, h' = handshake ++ .write virtioMmioStatus 0 :: pre ∧ Handshake queues ok handshake := by
  have hshift := MmioDevice.run_after (d.status_reset pre) (virtMmioNegotiation queues) [] out
  rw [List.nil_append, hrun, Prod.mk.injEq, MmioState.mk.injEq] at hshift
  obtain ⟨rfl, rfl, -⟩ := hshift
  exact ⟨_, rfl, negotiation_handshake _ queues out hq⟩

/-- **The report of a slot.** -/
lemma ScanSlot.report {o : Outcome} (hslot : ScanSlot d i s h o s' h') (hs : s.heap.Split l owned) :
    ∃ new, h' = new ++ h ∧ SlotReport o new := by
  have hprobed : ∀ {found : Bool} {h₁ : List Access} {out : List Char},
      (probeSlot i).run (MmioOp.exec d) ⟨h, s.out⟩ = (found, ⟨h₁, out⟩) → Probed h found h₁ := by
    intro found h₁ out hprobe
    have hleads := leads_probeSlot d i h s.out
    rwa [Leads, hprobe] at hleads
  have hattached : ∀ {limit : ℕ} {out : List Char} {t : NetState},
      virtMmioNetVirtqInit limit { s with out := out } = some (t, true) → ∀ q, (t.queues q).Attached := by
    intro limit out t hinit
    obtain ⟨_, _, _, _, hi⟩ := virtMmioNetVirtqInit_inv (s := { s with out := out }) hs hinit
    exact hi.attached
  cases hslot with
  | skipped hprobe =>
      obtain ⟨new, hnew, hreads⟩ := hprobed hprobe
      exact ⟨new, hnew, .skipped hreads⟩
  | noMemory hprobe hinit =>
      obtain ⟨pre, hpre, hid⟩ := hprobed hprobe
      exact ⟨_, hpre, .noMemory hid⟩
  | refused hprobe hinit hneg =>
      obtain ⟨pre, rfl, hid⟩ := hprobed hprobe
      obtain ⟨handshake, rfl, hhand⟩ := handshake_after (hattached hinit) hneg
      exact ⟨handshake ++ .write virtioMmioStatus 0 :: pre, by simp, @SlotReport.negotiated _ _ [] _ _ hid hhand
        (by simp) fun _ => rfl⟩
  | @polled h₁ h₂ h₃ out₁ out₂ out₃ _ s₁ _ hprobe hinit hneg hmac hpoll =>
      obtain ⟨pre, rfl, hid⟩ := hprobed hprobe
      obtain ⟨handshake, rfl, hhand⟩ := handshake_after (hattached hinit) hneg
      obtain ⟨reads, hreads, hconfig⟩ := extends_run (d := d) only_virtMmioNetGetMacAddress ⟨_, out₂⟩
      rw [hmac] at hreads
      have hafter : ∀ a ∈ notifies s₁ s' ++ reads, AfterHandshake a := by
        intro a ha
        rcases List.mem_append.mp ha with ha | ha
        · obtain ⟨v, -, rfl⟩ := List.mem_map.mp (List.mem_reverse.mp ha)
          exact .inr ⟨v, rfl⟩
        · exact hconfig a ha
      refine ⟨(notifies s₁ s' ++ reads) ++ handshake ++ .write virtioMmioStatus 0 :: pre, ?_,
        .negotiated hid hhand hafter (by simp)⟩
      have hreads' : h₃ = reads ++ (handshake ++ .write virtioMmioStatus 0 :: (pre ++ h)) := hreads
      rw [hreads']
      simp only [List.append_assoc, List.cons_append]

end

end NetStack
