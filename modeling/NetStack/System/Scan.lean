import NetStack.System.Isolation
import NetStack.Virtio.Scan

/-!
# The scan for devices

`virt_find_all_devices` in the system, with any device in each slot.  What a device sees of it is one `SlotReport`.
Each network device is told addresses in pages that nobody had before, so that devices found one after the other
share no memory, although there is one `net_queues` for all of them; and what the others own is as it was before the
scan.  The devices found first may go on writing to their queues.
-/

namespace NetStack

open ByteMem Transition

/-- The pages of the queues a device has been given. -/
def Outcome.pages : Outcome → List ℕ
  | .negotiated queues _ => (queues .tx).pages ++ (queues .rx).pages
  | _ => []

/-- Whether the last initialisation returned `0`. -/
def Outcome.up (before : Bool) : Outcome → Bool
  | .skipped => before
  | .noMemory => false
  | .negotiated _ _ => true

namespace Isolation

def virtioSlots : ℕ := 8

/-- The kernel, what each device has seen, what came of the slots so far, the latest first, and the loop variable. -/
structure Scan where
  kernel : State
  history : ℕ → List Access
  found : List (ℕ × Outcome)
  i : ℕ

/-- `virt_find_all_devices` before its loop. -/
def Scan.start (s : State) (before : ℕ → List Access) : Scan :=
  ⟨{ s with net := s.net.puts "Scanning for Virtio MMIO devices...\n" }, before, [], 1⟩

inductive ScanEvent
  | slot
  /-- a device writes to memory it was given, or does as it likes with `net_queues` -/
  | device (e : Event)

inductive ScanStep (device : ℕ → MmioDevice) (forkret : ℕ) : Scan → ScanEvent → Scan → Prop
  | slot {t : Scan} {o : Outcome} {net : NetState} {h : List Access} (hi : t.i ≤ virtioSlots)
      (hslot : ScanSlot (device t.i) t.i t.kernel.net (t.history t.i) o net h) :
      ScanStep device forkret t .slot
        ⟨{ t.kernel with net := net, taken := takes t.kernel.taken net, up := o.up t.kernel.up },
          Function.update t.history t.i h, (t.i, o) :: t.found, t.i + 1⟩
  | device {t : Scan} {e : Event} {k : State} (he : e = .dma ∨ e = .driver .device) (h : Step forkret t.kernel e k) :
      ScanStep device forkret t (.device e) { t with kernel := k }

/-! ## One slot -/

section

variable {s t u : State} {q : Option Party} {d : MmioDevice} {i a limit : ℕ} {h h' : List Access} {o : Outcome}
  {net : NetState}

lemma Acts.trans (h : Acts s t q) (h' : Acts t u q) : Acts s u q := by
  refine ⟨h'.inv, h'.pages.trans h.pages, fun p hp x hx => ?_⟩
  obtain ⟨hx', hmem⟩ := h.keeps p hp x hx
  obtain ⟨hx'', hmem'⟩ := h'.keeps p hp x hx'
  exact ⟨hx'', hmem'.trans hmem⟩

lemma mem_takes {taken : List ℕ} : a ∈ takes taken net ↔ a ∈ net.driverPages ∨ a ∈ taken := by
  simp only [takes, List.mem_append, List.mem_dedup, List.mem_filter, decide_eq_true_eq]
  tauto

lemma takes_of_subset {taken : List ℕ} (hsub : net.driverPages ⊆ taken) : takes taken net = taken := by
  have hnil : net.driverPages.filter (· ∉ taken) = [] := by
    rw [List.filter_eq_nil_iff]
    intro a ha
    simpa using hsub ha
  rw [takes, hnil]
  rfl

/-- Something is printed. -/
lemma Inv.prints (h : Inv s) (out : List Char) : Acts s { s with net := { s.net with out := out } } (some .driver) := by
  have hin : StaysIn s.taken s.net { s.net with out := out } := ⟨rfl, fun _ hx => absurd rfl hx, fun _ => ⟨rfl, rfl⟩⟩
  exact h.driver hin fun hup => (h.up hup).of_tx rfl

/-- The pages of a new initialisation were nobody's. -/
lemma Inv.init_nodup (h : Inv s) (hinit : virtMmioNetVirtqInit limit s.net = some (net, true)) :
    (net.driverPages ++ s.taken).Nodup := by
  obtain ⟨l, hs⟩ := h.driver_split
  obtain ⟨_, _, _, _, hi⟩ := virtMmioNetVirtqInit_inv hs hinit
  obtain ⟨l', hs'⟩ := hi.accounted.split
  have hnd := (List.nodup_append.mp hs'.nodup).2.1
  rw [← List.append_assoc] at hnd
  exact (List.nodup_append.mp hnd).1

lemma Inv.taken_nodup (h : Inv s) : s.taken.Nodup := by
  obtain ⟨l, hs⟩ := h.driver_split
  exact (List.nodup_append.mp (List.nodup_append.mp hs.nodup).2.1).1

/-- **The kernel's side of a slot**: the driver acts, and what a device is given is new. -/
lemma Inv.slot (hk : Inv s) (hslot : ScanSlot d i s.net h o net h') :
    Acts s { s with net := net, taken := takes s.taken net, up := o.up s.up } (some .driver) ∧
      o.pages ⊆ takes s.taken net ∧ (o.pages ++ s.taken).Nodup := by
  cases hslot with
  | @skipped _ out hprobe =>
      have hsame : takes s.taken { s.net with out := out } = s.taken := takes_of_subset hk.areas
      rw [hsame]
      exact ⟨hk.prints out, List.nil_subset _, hk.taken_nodup⟩
  | @noMemory _ out _ s' hprobe hinit =>
      have hacts := (hk.prints out).trans (Inv.init (hk.prints out).inv hinit)
      exact ⟨hacts.trans (hacts.inv.prints _), List.nil_subset _, hk.taken_nodup⟩
  | @refused _ _ out₁ _ _ s' hprobe hinit hneg =>
      have hacts := (hk.prints out₁).trans (Inv.init (hk.prints out₁).inv hinit)
      exact ⟨hacts.trans (hacts.inv.prints _), fun a ha => mem_takes.mpr (.inl ha),
        (hk.prints out₁).inv.init_nodup hinit⟩
  | @polled _ _ _ out₁ _ out₃ _ s' _ hprobe hinit hneg hmac hpoll =>
      have hacts := (hk.prints out₁).trans (Inv.init (hk.prints out₁).inv hinit)
      have hacts' := hacts.trans (hacts.inv.prints out₃)
      have hpages : net.driverPages = s'.driverPages := by
        cases hpoll with
        | pollRx hrun =>
            obtain ⟨l, hs⟩ := hacts'.inv.driver_split
            exact (pollRx_staysIn hs hacts'.inv.areas (hacts'.inv.up rfl) hrun).1.driverPages
      have hsame : takes s.taken net = takes s.taken s' := by rw [takes, takes, hpages]
      rw [hsame]
      exact ⟨hacts'.trans (hacts'.inv.call hpoll rfl), fun a ha => mem_takes.mpr (.inl ha),
        (hk.prints out₁).inv.init_nodup hinit⟩

end

/-! ## The scan -/

/-- **What is known of a scan** that began in `s`, when the devices had seen `before`. -/
structure Scanned (s : State) (before : ℕ → List Access) (t : Scan) : Prop where
  inv : Inv t.kernel
  i : 1 ≤ t.i ∧ t.i ≤ virtioSlots + 1
  /-- each slot is looked at once, in order -/
  slots : t.found.map Prod.fst = (List.range' 1 (t.i - 1)).reverse
  report : ∀ e ∈ t.found, ∃ new, t.history e.1 = new ++ before e.1 ∧ SlotReport e.2 new
  unseen : ∀ j, (j < 1 ∨ t.i ≤ j) → t.history j = before j
  /-- no page is given to two devices -/
  apart : (t.found.flatMap fun e => e.2.pages).Nodup
  fresh : ∀ a ∈ t.found.flatMap fun e => e.2.pages, a ∈ t.kernel.taken ∧ a ∉ s.taken
  /-- what the driver has it keeps -/
  taken : s.taken ⊆ t.kernel.taken
  others : ∀ p ≠ .driver, ∀ x ∈ s.own p, x ∈ t.kernel.own p ∧ t.kernel.net.heap.mem x = s.net.heap.mem x

section

variable {device : ℕ → MmioDevice} {forkret : ℕ} {s : State} {before : ℕ → List Access} {t t' : Scan} {e : ScanEvent}

lemma Scanned.start (h : Inv s) (before : ℕ → List Access) : Scanned s before (.start s before) where
  inv := (h.prints _).inv
  i := ⟨le_rfl, by simp [Scan.start, virtioSlots]⟩
  slots := rfl
  report := by simp [Scan.start]
  unseen _ _ := rfl
  apart := List.nodup_nil
  fresh := by simp [Scan.start]
  taken := fun _ ha => ha
  others _ _ _ hx := ⟨hx, rfl⟩

/-- **One slot, or a device.** -/
lemma ScanStep.scanned (hstep : ScanStep device forkret t e t') (h : Scanned s before t) : Scanned s before t' := by
  cases hstep with
  | @slot o net new hi hslot =>
      obtain ⟨hacts, hsub, hnd⟩ := h.inv.slot hslot
      obtain ⟨l, hs⟩ := h.inv.driver_split
      obtain ⟨seen, rfl, hreport⟩ := hslot.report hs
      have htaken : t.kernel.taken ⊆ takes t.kernel.taken net := fun a ha => mem_takes.mpr (.inr ha)
      have hne : ∀ e ∈ t.found, e.1 ≠ t.i := by
        intro e he heq
        have hmem : e.1 ∈ (List.range' 1 (t.i - 1)).reverse := h.slots ▸ List.mem_map_of_mem (f := Prod.fst) he
        simp only [List.mem_reverse, List.mem_range'_1] at hmem
        omega
      refine ⟨hacts.inv, ⟨by simp, by simpa using hi⟩, ?_, ?_, ?_, ?_, ?_, fun a ha => htaken (h.taken ha), ?_⟩
      · have hrange : List.range' 1 (t.i + 1 - 1) = List.range' 1 (t.i - 1) ++ [t.i] := by
          obtain ⟨k, hk⟩ := Nat.exists_eq_add_of_le h.i.1
          have hsucc : List.range' 1 (k + 1) = List.range' 1 k ++ [1 + 1 * k] := List.range'_concat
          rw [hk, Nat.add_sub_cancel, Nat.add_sub_cancel_left, Nat.add_comm 1 k, hsucc, Nat.one_mul, Nat.add_comm 1 k]
        rw [hrange, List.reverse_append, List.map_cons, h.slots]
        rfl
      · refine List.forall_mem_cons.mpr ⟨⟨seen, ?_, hreport⟩, fun e he => ?_⟩
        · refine (Function.update_self ..).trans ?_
          rw [h.unseen t.i (.inr le_rfl)]
        · obtain ⟨new, heq, hold⟩ := h.report e he
          exact ⟨new, (Function.update_of_ne (hne e he) ..).trans heq, hold⟩
      · intro j hj
        have hji : j < 1 ∨ t.i + 1 ≤ j := hj
        have hi₁ := h.i.1
        exact (Function.update_of_ne (by omega) ..).trans (h.unseen j (by omega))
      · rw [List.flatMap_cons, List.nodup_append]
        refine ⟨(List.nodup_append.mp hnd).1, h.apart, fun a ha b hb => ?_⟩
        exact (List.nodup_append.mp hnd).2.2 a ha b (h.fresh b hb).1
      · intro a ha
        rw [List.flatMap_cons] at ha
        rcases List.mem_append.mp ha with ha | ha
        · exact ⟨hsub ha, fun hin => (List.nodup_append.mp hnd).2.2 a ha a (h.taken hin) rfl⟩
        · exact ⟨htaken (h.fresh a ha).1, (h.fresh a ha).2⟩
      · intro p hp x hx
        obtain ⟨hx', hmem⟩ := h.others p hp x hx
        obtain ⟨hx'', hmem'⟩ := hacts.keeps p (by simpa using hp) x hx'
        exact ⟨hx'', hmem'.trans hmem⟩
  | @device e k he hstep =>
      obtain ⟨q, hq, hacts⟩ := hstep.acts h.inv
      have hdriver : ∀ p, some p = q → p = .driver := by
        intro p hp
        have hby := hq p hp.symm
        rcases he with rfl | rfl <;> exact hby
      have htaken : k.taken = t.kernel.taken := by
        rcases he with rfl | rfl
        · cases hstep with
          | dma => rfl
        · cases hstep with
          | call => rfl
      refine ⟨hacts.inv, h.i, h.slots, h.report, h.unseen, h.apart, fun a ha => ?_, fun a ha => ?_, fun p hp x hx => ?_⟩
      · rw [htaken]
        exact h.fresh a ha
      · rw [htaken]
        exact h.taken ha
      · obtain ⟨hx', hmem⟩ := h.others p hp x hx
        obtain ⟨hx'', hmem'⟩ := hacts.keeps p (fun hpq => hp (hdriver p hpq)) x hx'
        exact ⟨hx'', hmem'.trans hmem⟩

end

/-- **The scan for devices.**  Whatever the devices in the slots answer and do, at every point of the scan: each slot so
far has been looked at once and its device has seen a `SlotReport`, the others nothing; the queues network devices have
been given are in the driver's pages, new ones for each of them; and every other party owns what it owned, with every
byte as it was. -/
theorem scan_devices (device : ℕ → MmioDevice) (forkret : ℕ) (s₀ s : State) (es : List Event) (before : ℕ → List Access)
    (t : Scan) (ls : List ScanEvent) (hstart : Start s₀) (hrun : Run (Step forkret) s₀ es s)
    (hscan : Run (ScanStep device forkret) (.start s before) ls t) : Scanned s before t :=
  hscan.invariant (fun _ _ _ hstep h => hstep.scanned h) (.start (inv_of_run hstart hrun).1 before)

/-- A layout with room for the queues of one device. -/
def netLayout : BssLayout where
  toLinkLayout := queueLayout
  bssSym := kernelBaseVa + ramLength - 0x10A000
  tableSym := kernelBaseVa + ramLength - 0x109000
  bss_gt := by decide
  bss_le := by decide
  table_le := by decide
  table_aligned := by decide

lemma netLayout_init : ∃ s, Start s ∧ ∀ out, ∃ limit net,
    virtMmioNetVirtqInit limit { s.net with out := out } = some (net, true) := by
  have hstart := TableStart.boot netLayout (fun _ => 0) false
  have hsplit := (netLayout.startHeap_tableSplit (fun _ => 0) false).split
  have ha := netLayout.boot_allocated (netLayout.clearBss fun _ => 0) false
  have hs : (netLayout.startHeap (fun _ => 0) false).heapStart = 0x87EF8000 := by
    rw [BssLayout.startHeap, ha.heapStart, LinkLayout.bare_heapStart]
    decide
  have he : (netLayout.startHeap (fun _ => 0) false).heapEnd = 0x87FFC000 := by
    rw [BssLayout.startHeap] at hs ⊢
    rw [ha.heapEnd, LinkLayout.bare_heapEnd, ← ha.heapStart, hs]
    decide
  have hpages : (netLayout.startHeap (fun _ => 0) false).pages = blockPages 0x87EF8000 260 := by
    rw [Heap.pages_eq, hs, he]
  have htable : netLayout.bootPageTable = 0x87EF7000 := by decide
  generalize netLayout.startHeap (fun _ => 0) false = h at *
  have hsplit' : Heap.Split { h with mem := setupBootPageTable h.mem netLayout.bootPageTable } h.pages [] := by
    refine hsplit.write_outside fun x hx hin => hx (setupBootPageTable_outside netLayout.bootPageTable_aligned ?_)
    rw [htable]
    rintro hfloor
    rw [hfloor, hpages, mem_blockPages (by decide), inRun, decide_eq_true_eq] at hin
    omega
  rw [hpages] at hsplit'
  refine ⟨_, .mk (fun _ => ⟨0, .unused, 0, .zero, none, fun _ => 0⟩) hstart, fun out => ?_⟩
  obtain ⟨limit, net, _, hinit, -⟩ := virtMmioNetVirtqInit_succeeds (k := 0)
    (s := { NetState.boot { h with mem := setupBootPageTable h.mem netLayout.bootPageTable } with out := out }) hsplit'
  exact ⟨limit, net, hinit⟩

/-- A network device that offers nothing. -/
def refusing : MmioDevice where
  answer _ o := if o = 0x000 then virtioMagic else if o = 0x00c then qemuVendorId else if o = 0x008 then 1 else 0
  accepts _ := true
  needsReset _ := false

/-- It is reset, gets its queues, and the handshake fails. -/
theorem scan_devices_refusing : ∃ (s : State) (t : Scan) (queues : QueueIndex → VirtioNetQueue),
    Run (ScanStep (fun _ => refusing) 0x80200000) (.start s fun _ => []) [.slot] t ∧
      t.found = [(1, .negotiated queues false)] ∧ Scanned s (fun _ => []) t := by
  obtain ⟨s, hstart, hinit⟩ := netLayout_init
  let out : List Char := (Scan.start s fun _ => []).kernel.net.out
  have hprobe : ((probeSlot 1).run (MmioOp.exec refusing) ⟨[], out⟩).1 = true := rfl
  rcases hrun : (probeSlot 1).run (MmioOp.exec refusing) ⟨[], out⟩ with ⟨found, h₁, out₁⟩
  rw [hrun] at hprobe
  obtain rfl : found = true := hprobe
  obtain ⟨limit, net, hinit⟩ := hinit out₁
  have hneg : ((virtMmioNegotiation net.queues).run (MmioOp.exec refusing) ⟨h₁, net.out⟩).1 = false := by
    simp [virtMmioNegotiation, virtMmioRead, virtMmioWrite, Mmio.uartPuts, Concurrent.Prog.run, MmioOp.exec, MmioDevice.read,
      refusing]
  rcases hrun' : (virtMmioNegotiation net.queues).run (MmioOp.exec refusing) ⟨h₁, net.out⟩ with ⟨ok, h₂, out₂⟩
  rw [hrun'] at hneg
  obtain rfl : ok = false := hneg
  have hstep : ScanStep (fun _ => refusing) 0x80200000 (.start s fun _ => []) .slot _ :=
    .slot (by simp [Scan.start, virtioSlots]) (.refused hrun hinit hrun')
  have hscan := Run.cons hstep (.nil _)
  exact ⟨s, _, net.queues, hscan, rfl,
    scan_devices (fun _ => refusing) 0x80200000 s s [] (fun _ => []) _ _ hstart (.nil s) hscan⟩

end Isolation

end NetStack
