import NetStack.Virtio.TxWait
import NetStack.Virtio.Send

/-!
# The TX queue delivers

What becomes of a packet.  `TxWire` adds to the driver and the device what a packet is on each side: the bytes a caller
of `virt_mmio_net_send` passes, and the bytes the device finds in a descriptor when it takes it.  A call is accepted if
its packet fits and a descriptor is free.

`tx_delivery` says that the queue is a FIFO channel: what the device has taken, followed by what is in the ring, is
what accepted calls were given, in order, none missing and none twice; and a packet stays as it is for as long as the
device holds its descriptor.  `Delivers` is the invariant; the only access that adds to the channel is the increment
of `avail.idx`, and every other leaves the packets in it alone because of who owns what (`TxAt`).
-/

namespace NetStack

open ByteMem Concurrent Transition Ring

/-! ## The system -/

abbrev Packet : Type := List UInt8

/-- The packet in descriptor `d`. -/
def packetOf (desc : ℕ → VirtqDesc) (m : Mem) (d : ℕ) : Packet := bytesAt m (desc d).addr (desc d).len

/-- The driver and the device; the packet of the call, if it is accepted, the packets published so far and those of
accepted calls; and the packets the device has taken, with what it found in each descriptor. -/
structure TxWire where
  sys : TxSys
  pending : Packet
  sent : List Packet
  accepted : List Packet
  got : List Packet
  copy : ℕ → Packet

namespace TxWire

/-- The packet in descriptor `d`, as it is now. -/
def packet (s : TxWire) (d : ℕ) : Packet := packetOf s.sys.virtq.desc s.sys.net.heap.mem d

/-- The packets in the ring, which the device has not taken yet. -/
def ring (s : TxWire) : List Packet := (offered s.sys.virtq s.sys.dev).map s.packet

/-- Incrementing `avail.idx` publishes the packet of the call. -/
def record (s : TxWire) : Op → TxWire
  | .setAvailIdx _ => { s with sent := s.sent ++ [s.pending] }
  | _ => s

def exec (o : Op) (s : TxWire) : o.Resp × TxWire :=
  let r := tx.exec o s.sys
  (r.1, { s.record o with sys := r.2 })

/-- The device after a step of its own; when it takes a descriptor it has a look at the packet. -/
def observe (s : TxWire) (v : Virtq) (dev : Device) : TxWire :=
  let head := s.sys.virtq.availRing (s.sys.dev.next % descQueueSize)
  { s with
    sys := { s.sys with net := s.sys.net.setVirtq .tx v, dev := dev }
    got := if dev.next = s.sys.dev.next then s.got else s.got ++ [s.packet head]
    copy := if dev.next = s.sys.dev.next then s.copy else Function.update s.copy head (s.packet head) }

end TxWire

inductive WireDevice : TxWire → TxWire → Prop
  | ring {s : TxWire} {v : Virtq} {dev : Device} (h : DeviceStep (s.sys.virtq, s.sys.dev) (v, dev)) :
      WireDevice s (s.observe v dev)

def wire : Interference Op Op.Resp TxWire := ⟨TxWire.exec, WireDevice⟩

/-- The packet fits and a descriptor is free. -/
def Accepts (inUse : ℕ → ℕ) (length : ℕ) : Prop := length ≤ queueBufSize ∧ ∃ d < 256, inUse d = 0

instance (inUse : ℕ → ℕ) (length : ℕ) : Decidable (Accepts inUse length) := by
  unfold Accepts
  infer_instance

/-- A call of `virt_mmio_net_send` with data outside the TX buffers, a round of the completion loop, or, between calls,
others who write to memory outside the TX buffers. -/
inductive WireCall : PUnit → TxWire → Driver PUnit → TxWire → Prop
  | send {s : TxWire} {data length : ℕ} (hdata : ∀ d < 256, ∀ i < length, ¬ s.sys.virtq.InBuffer d (data + i)) :
      WireCall ⟨⟩ s (virtMmioNetSend data length)
        { s with
          pending := bytesAt s.sys.net.heap.mem data length
          accepted := if Accepts s.sys.queue.inUse length then s.accepted ++ [bytesAt s.sys.net.heap.mem data length]
            else s.accepted }
  | reclaim {s : TxWire} : WireCall ⟨⟩ s (reclaimTx >>= fun _ => pure ⟨⟩) s
  | others {s : TxWire} {m : Mem}
      (hm : ∀ x, m x ≠ s.sys.net.heap.mem x → ∀ d < 256, ¬ s.sys.virtq.InBuffer d x) :
      WireCall ⟨⟩ s (.ret ⟨⟩)
        { s with sys := { s.sys with net := { s.sys.net with heap := { s.sys.net.heap with mem := m } } } }

inductive WireStart : TxWire → Prop
  | mk {s : TxSys} (h : TxStart s) (pending : Packet) (copy : ℕ → Packet) : WireStart ⟨s, pending, [], [], [], copy⟩

/-! ## The invariant -/

/-- **The channel.** -/
structure Delivers (s : TxWire) : Prop where
  sent : s.sent = s.got ++ s.ring
  held : ∀ d ∈ s.sys.dev.held, s.packet d = s.copy d
  len : ∀ d ∈ offered s.sys.virtq s.sys.dev ++ s.sys.dev.held, (s.sys.virtq.desc d).len ≤ queueBufSize

/-- Every accepted packet has been published, but for that of the call that is running. -/
def UpToDate (s : TxWire) : Prop := s.sent = s.accepted ∨ s.accepted = s.sent ++ [s.pending]

section

variable {s s' : TxWire} {φ : TxPhase} {d : ℕ}

/-- A packet depends on its descriptor and the bytes of its buffer. -/
lemma packet_congr (hdesc : s'.sys.virtq.desc d = s.sys.virtq.desc d) (hlen : (s.sys.virtq.desc d).len ≤ queueBufSize)
    (hmem : ∀ x, s.sys.virtq.InBuffer d x → s'.sys.net.heap.mem x = s.sys.net.heap.mem x) : s'.packet d = s.packet d := by
  rw [TxWire.packet, TxWire.packet, packetOf, packetOf, hdesc]
  refine bytesAt_congr fun i hi => hmem _ ⟨Nat.le_add_right .., ?_⟩
  omega

/-- **What leaves the packets in the channel alone.** -/
lemma Delivers.congr (h : Delivers s) (hsent : s'.sent = s.sent) (hgot : s'.got = s.got) (hcopy : s'.copy = s.copy)
    (hoff : offered s'.sys.virtq s'.sys.dev = offered s.sys.virtq s.sys.dev) (hheld : s'.sys.dev.held ⊆ s.sys.dev.held)
    (hdesc : ∀ d ∈ offered s.sys.virtq s.sys.dev ++ s.sys.dev.held, s'.sys.virtq.desc d = s.sys.virtq.desc d)
    (hmem : ∀ d ∈ offered s.sys.virtq s.sys.dev ++ s.sys.dev.held, ∀ x, s.sys.virtq.InBuffer d x →
      s'.sys.net.heap.mem x = s.sys.net.heap.mem x) : Delivers s' := by
  have hpacket : ∀ d ∈ offered s.sys.virtq s.sys.dev ++ s.sys.dev.held, s'.packet d = s.packet d := fun d hd =>
    packet_congr (hdesc d hd) (h.len d hd) (hmem d hd)
  refine ⟨?_, fun d hd => ?_, fun d hd => ?_⟩
  · rw [hsent, hgot, h.sent, TxWire.ring, TxWire.ring, hoff]
    exact congrArg _ (List.map_congr_left fun d hd => (hpacket d (List.mem_append_left _ hd)).symm)
  · rw [hpacket d (List.mem_append_right _ (hheld hd)), hcopy]
    exact h.held d (hheld hd)
  · rw [hoff] at hd
    have hd' : d ∈ offered s.sys.virtq s.sys.dev ++ s.sys.dev.held :=
      (List.mem_append.mp hd).elim (List.mem_append_left _) fun hin => List.mem_append_right _ (hheld hin)
    rw [hdesc d hd']
    exact h.len d hd'

/-- The device takes the first descriptor in the ring. -/
lemma offered_take {v : Virtq} {dev : Device} {read : ℕ} {mine : List ℕ} {latch : Option VirtqUsedElem}
    {log : List VirtqUsedElem} (h : Shared v dev read mine latch log) (hne : dev.next ≠ dev.seen) :
    offered v dev = v.availRing (dev.next % descQueueSize) :: offered v { dev with next := (dev.next + 1) % 2 ^ 16 } := by
  have hnext := h.nextLt
  have havail := h.availLt
  have hseen := h.seenLt
  have hle := h.seenLe
  have hpos : gap dev.next v.availIdx = gap ((dev.next + 1) % 2 ^ 16) v.availIdx + 1 := by
    unfold gap at hle ⊢
    omega
  rw [offered, offered, hpos, window_cons, ← window_counter]

@[simp] lemma observe_virtq (s : TxWire) (v : Virtq) (dev : Device) : (s.observe v dev).sys.virtq = v := by
  simp [TxWire.observe, TxSys.virtq, TxSys.queue]

/-- **The device** takes packets from the front and leaves those it has as they are. -/
lemma Delivers.device (h : Delivers s) (hat : TxAt φ s.sys) (henv : WireDevice s s') : Delivers s' := by
  rcases hat.shared with ⟨log, hshared, -⟩
  cases henv with
  | @ring v dev hstep =>
      have hdesc : v.desc = s.sys.virtq.desc := hstep.avail.2.2
      have hquiet : dev.next = s.sys.dev.next → offered v dev = offered s.sys.virtq s.sys.dev →
          dev.held ⊆ s.sys.dev.held → Delivers (s.observe v dev) := by
        intro hnext hoff hheld
        refine h.congr rfl (if_pos hnext) (if_pos hnext) ?_ hheld (fun d _ => ?_) fun _ _ _ _ => rfl
        · rw [observe_virtq]
          exact hoff
        · rw [observe_virtq, hdesc]
      cases hstep with
      | readAvail => exact hquiet rfl rfl fun _ hd => hd
      | writeUsed => exact hquiet rfl rfl fun _ hd => hd
      | publish => exact hquiet rfl rfl fun _ hd => List.mem_of_mem_erase hd
      | take _ _ hne =>
          have hoff := offered_take hshared hne
          generalize hhead : s.sys.virtq.availRing (s.sys.dev.next % descQueueSize) = head at hoff ⊢
          have hnext : (s.sys.dev.next + 1) % 2 ^ 16 ≠ s.sys.dev.next := by
            have hlt := hshared.nextLt
            omega
          have hpacket : ∀ dev d, (s.observe s.sys.virtq dev).packet d = s.packet d := by
            intro dev d
            rw [TxWire.packet, TxWire.packet, observe_virtq]
            rfl
          have hcopy : ∀ dev, dev.next ≠ s.sys.dev.next → (s.observe s.sys.virtq dev).got = s.got ++ [s.packet head] ∧
              (s.observe s.sys.virtq dev).copy = Function.update s.copy head (s.packet head) := fun dev hdev => by
            rw [← hhead]
            exact ⟨if_neg hdev, if_neg hdev⟩
          refine ⟨?_, fun d hd => ?_, fun d hd => ?_⟩
          · have hring : (s.observe s.sys.virtq { s.sys.dev with
                next := (s.sys.dev.next + 1) % 2 ^ 16, held := s.sys.dev.held ++ [head] }).ring =
                (offered s.sys.virtq { s.sys.dev with next := (s.sys.dev.next + 1) % 2 ^ 16 }).map s.packet := by
              rw [TxWire.ring, observe_virtq]
              exact List.map_congr_left fun d _ => hpacket _ d
            rw [hring, (hcopy _ hnext).1, List.append_assoc]
            refine h.sent.trans ?_
            rw [TxWire.ring, hoff]
            rfl
          · rw [hpacket, (hcopy _ hnext).2]
            by_cases hdh : d = head
            · rw [hdh, Function.update_self]
            · rw [Function.update_of_ne hdh]
              refine h.held d ((List.mem_append.mp hd).resolve_right ?_)
              simpa using hdh
          · rw [observe_virtq] at hd ⊢
            refine h.len d ?_
            rw [hoff]
            simp only [TxWire.observe, List.mem_append, List.mem_cons, List.not_mem_nil, or_false] at hd ⊢
            tauto

/-! ## The driver's accesses -/

lemma Delivers.same (h : Delivers s) (hsent : s'.sent = s.sent) (hgot : s'.got = s.got) (hcopy : s'.copy = s.copy)
    (hvirtq : s'.sys.virtq = s.sys.virtq) (hdev : s'.sys.dev = s.sys.dev)
    (hmem : s'.sys.net.heap.mem = s.sys.net.heap.mem) : Delivers s' := by
  refine h.congr hsent hgot hcopy ?_ ?_ (fun d _ => ?_) fun _ _ _ _ => ?_
  · rw [hvirtq, hdev]
  · rw [hdev]
    exact fun _ hd => hd
  · rw [hvirtq]
  · rw [hmem]

/-- A change of the queue that the device cannot see in the descriptors of the channel. -/
lemma Delivers.virtq (h : Delivers s) {o : Op} {v : Virtq} (hvirtq : (wire.exec o s).2.sys.virtq = v)
    (hrec : s.record o = s) (hdev : (wire.exec o s).2.sys.dev = s.sys.dev)
    (hmem : (wire.exec o s).2.sys.net.heap.mem = s.sys.net.heap.mem)
    (hoff : offered v s.sys.dev = offered s.sys.virtq s.sys.dev)
    (hdesc : ∀ d ∈ s.sys.outstanding, v.desc d = s.sys.virtq.desc d) : Delivers (wire.exec o s).2 := by
  refine h.congr (show (s.record o).sent = _ by rw [hrec]) (show (s.record o).got = _ by rw [hrec])
    (show (s.record o).copy = _ by rw [hrec]) ?_ ?_ (fun d hd => ?_) fun _ _ _ _ => ?_
  · rw [hvirtq, hdev, hoff]
  · rw [hdev]
    exact fun _ hd => hd
  · rw [hvirtq]
    exact hdesc d (List.mem_append_left _ hd)
  · rw [hmem]

/-- **An access that is allowed**, other than the increment of `avail.idx`. -/
lemma Delivers.exec (h : Delivers s) {o : Op} (hok : s.sys.Allowed o) (hne : ∀ v, o ≠ .setAvailIdx v) :
    Delivers (wire.exec o s).2 := by
  cases o with
  | setAvailIdx v => exact absurd rfl (hne v)
  | setByte a v =>
      refine h.congr rfl rfl rfl rfl (fun _ hd => hd) (fun _ _ => rfl) fun d hd x hx => ?_
      refine write_of_ne _ v fun hxa => ?_
      exact hok d (List.mem_append_left _ hd) (hxa ▸ hx)
  | setDescLen i v =>
      exact h.virtq (congrArg VirtioNetQueue.virtq (NetState.setVirtq_queues ..)) rfl rfl rfl rfl fun d hd =>
        Function.update_of_ne (fun hdi : d = i => hok (hdi ▸ hd)) ..
  | setDescFlags i v =>
      exact h.virtq (congrArg VirtioNetQueue.virtq (NetState.setVirtq_queues ..)) rfl rfl rfl rfl fun d hd =>
        Function.update_of_ne (fun hdi : d = i => hok (hdi ▸ hd)) ..
  | setAvailRing i v =>
      refine h.virtq (congrArg VirtioNetQueue.virtq (NetState.setVirtq_queues ..)) rfl rfl rfl ?_ fun _ _ => rfl
      refine List.map_congr_left fun j hj => Function.update_of_ne ?_ ..
      exact hok j (List.mem_range.mp hj)
  | usedId i =>
      refine h.same rfl rfl rfl ?_ (dev_exec ..) ?_
      · exact congrArg (fun net : NetState => (net.queues .tx).virtq) rfl
      · rfl
  | setLastUsedIdx v => exact h.same rfl rfl rfl ((congrArg VirtioNetQueue.virtq (NetState.setQueue_queues ..)).trans rfl) rfl rfl
  | setNextDesc v => exact h.same rfl rfl rfl ((congrArg VirtioNetQueue.virtq (NetState.setQueue_queues ..)).trans rfl) rfl rfl
  | setInUse i v => exact h.same rfl rfl rfl ((congrArg VirtioNetQueue.virtq (NetState.setQueue_queues ..)).trans rfl) rfl rfl
  | _ => exact h.same rfl rfl rfl rfl rfl rfl

/-- **The increment of `avail.idx`** adds the packet of the descriptor that has been placed. -/
lemma Delivers.publish (h : Delivers s) (hat : TxAt (.marked d (placed d)) s.sys) (hpacket : s.packet d = s.pending)
    (hlen : (s.sys.virtq.desc d).len ≤ queueBufSize) :
    Delivers (wire.exec (.setAvailIdx ((s.sys.virtq.availIdx + 1) % 2 ^ 16)) s).2 := by
  rcases hat.shared with ⟨log, hshared, -⟩
  have hcount := hshared.count
  have hvirtq : (wire.exec (.setAvailIdx ((s.sys.virtq.availIdx + 1) % 2 ^ 16)) s).2.sys.virtq =
      { s.sys.virtq with availIdx := (s.sys.virtq.availIdx + 1) % 2 ^ 16 } :=
    (congrArg VirtioNetQueue.virtq (NetState.setVirtq_queues ..)).trans rfl
  have hoff : offered { s.sys.virtq with availIdx := (s.sys.virtq.availIdx + 1) % 2 ^ 16 } s.sys.dev =
      offered s.sys.virtq s.sys.dev ++ [d] :=
    offered_last hshared.nextLt hshared.availLt (by omega) rfl hat.known
  have hsame : ∀ e, (wire.exec (.setAvailIdx ((s.sys.virtq.availIdx + 1) % 2 ^ 16)) s).2.packet e = s.packet e := by
    intro e
    rw [TxWire.packet, hvirtq]
    rfl
  refine ⟨?_, fun e he => (hsame e).trans (h.held e he), fun e he => ?_⟩
  · rw [TxWire.ring, hvirtq]
    show s.sent ++ [s.pending] = s.got ++ (offered _ s.sys.dev).map _
    rw [hoff, List.map_append, ← List.append_assoc, h.sent, ← hpacket]
    refine congrArg₂ _ (congrArg _ (List.map_congr_left fun e _ => (hsame e).symm)) ?_
    exact congrArg (fun p => [p]) (hsame d).symm
  · rw [hvirtq] at he ⊢
    have he' : e ∈ offered s.sys.virtq s.sys.dev ++ [d] ++ s.sys.dev.held := by
      rw [← hoff]
      exact he
    by_cases hed : e = d
    · rw [hed]
      exact hlen
    · refine h.len e ?_
      simp only [List.mem_append, List.mem_singleton] at he' ⊢
      tauto

end

/-! ## Phases -/

/-- What the device cannot change. -/
structure WireView where
  mem : Mem
  pending : Packet
  sent : List Packet
  accepted : List Packet

def TxWire.view (s : TxWire) : WireView := ⟨s.sys.net.heap.mem, s.pending, s.sent, s.accepted⟩

/-- **The invariant at a phase.** -/
structure WireAt (φ : TxPhase) (v : WireView) (s : TxWire) : Prop where
  sys : TxAt φ s.sys
  delivers : Delivers s
  upToDate : UpToDate s
  view : s.view = v

variable {φ : TxPhase} {v : WireView} {s : TxWire} {k : TxView → Prop} {d : ℕ}

lemma WireAt.stable (φ : TxPhase) (v : WireView) : wire.Stable (WireAt φ v) := by
  intro s s' henv h
  have hdelivers := h.delivers.device h.sys henv
  cases henv with
  | ring hstep => exact ⟨TxAt.stable φ _ _ (.ring hstep) h.sys, hdelivers, h.upToDate, h.view⟩

lemma WireAt.mono {k' : TxView → Prop} (h : WireAt φ v s) (hk : φ.known s.sys.view → k' s.sys.view) :
    WireAt { φ with known := k' } v s := ⟨h.sys.mono hk, h.delivers, h.upToDate, h.view⟩

/-- What holds at every access. -/
def wireOk (_ : Op) (s : TxWire) : Prop := Delivers s ∧ UpToDate s

/-- Between the driver's operations every accepted packet has been published. -/
def wireDone (_ : PUnit) (s : TxWire) : Prop := ∃ v, WireAt (.idle fun _ => True) v s ∧ v.sent = v.accepted

lemma wireDone_stable : wire.Stable (wireDone ⟨⟩) := by
  rintro s s' henv ⟨v, hat, hall⟩
  exact ⟨v, WireAt.stable _ v _ _ henv hat, hall⟩

abbrev WirePost {α : Type} (Q : α → TxWire → Prop) (p : Driver α) (s : TxWire) : Prop := wp wire wireOk Q p s

/-- Most accesses neither store to memory nor publish. -/
def Unrecorded (o : Op) : Prop := NoStore o ∧ ∀ v, o ≠ .setAvailIdx v

lemma WireAt.exec {ψ : TxPhase} {o : Op} (h : WireAt φ v s) (ho : Unrecorded o) (hok : s.sys.Allowed o)
    (hat : TxAt ψ (tx.exec o s.sys).2) : WireAt ψ v (wire.exec o s).2 := by
  have hrec : s.record o = s := by
    cases o with
    | setAvailIdx v => exact absurd rfl (ho.2 v)
    | _ => rfl
  have hmem : (wire.exec o s).2.sys.net.heap.mem = s.sys.net.heap.mem :=
    congrArg Heap.mem (ho.1.heap .tx s.sys.net)
  have hghost : (wire.exec o s).2.pending = s.pending ∧ (wire.exec o s).2.sent = s.sent ∧
      (wire.exec o s).2.accepted = s.accepted := by
    show (s.record o).pending = _ ∧ (s.record o).sent = _ ∧ (s.record o).accepted = _
    rw [hrec]
    exact ⟨rfl, rfl, rfl⟩
  refine ⟨hat, h.delivers.exec hok ho.2, ?_, ?_⟩
  · rw [UpToDate, hghost.1, hghost.2.1, hghost.2.2]
    exact h.upToDate
  · rw [TxWire.view, hmem, hghost.1, hghost.2.1, hghost.2.2]
    exact h.view

section Rules

variable {α : Type} {Q : α → TxWire → Prop}

lemma wireWp_op {o : Op} {f : o.Resp → Driver α} (ho : Unrecorded o) (h : WireAt φ v s)
    (hok : ∀ t, TxAt φ t → t.Allowed o)
    (hf : ∀ t, WireAt φ v t → (∀ {ψ}, TxAt ψ (tx.exec o t.sys).2 → WireAt ψ v (wire.exec o t).2) →
      WirePost Q (f (tx.exec o t.sys).1) (wire.exec o t).2) : WirePost Q (.op o f) s :=
  wp_op (WireAt.stable φ v) h fun t ht => ⟨⟨ht.delivers, ht.upToDate⟩, fun _ =>
    hf t ht fun hat => ht.exec ho (hok t.sys ht.sys) hat⟩

/-- Reading a field that only the driver writes. -/
lemma wireWp_view {o : Op} {f : o.Resp → Driver α} (ho : Unrecorded o) (g : TxView → o.Resp)
    (hg : ∀ t, tx.exec o t = (g t.view, t)) (hok : ∀ t : TxSys, t.Allowed o) (h : WireAt φ v s)
    (hf : ∀ r t, WireAt { φ with known := fun w => φ.known w ∧ g w = r } v t → WirePost Q (f r) t) :
    WirePost Q (.op o f) s := by
  refine wireWp_op ho h (fun t _ => hok t) fun t ht hlift => ?_
  have hresp : (tx.exec o t.sys).1 = g t.sys.view := by rw [hg]
  rw [hresp]
  refine hf _ _ (hlift ?_)
  rw [hg]
  exact ht.sys.mono fun hk => ⟨hk, rfl⟩

lemma unrecorded_of_ne {o : Op} (hs : ∀ a b, o ≠ .setByte a b) (ha : ∀ b, o ≠ .setAvailIdx b) : Unrecorded o := ⟨hs, ha⟩

/-- Reading `tx->size`. -/
lemma wireWp_size {f : ℕ → Driver α} (h : WireAt φ v s) (hf : ∀ t, WireAt φ v t → WirePost Q (f descQueueSize) t) :
    WirePost Q (.op .size f) s := by
  refine wireWp_op (unrecorded_of_ne (by simp) (by simp)) h (fun _ _ => trivial) fun t ht hlift => ?_
  rw [show (tx.exec .size t.sys).1 = descQueueSize from ht.sys.size]
  exact hf _ (hlift ht.sys)

/-- Printing. -/
lemma wireWp_text {p : Driver PUnit} {P : PUnit → TxWire → Prop} (hp : Only (fun o => ∃ c, o = .putc c) p)
    (h : WireAt φ v s) (hP : ∀ t, WireAt φ v t → P ⟨⟩ t) : wp wire wireOk P p s := by
  refine wp_of_only (WireAt.stable φ v) ?_ (fun _ t ht => hP t ht) hp h
  rintro o ⟨c, rfl⟩ t ht
  exact ⟨⟨ht.delivers, ht.upToDate⟩, ht.exec (unrecorded_of_ne (by simp) (by simp)) trivial (ht.sys.putc c)⟩

lemma wireWp_puts {str : String} {f : PUnit → Driver α} (h : WireAt φ v s)
    (hf : ∀ t, WireAt φ v t → WirePost Q (f ⟨⟩) t) : WirePost Q (uartPuts str >>= f) s :=
  wp_bind (wireWp_text (only_uartPuts (fun c => ⟨c, rfl⟩) str) h hf)

/-- The search ends at a free descriptor, or there is none. -/
lemma wireWp_searchDesc {use : ℕ → ℕ} {first : ℕ} (hfirst : first < 256) (hk : ∀ w, k w → w.inUse = use)
    {f : ℕ → Driver α} (hf : ∀ d t, d < 256 → (use d = 0 ∨ ∀ e < 256, use e ≠ 0) → WireAt (.idle k) v t →
      WirePost Q (f d) t) :
    ∀ (n j : ℕ) {s : TxWire}, n + j = 256 → (∀ i < j, use ((first + i) % 256) ≠ 0) → WireAt (.idle k) v s →
      WirePost Q (searchDesc n ((first + j) % 256) >>= f) s
  | 0, j, s, hj, hbusy, h => by
      refine hf _ s (Nat.mod_lt _ (by decide)) (.inr fun e he => ?_) h
      have hround : (first + (e + 256 - first) % 256) % 256 = e := by omega
      rw [← hround]
      exact hbusy _ (by omega)
  | n + 1, j, s, hj, hbusy, h => by
      simp only [searchDesc, inUse, size, op_bind, ret_bind]
      refine wireWp_view (unrecorded_of_ne (by simp) (by simp)) (fun w => w.inUse ((first + j) % 256)) (fun _ => rfl)
        (fun _ => trivial) h fun b t ht => ?_
      have hb : use ((first + j) % 256) = b := by
        rw [← hk _ ht.sys.known.1]
        exact ht.sys.known.2
      have ht' : WireAt (.idle k) v t := ht.mono And.left
      split_ifs with hzero
      · exact hf _ t (Nat.mod_lt _ (by decide)) (.inl (hb.trans hzero)) ht'
      · simp only [op_bind]
        refine wireWp_size ht' fun t' ht'' => ?_
        have hnext : ((first + j) % 256 + 1) % descQueueSize = (first + (j + 1)) % 256 := by
          rw [descQueueSize_eq]
          omega
        rw [hnext]
        refine wireWp_searchDesc hfirst hk hf n (j + 1) (by omega) (fun i hi => ?_) ht''
        by_cases hij : i = j
        · rw [hij, hb]
          exact hzero
        · exact hbusy i (by omega)

/-- The buffer of the descriptor that has been chosen may be written. -/
lemma TxAt.buffer_mine {t : TxSys} {a i : ℕ} {b : UInt8} (h : TxAt (.idle fun w => (chosen d w ∧ k w) ∧ (w.desc d).addr = a) t)
    (hi : i < 2048) : t.Allowed (.setByte (a + i) b) := by
  have hchosen : TxAt (.idle (chosen d)) t := h.mono fun hk => hk.1.1
  have haddr : (t.virtq.desc d).addr = a := h.known.2
  have hin : t.virtq.InBuffer d (a + i) := by
    rw [Virtq.InBuffer, haddr, queueBufSize_eq]
    omega
  intro e he hine
  have hed := h.laid.inBuffer_unique (h.outstanding_lt he) hchosen.known.1 hine hin
  exact hchosen.notMem_outstanding hchosen.mem_free (hed ▸ he)

/-- The view with another memory. -/
def WireView.withMem (v : WireView) (m : Mem) : WireView := { v with mem := m }

/-- **The packet is copied.** -/
lemma wireWp_memCopy {a data length : ℕ} (hlen : length ≤ 2048) : ∀ n ≤ length, ∀ {s : TxWire},
    WireAt (.idle fun w => (chosen d w ∧ k w) ∧ (w.desc d).addr = a) v s →
      WirePost (fun _ => WireAt (.idle fun w => (chosen d w ∧ k w) ∧ (w.desc d).addr = a) (v.withMem (copyUp v.mem a data n)))
        (memCopy a data n) s
  | 0, _, s, h => wp_ret (WireAt.stable _ _) h
  | n + 1, hn, s, h => by
      have hsplit : memCopy a data (n + 1) = memCopy a data n >>= fun _ => [n].forM (copyByte a data) := by
        rw [memCopy, List.range_succ, forM_append]
        rfl
      rw [hsplit]
      refine wp_bind (wp_mono (fun _ _ hok => hok) (fun _ t ht => ?_) (wireWp_memCopy hlen n (by omega) h))
      simp only [List.forM_eq_forM, List.forM_cons, List.forM_nil, copyByte, byte, setByte, op_bind, ret_bind, pure_eq]
      refine wireWp_op (unrecorded_of_ne (by simp) (by simp)) ht (fun _ _ => trivial) fun t₁ h₁ hlift => ?_
      have hbyte : (tx.exec (.byte (data + n)) t₁.sys).1 = copyUp v.mem a data n (data + n) :=
        congrArg (fun w : WireView => w.mem (data + n)) h₁.view
      rw [hbyte]
      refine wp_op (WireAt.stable _ _) (hlift h₁.sys) fun t₂ h₂ => ⟨⟨h₂.delivers, h₂.upToDate⟩, fun _ => ?_⟩
      refine wp_ret (WireAt.stable _ _) ⟨h₂.sys.setByte _ _, h₂.delivers.exec (h₂.sys.buffer_mine (by omega)) (by simp),
        h₂.upToDate, ?_⟩
      show t₂.view.withMem (write t₂.view.mem (a + n) (copyUp v.mem a data n (data + n))) = _
      rw [h₂.view]
      rfl

end Rules

/-! ## The programs -/

/-- The data is outside the buffers. -/
def clearOf (data length : ℕ) (w : TxView) : Prop :=
  ∀ d < 256, ∀ i < length, data + i < (w.desc d).addr ∨ (w.desc d).addr + 2048 ≤ data + i

/-- The descriptor's buffer is at `addr` and it has its length. -/
def loaded (d addr length : ℕ) (w : TxView) : Prop := (w.desc d).addr = addr ∧ (w.desc d).len = length

/-- **The packet is handed over.** -/
lemma WireAt.publish {addr length : ℕ} (h : WireAt (.marked d fun w => placed d w ∧ loaded d addr length w) v s)
    (hlen : length ≤ 2048) (hbytes : bytesAt v.mem addr length = v.pending) (hall : v.sent ++ [v.pending] = v.accepted) :
    WireAt (.idle fun _ => True) { v with sent := v.sent ++ [v.pending] }
      (wire.exec (.setAvailIdx ((s.sys.virtq.availIdx + 1) % 2 ^ 16)) s).2 := by
  have hat : TxAt (.marked d (placed d)) s.sys := h.sys.mono And.left
  have hloaded : (s.sys.virtq.desc d).addr = addr ∧ (s.sys.virtq.desc d).len = length := h.sys.known.2
  have hpacket : s.packet d = s.pending := by
    rw [TxWire.packet, packetOf, hloaded.1, hloaded.2]
    have hview := h.view
    rw [← hview] at hbytes
    exact hbytes
  refine ⟨hat.setAvailIdx, h.delivers.publish hat hpacket ?_, .inl ?_, ?_⟩
  · rw [hloaded.2, queueBufSize_eq]
    exact hlen
  · have hview := h.view
    rw [← hview] at hall
    exact hall
  · show { s.view with sent := s.view.sent ++ [s.view.pending] } = _
    rw [h.view]

/-- **`virt_mmio_net_send`** publishes its packet exactly if it is accepted. -/
lemma wirePost_virtMmioNetSend {a : ℕ} (use : ℕ → ℕ) (data length : ℕ)
    (h : WireAt (.idle fun w => sending a use w ∧ clearOf data length w) v s) (hpending : v.pending = bytesAt v.mem data length)
    (haccepted : v.accepted = if Accepts use length then v.sent ++ [v.pending] else v.sent) :
    WirePost wireDone (virtMmioNetSend data length) s := by
  unfold virtMmioNetSend
  have hrefused : ∀ {φ : TxPhase} {t : TxWire} {str : String} {k : TxView → Prop}, ¬ Accepts use length →
      WireAt (.idle k) v t → WirePost wireDone (uartPuts str) t := by
    intro φ t str k hno ht
    refine wireWp_text (only_uartPuts (fun c => ⟨c, rfl⟩) str) ht fun u hu => ⟨v, hu.mono fun _ => trivial, ?_⟩
    rw [haccepted, if_neg hno]
  refine wireWp_puts h fun t₁ h₁ => ?_
  split_ifs with hlen
  · exact hrefused (φ := .idle fun _ => True) (fun hacc => absurd hacc.1 (not_le.mpr hlen)) h₁
  simp only [nextDesc, size, inUse, descAddr, setDescLen, setDescFlags, availIdx, setAvailRing,
    setInUse, setNextDesc, setAvailIdx, virtMmioNotify, op_bind, ret_bind]
  refine wireWp_op (unrecorded_of_ne (by simp) (by simp)) h₁ (fun _ _ => trivial) fun t₂ h₂ hlift₂ => ?_
  refine wireWp_size (hlift₂ h₂.sys) fun t₃ h₃ => ?_
  generalize hnext : (tx.exec .nextDesc t₂.sys).1 = first
  have hfirst : first < 256 := by
    rw [← hnext]
    exact h₂.sys.nextDescLt
  have hzero : (first + 0) % 256 = first := Nat.mod_eq_of_lt hfirst
  rw [← hzero]
  refine wireWp_searchDesc hfirst (fun _ hk => hk.1.2) (fun d t₄ hd huse h₄ => ?_) 256 0 rfl (by simp) h₃
  refine wireWp_view (unrecorded_of_ne (by simp) (by simp)) (fun w => w.inUse d) (fun _ => rfl) (fun _ => trivial) h₄
    fun b t₅ h₅ => ?_
  have hb : use d = b := by
    rw [← h₅.sys.known.1.1.2]
    exact h₅.sys.known.2
  split_ifs with hbusy
  · refine hrefused (φ := .idle fun _ => True) ?_ h₅
    rintro ⟨-, e, he, hfree⟩
    exact huse.resolve_left (hb ▸ hbusy) e he hfree
  have hfree : use d = 0 := hb.trans (not_not.mp hbusy)
  have hall : v.sent ++ [v.pending] = v.accepted := by
    rw [haccepted, if_pos ⟨not_lt.mp hlen, d, hd, hfree⟩]
  have h₅' : WireAt (.idle fun w => chosen d w ∧ clearOf data length w) v t₅ :=
    h₅.mono fun hk => ⟨⟨hd, hk.2.trans (not_not.mp hbusy)⟩, hk.1.2⟩
  refine wireWp_view (unrecorded_of_ne (by simp) (by simp)) (fun w => (w.desc d).addr) (fun _ => rfl) (fun _ => trivial) h₅'
    fun (addr : ℕ) t₆ h₆ => ?_
  have hclear : ∀ i < length, data + i < addr ∨ addr + 2048 ≤ data + i := by
    intro i hi
    rw [← h₆.sys.known.2]
    exact h₆.sys.known.1.2 d hd i hi
  have hbytes : bytesAt (copyUp v.mem addr data length) addr length = v.pending := by
    rw [hpending]
    refine List.map_congr_left fun i hi => ?_
    have hi' := List.mem_range.mp hi
    have happart := hclear i hi'
    have hfits : length ≤ 2048 := not_lt.mp hlen
    rw [copyUp_inside _ _ _ hi', copySource_of_apart (by omega)]
  refine wp_bind (wp_mono (fun _ _ hok => hok) (fun _ t₇ h₇ => ?_) (wireWp_memCopy (not_lt.mp hlen) length le_rfl h₆))
  -- from here on memory holds the packet
  generalize hv : v.withMem (copyUp v.mem addr data length) = v' at h₇
  have hbytes' : bytesAt v'.mem addr length = v'.pending := by
    rw [← hv]
    exact hbytes
  have hall' : v'.sent ++ [v'.pending] = v'.accepted := by
    rw [← hv]
    exact hall
  have h₇' : WireAt (.idle fun w => chosen d w ∧ (w.desc d).addr = addr) v' t₇ := h₇.mono fun hk => ⟨hk.1.1, hk.2⟩
  refine wireWp_op (unrecorded_of_ne (by simp) (by simp)) h₇'
    (fun t ht => (ht.mono And.left).notMem_outstanding (ht.mono And.left).mem_free) fun t₈ h₈ hlift₈ => ?_
  have h₈' : TxAt (.idle fun w => chosen d w ∧ loaded d addr length w) (tx.exec (.setDescLen d length) t₈.sys).2 := by
    refine ((h₈.sys.mono And.left).setDescLen length).mono fun hc => ⟨hc, ?_⟩
    rw [view_setDescLen]
    refine ⟨?_, ?_⟩
    · show (Function.update t₈.sys.view.desc d _ d).addr = addr
      rw [Function.update_self]
      exact h₈.sys.known.2
    · show (Function.update t₈.sys.view.desc d _ d).len = length
      rw [Function.update_self]
  refine wireWp_op (unrecorded_of_ne (by simp) (by simp)) (hlift₈ h₈')
    (fun t ht => (ht.mono And.left).notMem_outstanding (ht.mono And.left).mem_free) fun t₉ h₉ hlift₉ => ?_
  have h₉' : TxAt (.idle fun w => chosen d w ∧ loaded d addr length w) (tx.exec (.setDescFlags d 0) t₉.sys).2 := by
    refine ((h₉.sys.mono And.left).setDescFlags 0).mono fun hc => ⟨hc, ?_⟩
    rw [view_setDescFlags]
    refine ⟨?_, (TxView.len_setFlags ..).trans h₉.sys.known.2.2⟩
    show (Function.update t₉.sys.view.desc d _ d).addr = addr
    rw [Function.update_self]
    exact h₉.sys.known.2.1
  refine wireWp_view (unrecorded_of_ne (by simp) (by simp)) TxView.availIdx (fun _ => rfl) (fun _ => trivial) (hlift₉ h₉')
    fun x t₁₀ h₁₀ => wireWp_size h₁₀ fun t₁₁ h₁₁ => ?_
  refine wireWp_op (unrecorded_of_ne (by simp) (by simp)) h₁₁ (fun t ht j hj => ?_) fun t₁₂ h₁₂ hlift₁₂ => ?_
  · rcases ht.shared with ⟨log, hshared, -⟩
    have hchosen : TxAt (.idle (chosen d)) t := ht.mono fun hk => hk.1.1
    rw [← show t.virtq.availIdx = x from ht.known.2]
    exact hshared.slot_taken hchosen.mem_free hj
  have hx : t₁₂.sys.virtq.availIdx = x := h₁₂.sys.known.2
  have h₁₂' : TxAt (.idle fun w => (chosen d w ∧ placed d w) ∧ loaded d addr length w)
      (tx.exec (.setAvailRing (x % descQueueSize) d) t₁₂.sys).2 := by
    rw [← hx]
    refine (TxAt.setAvailRing (h₁₂.sys.mono fun hk => hk.1.1)).mono fun hc => ⟨hc, ?_⟩
    rw [view_setAvailRing]
    exact h₁₂.sys.known.1.2
  refine wireWp_op (unrecorded_of_ne (by simp) (by simp)) (hlift₁₂ h₁₂') (fun _ _ => trivial) fun t₁₃ h₁₃ hlift₁₃ => ?_
  have h₁₃' : TxAt (.marked d fun w => placed d w ∧ loaded d addr length w) (tx.exec (.setInUse d 1) t₁₃.sys).2 := by
    refine (TxAt.setInUse (h₁₃.sys.mono And.left)).mono fun hc => ⟨hc, ?_⟩
    rw [view_setInUse]
    exact h₁₃.sys.known.2
  refine wireWp_size (hlift₁₃ h₁₃') fun t₁₄ h₁₄ => ?_
  refine wireWp_op (unrecorded_of_ne (by simp) (by simp)) h₁₄ (fun _ _ => trivial) fun t₁₅ h₁₅ hlift₁₅ => ?_
  have h₁₅' : TxAt (.marked d fun w => placed d w ∧ loaded d addr length w)
      (tx.exec (.setNextDesc ((d + 1) % descQueueSize)) t₁₅.sys).2 := by
    refine (TxAt.setNextDesc (h₁₅.sys.mono And.left) (Nat.mod_lt _ (by decide))).mono fun hc => ⟨hc, ?_⟩
    rw [view_setNextDesc]
    exact h₁₅.sys.known.2
  refine wireWp_view (unrecorded_of_ne (by simp) (by simp)) TxView.availIdx (fun _ => rfl) (fun _ => trivial)
    (hlift₁₅ h₁₅') fun y t₁₆ h₁₆ => ?_
  refine wp_op (WireAt.stable _ _) h₁₆ fun t₁₇ h₁₇ => ⟨⟨h₁₇.delivers, h₁₇.upToDate⟩, fun _ => ?_⟩
  rw [← show t₁₇.sys.virtq.availIdx = y from h₁₇.sys.known.2]
  have h₁₇' := (h₁₇.mono And.left).publish (not_lt.mp hlen) hbytes' hall'
  refine wireWp_op (unrecorded_of_ne (by simp) (by simp)) h₁₇' (fun _ _ => trivial) fun t₁₈ h₁₈ hlift₁₈ => ?_
  exact wp_ret wireDone_stable ⟨_, hlift₁₈ (h₁₈.sys.notify _), hall'⟩

/-- **A round of the completion loop** has nothing to do with the channel. -/
lemma wirePost_reclaimTx (h : WireAt (.idle fun _ => True) v s) :
    WirePost (fun _ => WireAt (.idle fun _ => True) v) reclaimTx s := by
  simp only [reclaimTx, lastUsedIdx, usedIdx, size, usedId, setInUse, setLastUsedIdx, op_bind, ret_bind, pure_eq]
  have hun := @unrecorded_of_ne
  refine wireWp_view (hun (by simp) (by simp)) TxView.lastUsedIdx (fun _ => rfl) (fun _ => trivial) h fun l t₁ h₁ => ?_
  refine wireWp_op (hun (by simp) (by simp)) h₁ (fun _ _ => trivial) fun t₂ h₂ hlift₂ => ?_
  have h₂' := hlift₂ h₂.sys
  split_ifs with hne
  swap
  · exact wp_ret (WireAt.stable _ _) (h₂'.mono fun _ => trivial)
  have hready : WireAt (.ready fun _ => True) v (wire.exec .usedIdx t₂).2 :=
    ⟨h₂.sys.ready_of_ne hne, h₂'.delivers, h₂'.upToDate, h₂'.view⟩
  refine wireWp_puts hready fun t₃ h₃ => ?_
  refine wireWp_view (hun (by simp) (by simp)) TxView.lastUsedIdx (fun _ => rfl) (fun _ => trivial) h₃ fun m t₄ h₄ =>
    wireWp_size h₄ fun t₅ h₅ => ?_
  refine wireWp_op (hun (by simp) (by simp)) h₅ (fun t ht => ?_) fun t₆ h₆ hlift₆ => ?_
  · rw [← show t.queue.lastUsedIdx = m from ht.known.2]
    exact ht.usedId_first.1
  have hm₆ : t₆.sys.queue.lastUsedIdx = m := h₆.sys.known.2
  have hat₆ := h₆.sys.usedId_first.2
  rw [hm₆] at hat₆
  have h₆' := hlift₆ hat₆
  generalize hu : t₆.sys.virtq.usedRing (m % descQueueSize) = u at h₆'
  have hid : (tx.exec (.usedId (m % descQueueSize)) t₆.sys).1 = u.id := congrArg VirtqUsedElem.id hu
  rw [hid]
  refine wireWp_size h₆' fun t₇ h₇ => ?_
  have hlt : u.id < descQueueSize := by
    rcases h₇.sys.shared with ⟨log, hshared, -⟩
    exact hshared.mem_lt List.mem_cons_self
  rw [if_pos hlt]
  refine wireWp_op (hun (by simp) (by simp)) h₇ (fun t ht => ?_) fun t₈ h₈ hlift₈ => ?_
  · rw [← show t.queue.lastUsedIdx = m from ht.known.2]
    exact ht.usedId_second.2.1
  have hm₈ : t₈.sys.queue.lastUsedIdx = m := h₈.sys.known.2
  obtain ⟨helem, -, hat₈⟩ := h₈.sys.usedId_second
  rw [hm₈] at helem hat₈
  have hid' : (tx.exec (.usedId (m % descQueueSize)) t₈.sys).1 = u.id := congrArg VirtqUsedElem.id helem
  rw [hid']
  have h₉ : WireAt (.taken u.id fun _ => True) v _ := (hlift₈ hat₈).mono fun _ => trivial
  refine wireWp_op (hun (by simp) (by simp)) h₉ (fun _ _ => trivial) fun t₁₀ h₁₀ hlift₁₀ => ?_
  refine wireWp_view (hun (by simp) (by simp)) TxView.lastUsedIdx (fun _ => rfl) (fun _ => trivial)
    (hlift₁₀ h₁₀.sys.release) fun x t₁₁ h₁₁ => ?_
  refine wireWp_op (hun (by simp) (by simp)) h₁₁ (fun _ _ => trivial) fun t₁₂ h₁₂ hlift₁₂ => ?_
  have hx : t₁₂.sys.queue.lastUsedIdx = x := h₁₂.sys.known.2
  have hat₁₂ := TxAt.setLastUsedIdx h₁₂.sys
  rw [hx] at hat₁₂
  exact wp_ret (WireAt.stable _ _) (hlift₁₂ hat₁₂)

/-! ## Runs -/

/-- Nothing has been sent. -/
lemma WireStart.done (h : WireStart s) : wireDone ⟨⟩ s := by
  cases h with
  | @mk sys hstart pending copy =>
      have hoff : offered sys.virtq sys.dev = [] ∧ sys.dev.held = [] := by
        cases hstart with
        | @mk limit net net' l owned hs huse hinit =>
            obtain ⟨-, hfresh, -⟩ := virtMmioNetVirtqInit_spec hs hinit
            have hoff : offered (net'.queues .tx).virtq Device.reset = [] := by
              rw [offered, hfresh.availIdx]
              rfl
            exact ⟨hoff, rfl⟩
      refine ⟨_, ⟨hstart.idle, ⟨?_, fun d hd => ?_, fun d hd => ?_⟩, .inl rfl, rfl⟩, rfl⟩
      · rw [TxWire.ring, hoff.1]
        rfl
      · rw [hoff.2] at hd
        exact absurd hd List.not_mem_nil
      · rw [hoff.1, hoff.2] at hd
        exact absurd hd List.not_mem_nil

lemma wirePost_call {p : Driver PUnit} {s' : TxWire} (hcall : WireCall ⟨⟩ s p s') (h : wireDone ⟨⟩ s) :
    WirePost wireDone p s' := by
  obtain ⟨v, hat, hall⟩ := h
  cases hcall with
  | @send _ data length hdata =>
      obtain rfl := hat.view
      refine wirePost_virtMmioNetSend (a := s.sys.virtq.availIdx) s.sys.queue.inUse data length
        (v := ⟨s.sys.net.heap.mem, bytesAt s.sys.net.heap.mem data length, s.sent, _⟩)
        ⟨hat.sys.mono fun _ => ⟨⟨rfl, rfl⟩, fun d hd i hi => ?_⟩, hat.delivers.same rfl rfl rfl rfl rfl rfl, ?_, rfl⟩ rfl ?_
      · have hout : ¬ s.sys.virtq.InBuffer d (data + i) := hdata d hd i hi
        rw [Virtq.InBuffer, queueBufSize_eq] at hout
        show data + i < (s.sys.virtq.desc d).addr ∨ (s.sys.virtq.desc d).addr + 2048 ≤ data + i
        omega
      · have hsame : s.sent = s.accepted := hall
        by_cases hacc : Accepts s.sys.queue.inUse length
        · right
          simp only [if_pos hacc, hsame]
        · left
          simp only [if_neg hacc, hsame]
      · have hsame : s.sent = s.accepted := hall
        rw [hsame]
  | reclaim =>
      refine wp_bind (wp_mono (fun _ _ hok => hok) (fun _ t ht => ?_) (wirePost_reclaimTx hat))
      exact wp_ret wireDone_stable ⟨v, ht, hall⟩
  | @others _ m hm =>
      obtain rfl := hat.view
      have hmem : ∀ d ∈ offered s.sys.virtq s.sys.dev ++ s.sys.dev.held, ∀ x, s.sys.virtq.InBuffer d x →
          m x = s.sys.net.heap.mem x := by
        intro d hd x hx
        by_contra hne
        exact hm x hne d (hat.sys.outstanding_lt (List.mem_append_left _ hd)) hx
      exact wp_ret wireDone_stable ⟨_, ⟨hat.sys.of_tx rfl, hat.delivers.congr rfl rfl rfl rfl (fun _ hd => hd)
        (fun _ _ => rfl) hmem, hat.upToDate, rfl⟩, hall⟩

/-- **The TX queue is a FIFO channel.**  At every point of every run of sends, completion rounds and a conforming device,
of any length: the packets the device has taken, as it found them, and after them those in the ring, are the packets that
have been published, in order, each once; these are those of the accepted calls so far, but for the one of a call that
is still running; and in every descriptor the device holds is still the packet it found there. -/
theorem tx_delivery (s₀ s : TxWire) (p : Driver PUnit) (ls : List Turn) (hstart : WireStart s₀)
    (hrun : Run (wire.Serve WireCall) (.ret ⟨⟩, s₀) ls (p, s)) :
    s.sent = s.got ++ s.ring ∧ (∀ d ∈ s.sys.dev.held, s.packet d = s.copy d) ∧
      (s.sent = s.accepted ∨ s.accepted = s.sent ++ [s.pending]) ∧ (p = .ret ⟨⟩ → s.sent = s.accepted) := by
  have hat := Run.serve (fun _ _ _ _ hcall hdone => wirePost_call hcall hdone) hrun (wp_ret wireDone_stable hstart.done)
  cases p with
  | ret a =>
      obtain ⟨v, hat, hall⟩ := hat
      have hsent : s.sent = s.accepted := by
        have hview := hat.view
        rw [← hview] at hall
        exact hall
      exact ⟨hat.delivers.sent, hat.delivers.held, .inl hsent, fun _ => hsent⟩
  | op o k => exact ⟨hat.1.sent, hat.1.held, hat.2, by simp⟩

/-- A call of `virt_mmio_net_send` that is left alone, where the descriptor at `next_desc` is free. -/
lemma virtMmioNetSend_wire {length : ℕ} (data : ℕ) (hsize : s.sys.queue.size = 256) (hnext : s.sys.queue.nextDesc = d)
    (hfree : s.sys.queue.inUse d = 0) (hlen : length ≤ queueBufSize) : ∃ s' ls,
    Run (wire.Serve WireCall) (virtMmioNetSend data length, s) ls (.ret ⟨⟩, s') ∧ s'.accepted = s.accepted ∧
      s'.got = s.got ∧ s'.sys.dev = s.sys.dev ∧ s'.sys.virtq = (s.sys.queue.sent d length).virtq := by
  obtain ⟨ls, hrun⟩ : ∃ ls, Run (wire.Serve WireCall) _ ls _ := Run.serve_alone (virtMmioNetSend data length) s
  obtain ⟨net, hsend, hqueue⟩ := virtMmioNetSend_tx data hsize hnext hfree hlen
  have hsys : (virtMmioNetSend data length).run tx.exec s.sys = (_, ((virtMmioNetSend data length).run wire.exec s).2.sys) :=
    run_map (f := TxWire.sys) (fun _ _ => rfl) (virtMmioNetSend data length) s
  rw [hsend] at hsys
  have hsys' : ((virtMmioNetSend data length).run wire.exec s).2.sys = _ := (congrArg Prod.snd hsys).symm
  have hkeep : ∀ o (t : TxWire), t.accepted = s.accepted ∧ t.got = s.got →
      (wire.exec o t).2.accepted = s.accepted ∧ (wire.exec o t).2.got = s.got := by
    intro o t ht
    cases o <;> exact ht
  obtain ⟨haccepted, hgot⟩ := run_keeps hkeep (virtMmioNetSend data length) ⟨rfl, rfl⟩
  exact ⟨_, ls, hrun, haccepted, hgot, by rw [hsys'], by rw [hsys', ← hqueue]⟩

/-- The device looks at `avail` and takes a descriptor. -/
lemma WireDevice.takes (p : Driver PUnit) (hne : s.sys.dev.next ≠ s.sys.virtq.availIdx)
    (hhead : s.sys.virtq.availRing (s.sys.dev.next % descQueueSize) = d) : ∃ s' ls,
    Run (wire.Serve WireCall) (p, s) ls (p, s') ∧ s'.accepted = s.accepted ∧ s'.got = s.got ++ [s.packet d] ∧
      s'.copy d = s.packet d ∧ s'.sys.virtq = s.sys.virtq ∧ s'.sys.dev = { s.sys.dev with
        seen := s.sys.virtq.availIdx, next := (s.sys.dev.next + 1) % 2 ^ 16, held := s.sys.dev.held ++ [d] } := by
  have hself : s.sys.net.setVirtq .tx s.sys.virtq = s.sys.net := by
    simp [NetState.setVirtq, NetState.setQueue, TxSys.virtq, TxSys.queue]
  have hnext : (s.sys.dev.next + 1) % 2 ^ 16 ≠ s.sys.dev.next := by omega
  have hsee : WireDevice s _ := .ring (.readAvail ..)
  rw [TxWire.observe, if_pos rfl, if_pos rfl, hself] at hsee
  have htake : WireDevice { s with sys := { s.sys with dev := { s.sys.dev with seen := s.sys.virtq.availIdx } } } _ :=
    .ring (.take _ _ hne)
  rw [TxWire.observe, if_neg hnext, if_neg hnext] at htake
  simp only [hself] at htake
  subst hhead
  exact ⟨_, _, .cons (.env p hsee) (.cons (.env p htake) (.nil _)), rfl, rfl, Function.update_self .., rfl, rfl⟩

/-- A packet of 60 bytes is sent and the device takes it. -/
theorem tx_delivery_first : ∃ s₀ s ls packet, WireStart s₀ ∧ Run (wire.Serve WireCall) (.ret ⟨⟩, s₀) ls (.ret ⟨⟩, s) ∧
    packet.length = 60 ∧ s.accepted = [packet] ∧ s.sys.dev.held = [0] ∧ s.got = [packet] ∧ s.packet 0 = packet := by
  rcases queueLayout_init with ⟨limit, net, hinit⟩
  have hsplit : (NetState.boot (queueLayout.boot (fun _ => 0) true)).heap.Split _ _ :=
    queueLayout.boot_split (fun _ => 0) true
  rcases virtMmioNetVirtqInit_inv hsplit hinit with ⟨r₁, b₁, r₂, b₂, hi⟩
  rcases hi.split with ⟨l', hs⟩
  have hpage := (hs.block_bounds (a := b₂) (n := 128) (by decide) fun x hx => by simp [hx]).1
  have hnull := hi.notNull.2.2.2
  let s₁ : TxWire := ⟨⟨net, .reset, none, 0, []⟩, [], [], [], [], fun _ => []⟩
  have hstart : WireStart s₁ := .mk (.mk hsplit (fun _ => rfl) hinit) [] _
  have hdata : ∀ d < 256, ∀ i < 60, ¬ s₁.sys.virtq.InBuffer d (0 + i) := by
    intro d hd i hi'
    rw [TxSys.virtq, TxSys.queue, Virtq.InBuffer, (hi.tx.desc d hd).1]
    omega
  have hinUse : (net.queues .tx).inUse 0 = 0 := by
    rw [hi.inUse]
    rfl
  have hacc : Accepts s₁.sys.queue.inUse 60 := ⟨by decide, 0, by decide, hinUse⟩
  have hcall : Run (wire.Serve WireCall) (.ret ⟨⟩, s₁) [.call] _ := .cons (.call (.send hdata)) (.nil _)
  rw [if_pos hacc] at hcall
  obtain ⟨s₂, ls, hsend, haccepted, hgot, hdev, hring⟩ := virtMmioNetSend_wire
    (s := { s₁ with pending := bytesAt net.heap.mem 0 60, accepted := [bytesAt net.heap.mem 0 60] })
    0 hi.tx.size hi.tx.nextDesc hinUse (show 60 ≤ queueBufSize by decide)
  have hidx : s₂.sys.virtq.availIdx = 1 := by
    rw [hring, VirtioNetQueue.sent, hi.txIdx]
    rfl
  have hhead : s₂.sys.virtq.availRing (s₂.sys.dev.next % descQueueSize) = 0 := by
    rw [hring, hdev, VirtioNetQueue.sent, hi.txIdx]
    rfl
  obtain ⟨s₃, ls', htake, haccepted₃, hgot₃, hcopy, hring₃, hdev₃⟩ :=
    WireDevice.takes (.ret ⟨⟩) (by rw [hidx, hdev]; exact zero_ne_one) hhead
  have hrun := hcall.append (hsend.append htake)
  obtain ⟨hsent, hheld, -, hall⟩ := tx_delivery _ _ _ _ hstart hrun
  have hacc₃ : s₃.accepted = [bytesAt net.heap.mem 0 60] := haccepted₃.trans haccepted
  have hheld₃ : s₃.sys.dev.held = [0] := by
    rw [hdev₃, hdev]
    rfl
  have hempty : s₃.ring = [] := by
    rw [TxWire.ring, offered, hring₃, hdev₃, hidx, hdev]
    show (window _ _ 1 (gap 1 1)).map _ = []
    rw [show gap 1 1 = 0 from rfl]
    rfl
  have hone : s₃.got = [bytesAt net.heap.mem 0 60] := by
    rw [hempty, List.append_nil, hall rfl, hacc₃] at hsent
    exact hsent.symm
  refine ⟨_, s₃, _, _, hstart, hrun, by simp [bytesAt], hacc₃, hheld₃, hone, ?_⟩
  rw [hheld 0 (by simp [hheld₃]), hcopy]
  rw [hgot₃, hgot] at hone
  exact List.singleton_inj.mp hone

end NetStack
