import NetStack.System.Moves
import NetStack.Virtio.Packet

/-!
# What the driver and its devices do to everybody else

The entry points of the driver, each from call to return and with a device that does as it likes in
between, next to other clients of the heap.  `taken` are the pages the driver has got from the allocator; it
gives none back.

`StaysIn` says that the bytes that have changed lie in these pages and that `net_queues` points where it pointed;
it holds of a poll, of a packet that is sent and of any device.  Initialisation and `virt_mmio_net_tx` take
pages on top (`virtMmioNetVirtqInit_moves`, `virtMmioNetTx_moves`).  A packet is sent on queues that are `Up`: the
last initialisation returned `0`.
-/

namespace NetStack

open ByteMem Concurrent Transition

/-- Memory has changed in the pages `taken` only, and the pointers have not. -/
structure StaysIn (taken : List ℕ) (s t : NetState) : Prop where
  heap : t.heap = { s.heap with mem := t.heap.mem }
  mem : ∀ x, t.heap.mem x ≠ s.heap.mem x → pageFloor x ∈ taken
  ptr : ∀ q, (t.queues q).ring = (s.queues q).ring ∧ (t.queues q).buffers = (s.queues q).buffers

/-- A TX queue that a successful initialisation has left, whatever has been sent on it since. -/
structure NetState.Up (s : NetState) : Prop where
  buffers : (s.queues .tx).buffers ≠ 0
  safe : TxSafeAt (s.queues .tx).buffers txIdle ⟨s, none, none⟩

section

variable {taken others l : List ℕ} {s t t' : NetState} {q : QueueIndex} {x : ℕ}

lemma StaysIn.refl (taken : List ℕ) (s : NetState) : StaysIn taken s s :=
  ⟨rfl, fun _ hx => absurd rfl hx, fun _ => ⟨rfl, rfl⟩⟩

lemma StaysIn.driverPages (h : StaysIn taken s t) : t.driverPages = s.driverPages := by
  simp only [NetState.driverPages, VirtioNetQueue.pages, h.ptr]

/-- What it means for the others. -/
lemma StaysIn.moves (h : StaysIn taken s t) (hs : s.heap.Split l (taken ++ others)) : s.heap.Moves t.heap taken others := by
  rw [h.heap]
  exact hs.moves_write h.mem

/-- A byte of the buffers of a queue. -/
lemma Heap.Split.buffer_taken (hs : s.heap.Split l (taken ++ others)) (hsub : s.driverPages ⊆ taken)
    (hb : (s.queues q).buffers ≠ 0) (hlo : (s.queues q).buffers ≤ x)
    (hhi : x < (s.queues q).buffers + descQueueSize * queueBufSize) : pageFloor x ∈ taken := by
  have hblock : blockPages (s.queues q).buffers 128 ⊆ taken := by
    intro p hp
    have harea : p ∈ (s.queues q).pages := by
      rw [VirtioNetQueue.pages, areaPages, if_neg hb]
      exact List.mem_append_left _ hp
    refine hsub ?_
    cases q with
    | rx => exact List.mem_append_right _ harea
    | tx => exact List.mem_append_left _ harea
  have hal := (hs.block_bounds (by decide) fun p hp => List.mem_append_left others (hblock hp)).1
  refine hblock (pageFloor_mem_blockPages hal hlo ?_)
  simp only [descQueueSize_eq, queueBufSize_eq] at hhi
  omega

/-- Another change of memory within the pages. -/
lemma StaysIn.write (h : StaysIn taken s t) {m : Mem} (hm : ∀ x, m x ≠ t.heap.mem x → pageFloor x ∈ taken) :
    StaysIn taken s { t with heap := { t.heap with mem := m } } := by
  refine ⟨?_, fun x hx => ?_, h.ptr⟩
  · rw [h.heap]
  · by_cases hsame : m x = t.heap.mem x
    · exact h.mem x (hsame ▸ hx)
    · exact hm x hsame

/-- **A device.** -/
lemma StaysIn.havoc (h : StaysIn taken s t) (hs : s.heap.Split l (taken ++ others)) (hsub : s.driverPages ⊆ taken)
    (henv : Havoc t t') : StaysIn taken s t' := by
  cases henv with
  | used q idx ring =>
      refine ⟨h.heap, h.mem, fun q' => ?_⟩
      obtain ⟨idx', ring', heq⟩ := (Havoc.used t q idx ring).queue q'
      rw [heq]
      exact h.ptr q'
  | fill hb hm =>
      refine h.write fun x hx => ?_
      by_contra hout
      refine hx (hm x fun hin => hout ?_)
      rw [(h.ptr .rx).2] at hb hin
      exact hs.buffer_taken hsub hb hin.1 hin.2

/-- An access that is no store to memory. -/
lemma StaysIn.op (h : StaysIn taken s t) {o : Op} (ho : NoStore o) (q : QueueIndex) : StaysIn taken s (o.exec q t).2 := by
  refine ⟨?_, fun x hx => h.mem x ?_, fun q' => ?_⟩
  · rw [ho.heap q t]
    exact h.heap
  · rwa [ho.heap q t] at hx
  · obtain ⟨hring, hbuf⟩ := Op.exec_ptr q q' o t
    exact ⟨hring.trans (h.ptr q').1, hbuf.trans (h.ptr q').2⟩

lemma StaysIn.store (h : StaysIn taken s t) {a : ℕ} (v : UInt8) (ha : pageFloor a ∈ taken) (q : QueueIndex) :
    StaysIn taken s ((Op.setByte a v).exec q t).2 := by
  refine h.write fun x hx => ?_
  have hxa : x = a := by
    by_contra hne
    exact hx (write_of_ne _ v hne)
  rwa [hxa]

/-- Any access, if its store is in the pages. -/
lemma StaysIn.access (h : StaysIn taken s t) {o : Op} (ho : ∀ a v, o = .setByte a v → pageFloor a ∈ taken)
    (q : QueueIndex) : StaysIn taken s (o.exec q t).2 := by
  by_cases hno : NoStore o
  · exact h.op hno q
  · simp only [NoStore, not_forall, not_not] at hno
    obtain ⟨a, v, rfl⟩ := hno
    exact h.store v (ho a v rfl) q

/-! ## Queues that are up -/

/-- Only the TX queue matters. -/
lemma TxSafeAt.of_tx {b : ℕ} {c c' k k' : Option ℕ} (h : TxSafeAt b txIdle ⟨s, c, k⟩) (htx : t.queues .tx = s.queues .tx)
    (hk : k' = none) : TxSafeAt b txIdle ⟨t, c', k'⟩ := by
  obtain ⟨hbuf, hsize, hnext, haddr, -⟩ := h
  simp only [TxAny.virtq, TxAny.queue, ← htx] at hbuf hsize hnext haddr
  exact ⟨hbuf, hsize, hnext, haddr, hk⟩

lemma NetState.Up.of_tx (h : s.Up) (htx : t.queues .tx = s.queues .tx) : t.Up := by
  refine ⟨?_, ?_⟩
  · rw [htx]
    exact h.buffers
  · rw [htx]
    exact h.safe.of_tx htx rfl

lemma NetState.Up.havoc (h : s.Up) (henv : Havoc s t) : t.Up := by
  have hsafe := TxSafeAt.stable _ _ ⟨s, none, none⟩ ⟨t, none, none⟩ ⟨henv, rfl, rfl⟩ h.safe
  obtain ⟨idx, ring, heq⟩ := henv.queue .tx
  refine ⟨?_, ?_⟩ <;> rw [heq]
  · exact h.buffers
  · exact hsafe

/-- At the end of a call the queue is idle again. -/
lemma NetState.Up.of_idle (h : s.Up) (hs : StaysIn taken s t) {c k : Option ℕ}
    (hat : TxSafeAt (s.queues .tx).buffers txIdle ⟨t, c, k⟩) : t.Up := by
  refine ⟨?_, ?_⟩ <;> rw [(hs.ptr .tx).2]
  · exact h.buffers
  · exact hat.of_tx rfl rfl

/-! ## A poll -/

/-- **`virt_mmio_net_poll_rx`** writes no memory; what is new is the device's. -/
lemma pollRx_staysIn {length : ℕ} {ls : List Turn} {p : Driver PollRx} {id : Option ℕ}
    (hs : s.heap.Split l (taken ++ others)) (hsub : s.driverPages ⊆ taken) (hup : s.Up)
    (hrun : Run (rxAny.Step RxAgain) (virtMmioNetPollRx length, ⟨s, none⟩) ls (p, ⟨t, id⟩)) :
    StaysIn taken s t ∧ t.Up := by
  refine (hrun.invariant (P := fun c => Only NoStore c.1 ∧ StaysIn taken s c.2.net ∧ c.2.net.Up) ?_
    ⟨noStore_pollRx.1, .refl taken s, hup⟩).2
  rintro ⟨p, u⟩ turn ⟨p', u'⟩ hstep ⟨honly, hin, hu⟩
  cases hstep with
  | op o k => exact ⟨honly.2 _, hin.op honly.1 .rx, hu.of_tx (Op.exec_other (by simp) o u.net)⟩
  | call u hcall =>
      cases hcall with
      | again n => exact ⟨noStore_pollRx.2, hin, hu⟩
  | env p henv => exact ⟨honly, hin.havoc hs hsub henv.1, hu.havoc henv.1⟩

/-! ## A packet is sent -/

/-- A store of the driver is in its pages, as far as `net_queues` points to the buffers at `b`. -/
def StoresIn (taken : List ℕ) (b : ℕ) (o : Op) (t : TxAny) : Prop :=
  ∀ a v, o = .setByte a v → t.queue.buffers = b → pageFloor a ∈ taken

/-- What the driver may do on TX stores in its pages. -/
lemma storesIn_of_ok (hs : s.heap.Split l (taken ++ others)) (hsub : s.driverPages ⊆ taken) (hup : s.Up) {o : Op}
    {u : TxAny} (hok : txSafeOk o u) : StoresIn taken (s.queues .tx).buffers o u := by
  rintro a v rfl hbuf
  obtain ⟨d, hd, -, hlo, hhi⟩ : ∃ d < descQueueSize, u.chosen = some d ∧ u.queue.buffers + d * queueBufSize ≤ a ∧
    a < u.queue.buffers + d * queueBufSize + queueBufSize := hok.2
  rw [hbuf] at hlo hhi
  simp only [descQueueSize_eq, queueBufSize_eq] at hd hlo hhi
  refine hs.buffer_taken (q := .tx) hsub hup.buffers (by omega) ?_
  simp only [descQueueSize_eq, queueBufSize_eq]
  omega

lemma staysIn_stable (hs : s.heap.Split l (taken ++ others)) (hsub : s.driverPages ⊆ taken) :
    txAny.Stable fun u => StaysIn taken s u.net := fun _ _ henv hu => hu.havoc hs hsub henv.1

lemma staysIn_exec {o : Op} {u : TxAny} (ho : StoresIn taken (s.queues .tx).buffers o u) (hu : StaysIn taken s u.net) :
    StaysIn taken s (txAny.exec o u).2.net :=
  hu.access (fun a v hav => ho a v hav (hu.ptr .tx).2) .tx

/-- **`virt_mmio_net_send`** writes into buffers. -/
lemma virtMmioNetSend_staysIn {data length : ℕ} {ls : List Turn} {c k : Option ℕ}
    (hs : s.heap.Split l (taken ++ others)) (hsub : s.driverPages ⊆ taken) (hup : s.Up)
    (hrun : Run (txAny.Step fun _ _ => False) (virtMmioNetSend data length, ⟨s, none, none⟩) ls (.ret ⟨⟩, ⟨t, c, k⟩)) :
    StaysIn taken s t ∧ t.Up := by
  have hwp : wp txAny txSafeOk (fun _ u => TxSafeAt (s.queues .tx).buffers txIdle u ∧ StaysIn taken s u.net)
      (virtMmioNetSend data length) ⟨s, none, none⟩ :=
    wp_and (staysIn_stable hs hsub) (fun o u hok hu => staysIn_exec (storesIn_of_ok hs hsub hup hok) hu)
      (txSafeWp_virtMmioNetSend data length hup.safe) (.refl taken s)
  obtain ⟨hat, hin⟩ := Run.wp (fun _ _ _ hr => absurd hr id) hrun hwp
  exact ⟨hin, hup.of_idle hin hat⟩

end

/-! ## A packet is built and sent -/

/-- A load, or a store between two addresses. -/
def StoresAt (lo hi : ℕ) (o : Op) : Prop := (∃ a, o = .byte a) ∨ ∃ a v, lo ≤ a ∧ a < hi ∧ o = .setByte a v

section Building

variable {lo hi : ℕ}

lemma storesAt_setByte {a : ℕ} (v : UInt8) (h : lo ≤ a ∧ a < hi) : StoresAt lo hi (.setByte a v) :=
  .inr ⟨a, v, h.1, h.2, rfl⟩

lemma only_setU16_at {a : ℕ} (v : ℕ) (h : lo ≤ a ∧ a + 2 ≤ hi) : Only (StoresAt lo hi) (setU16 a v) :=
  ⟨storesAt_setByte _ (by omega), fun _ => ⟨storesAt_setByte _ (by omega), fun _ => trivial⟩⟩

lemma only_setU32_at {a : ℕ} (v : ℕ) (h : lo ≤ a ∧ a + 4 ≤ hi) : Only (StoresAt lo hi) (setU32 a v) :=
  (only_setU16_at _ (by omega)).bind fun _ => only_setU16_at _ (by omega)

lemma only_memCopy_at {dest src n : ℕ} (h : lo ≤ dest ∧ dest + n ≤ hi) : Only (StoresAt lo hi) (memCopy dest src n) := by
  refine Only.forM fun i hi' => ⟨.inl ⟨_, rfl⟩, fun v => ⟨storesAt_setByte _ ?_, fun _ => trivial⟩⟩
  have hlt := List.mem_range.mp hi'
  omega

lemma only_setMacs_at {a b : ℕ} (u v : List UInt8) (ha : lo ≤ a ∧ a + 6 ≤ hi) (hb : lo ≤ b ∧ b + 6 ≤ hi) :
    Only (StoresAt lo hi) ((List.range 6).forM fun i => do
      setByte (a + i) (u.getD i 0)
      setByte (b + i) (v.getD i 0)) := by
  refine Only.forM fun i hi' => ?_
  have hlt := List.mem_range.mp hi'
  exact ⟨storesAt_setByte _ (by omega), fun _ => ⟨storesAt_setByte _ (by omega), fun _ => trivial⟩⟩

lemma only_buildVirtioNetHdr_at {hdr : ℕ} (a b c d e f : ℕ) (h : lo ≤ hdr ∧ hdr + 10 ≤ hi) :
    Only (StoresAt lo hi) (buildVirtioNetHdr hdr a b c d e f) :=
  ⟨storesAt_setByte _ (by omega), fun _ => ⟨storesAt_setByte _ (by omega), fun _ =>
    (only_setU16_at _ (by omega)).bind fun _ => (only_setU16_at _ (by omega)).bind fun _ =>
      (only_setU16_at _ (by omega)).bind fun _ => only_setU16_at _ (by omega)⟩⟩

lemma only_buildEthFrame_at {buffer : ℕ} (dstMac srcMac : List UInt8) (ethType payload len : ℕ)
    (h : lo ≤ buffer ∧ buffer + 14 + len % 2 ^ 16 ≤ hi) :
    Only (StoresAt lo hi) (buildEthFrame buffer dstMac srcMac ethType payload len) :=
  (only_setMacs_at _ _ (by omega) (by omega)).bind fun _ => (only_setU16_at _ (by omega)).bind fun _ =>
    only_memCopy_at (by simp only [sizeofEthHdr]; omega)

lemma only_buildArpResponse_at {buffer : ℕ} (srcMac : List UInt8) (srcIp : ℕ) (dstMac : List UInt8) (dstIp : ℕ)
    (h : lo ≤ buffer ∧ buffer + 28 ≤ hi) :
    Only (StoresAt lo hi) (buildArpResponse buffer srcMac srcIp dstMac dstIp) := by
  refine (only_setU16_at _ (by omega)).bind fun _ => (only_setU16_at _ (by omega)).bind fun _ => ?_
  refine ⟨storesAt_setByte _ (by omega), fun _ => ⟨storesAt_setByte _ (by omega), fun _ => ?_⟩⟩
  refine (only_setU16_at _ (by omega)).bind fun _ => ?_
  refine (only_setMacs_at _ _ (by omega) (by omega)).bind fun _ => ?_
  exact (only_setU32_at _ (by omega)).bind fun _ => only_setU32_at _ (by omega)

/-- The packet is 54 bytes of headers and the payload. -/
lemma only_buildTxPacket_at (ip packet data length : ℕ) :
    Only (StoresAt packet (packet + 54 + length)) (buildTxPacket ip packet data length) := by
  have hmod := Nat.mod_le length (2 ^ 16)
  refine (only_buildVirtioNetHdr_at _ _ _ _ _ _ (by omega)).bind fun _ => ?_
  refine (only_buildEthFrame_at _ _ _ _ _ (by simp only [sizeofVirtioNetHdr]; omega)).bind fun _ => ?_
  refine (only_buildArpResponse_at _ _ _ _ (by simp only [sizeofVirtioNetHdr, sizeofEthHdr]; omega)).bind fun _ => ?_
  exact only_memCopy_at (by simp only [sizeofVirtioNetHdr, sizeofEthHdr, sizeofArpHdr]; omega)

end Building

section

variable {taken others l : List ℕ} {s t : NetState}

/-- One round of the loop of `virt_mmio_net_tx`, as it stands. -/
lemma txSafeWp_round {G : Op → TxAny → Prop} {b : ℕ} {u : TxAny} (hG : ∀ o t, txSafeOk o t → G o t)
    (hu : TxSafeAt b txIdle u) : wpUnder txAny Refetched G (fun _ => TxSafeAt b txIdle) reclaimTx u :=
  wp_mono hG (fun _ _ h => h) (wp_of_bind_ret (f := fun _ => PUnit.unit) (txSafeWp_reclaimTx hu))

/-- **`virt_mmio_net_tx`** once it has memory for its packet: what it writes is in the packet or in a buffer, as
long as the device does not change the id of a used element between its two fetches. -/
lemma virtMmioNetTx_staysIn {packet data length : ℕ} {ls : List Turn} {c k : Option ℕ} {b : Bool}
    (hs : s.heap.Split l (taken ++ others)) (hsub : s.driverPages ⊆ taken) (hup : s.Up)
    (hpacket : ∀ x, packet ≤ x → x < packet + 54 + length → pageFloor x ∈ taken)
    (hrun : Run (txAny.StepUnder Refetched TxAgain) (virtMmioNetTx packet data length, ⟨s, none, none⟩) ls
      (.ret b, ⟨t, c, k⟩)) : StaysIn taken s t ∧ t.Up := by
  have hok : ∀ o u, txSafeOk o u → StoresIn taken (s.queues .tx).buffers o u :=
    fun _ _ h => storesIn_of_ok hs hsub hup h
  have hkeep : ∀ o u, StoresIn taken (s.queues .tx).buffers o u → StaysIn taken s u.net →
      StaysIn taken s (txAny.exec o u).2.net := fun _ _ ho hu => staysIn_exec ho hu
  have hbuild : ∀ o, StoresAt packet (packet + 54 + length) o → ∀ u, TxSafeAt (s.queues .tx).buffers txIdle u →
      StoresIn taken (s.queues .tx).buffers o u ∧ TxSafeAt (s.queues .tx).buffers txIdle (txAny.exec o u).2 := by
    rintro o (⟨a, rfl⟩ | ⟨a, v, hlo, hhi, rfl⟩) u hu
    · exact ⟨by rintro _ _ ⟨⟩, hu⟩
    · refine ⟨?_, hu.buffers, hu.size, hu.nextDesc, hu.addr, hu.known⟩
      rintro _ _ ⟨⟩ -
      exact hpacket a hlo hhi
  have hwp : wpUnder txAny Refetched (StoresIn taken (s.queues .tx).buffers)
      (fun _ => TxSafeAt (s.queues .tx).buffers txIdle) (virtMmioNetTx packet data length) ⟨s, none, none⟩ := by
    rw [virtMmioNetTx_eq]
    refine wp_bind (wp_of_only (TxSafeAt.stable _ _) hbuild (fun _ u hu => ?_) (only_buildTxPacket_at ..) hup.safe)
    refine wp_bind (wp_mono hok (fun _ u' hu' => ?_) (txSafeWp_virtMmioNetSend data length hu))
    refine wp_bind (wp_mono hok (fun _ u'' hu'' => ?_) (txSafeWp_puts_end hu'))
    exact wp_ret (TxSafeAt.stable _ _) hu''
  have hround : ∀ b p u, TxAgain b p → TxSafeAt (s.queues .tx).buffers txIdle u ∧ StaysIn taken s u.net →
      wpUnder txAny Refetched (StoresIn taken (s.queues .tx).buffers)
        (fun _ u => TxSafeAt (s.queues .tx).buffers txIdle u ∧ StaysIn taken s u.net) p u := by
    rintro b p u ⟨⟩ ⟨hu, hin⟩
    exact wp_and (staysIn_stable hs hsub) hkeep (txSafeWp_round hok hu) hin
  obtain ⟨hat, hin⟩ := Run.wpUnder hround hrun
    (wp_and (staysIn_stable hs hsub) hkeep hwp (.refl taken s))
  exact ⟨hin, hup.of_idle hin hat⟩

end

/-! ## Initialisation -/

section

variable {taken mine others l : List ℕ} {s s' : NetState} {q : QueueIndex} {h : Heap} {ring buffers limit : ℕ} {ok : Bool}

/-- `mem_alloc` for an area: its pages, if it has any. -/
lemma Heap.Split.moves_area {h' : Heap} {size p : ℕ} (hs : h.Split l (mine ++ others))
    (hret : MemAllocReturns h size (h', p)) : h.Moves h' (areaPages p (pageCount size) ++ mine) others := by
  rcases hs.moves_alloc hret with ⟨rfl, rfl⟩ | ⟨hne, hmoves⟩
  · exact .refl hs
  · rwa [areaPages, if_neg hne]

/-- The memory of a queue is cleared in its own pages. -/
lemma setupQueue_moves (hs : h.Split l (areaPages buffers 128 ++ (areaPages ring 2 ++ mine) ++ others))
    (hring : ring ≠ 0) (hbuf : buffers ≠ 0) :
    h.Moves (setupQueue (attachQueue s q h ring buffers) q).heap
      (areaPages buffers 128 ++ (areaPages ring 2 ++ mine)) others := by
  have hringPages : areaPages ring 2 = blockPages ring 2 := if_neg hring
  have hbufPages : areaPages buffers 128 = blockPages buffers 128 := if_neg hbuf
  rw [hringPages, hbufPages] at hs ⊢
  have halr := (hs.block_bounds (a := ring) (n := 2) (by decide) fun p hp => by simp [hp]).1
  have halb := (hs.block_bounds (a := buffers) (n := 128) (by decide) fun p hp => by simp [hp]).1
  have hsize : sizeofVirtq = 6664 := by decide
  have hbytes : queueBufSize * descQueueSize = 524288 := by decide
  rw [setupQueue_heap]
  refine hs.moves_write fun x hx => ?_
  by_cases hsecond : memZero (memZero h.mem ring sizeofVirtq) buffers (queueBufSize * descQueueSize) x
      = memZero h.mem ring sizeofVirtq x
  · rw [hsecond] at hx
    obtain ⟨hlo, hhi⟩ := memZero_ne hx
    exact List.mem_append_right _ (List.mem_append_left _ (pageFloor_mem_blockPages halr hlo (by omega)))
  · obtain ⟨hlo, hhi⟩ := memZero_ne hsecond
    exact List.mem_append_left _ (pageFloor_mem_blockPages halb hlo (by omega))

lemma attachQueue_pages : ((attachQueue s q h ring buffers).queues q).pages = areaPages buffers 128 ++ areaPages ring 2 := by
  simp [attachQueue, VirtioNetQueue.pages]

lemma setupQueue_pages :
    ((setupQueue (attachQueue s q h ring buffers) q).queues q).pages = areaPages buffers 128 ++ areaPages ring 2 := by
  simp [setupQueue, attachQueue, VirtioNetQueue.pages]

lemma setupQueue_other {q' : QueueIndex} (hq : q' ≠ q) :
    (attachQueue s q h ring buffers).queues q' = s.queues q' ∧
      (setupQueue (attachQueue s q h ring buffers) q).queues q' = s.queues q' := by
  simp [setupQueue, attachQueue, NetState.setQueue, hq]

/-- **One iteration**: the queue's pages are new, the other queue is as it was. -/
lemma initQueue_moves (hs : s.heap.Split l (mine ++ others)) (hrun : initQueue limit s q = some (s', ok)) :
    s.heap.Moves s'.heap ((s'.queues q).pages ++ mine) others ∧ ∀ q' ≠ q, s'.queues q' = s.queues q' := by
  simp only [initQueue, Option.bind_eq_bind, Option.bind_eq_some_iff, Prod.exists] at hrun
  obtain ⟨h₁, ring, hret₁, h₂, buffers, hret₂, hrun⟩ := hrun
  have hm₁ := hs.moves_area ⟨limit, hret₁⟩
  rw [pageCount_sizeofVirtq] at hm₁
  obtain ⟨l₁, hs₁⟩ := hm₁.split
  have hm₂ := hs₁.moves_area ⟨limit, hret₂⟩
  rw [pageCount_buffers] at hm₂
  obtain ⟨l₂, hs₂⟩ := hm₂.split
  have hm := hm₁.trans hm₂
  split_ifs at hrun with hnull
  · obtain ⟨rfl, -⟩ : s' = (attachQueue s q h₂ ring buffers).puts "Failed to allocate Virtio queue memory.\n" ∧ _ := by
      simpa [eq_comm] using hrun
    refine ⟨?_, fun q' hq => (setupQueue_other hq).1⟩
    rw [show (((attachQueue s q h₂ ring buffers).puts _).queues q).pages = _ from attachQueue_pages, List.append_assoc]
    exact hm
  · obtain ⟨rfl, -⟩ : s' = setupQueue (attachQueue s q h₂ ring buffers) q ∧ _ := by simpa [eq_comm] using hrun
    rw [not_or] at hnull
    refine ⟨?_, fun q' hq => (setupQueue_other hq).2⟩
    rw [setupQueue_pages, List.append_assoc]
    exact hm.trans (setupQueue_moves hs₂ hnull.1 hnull.2)

/-- **`virt_mmio_net_virtq_init`**, to its end or up to the failed allocation: the pages it takes are those
`net_queues` points to now and did not before. -/
lemma virtMmioNetVirtqInit_moves (hs : s.heap.Split l (taken ++ others)) (hsub : s.driverPages ⊆ taken)
    (hrun : virtMmioNetVirtqInit limit s = some (s', ok)) : ∃ new, s.heap.Moves s'.heap (new ++ taken) others ∧
      new ⊆ s'.driverPages ∧ s'.driverPages ⊆ new ++ taken := by
  have htx : (s.queues .tx).pages ⊆ taken := fun p hp => hsub (List.mem_append_left _ hp)
  simp only [virtMmioNetVirtqInit, Option.bind_eq_bind, Option.bind_eq_some_iff, Prod.exists] at hrun
  obtain ⟨s₁, ok₁, hrx, hrun⟩ := hrun
  have hs₀ : (s.puts "Initializing Virtio Network Device Queue...\n").heap.Split l (taken ++ others) := hs
  obtain ⟨hm₁, hkeep₁⟩ := initQueue_moves hs₀ hrx
  have htx₁ : s₁.queues .tx = s.queues .tx := hkeep₁ .tx (by simp)
  split_ifs at hrun with hok₁
  swap
  · obtain ⟨rfl, -⟩ : s' = s₁ ∧ _ := by simpa [eq_comm] using hrun
    refine ⟨_, hm₁, List.subset_append_right .., fun p hp => ?_⟩
    rw [NetState.driverPages, htx₁] at hp
    rcases List.mem_append.mp hp with hp | hp
    · exact List.mem_append_right _ (htx hp)
    · exact List.mem_append_left _ hp
  simp only [Option.bind_eq_some_iff, Prod.exists] at hrun
  obtain ⟨s₂, ok₂, htx₂, hrun⟩ := hrun
  obtain ⟨l₁, hs₁⟩ := hm₁.split
  obtain ⟨hm₂, hkeep₂⟩ := initQueue_moves hs₁ htx₂
  have hrx₂ : s₂.queues .rx = s₁.queues .rx := hkeep₂ .rx (by simp)
  -- both queues have new pages, also when the second iteration fails
  have hm : s.heap.Moves s₂.heap (s₂.driverPages ++ taken) others := by
    rw [NetState.driverPages, hrx₂, List.append_assoc]
    exact Heap.Moves.trans hm₁ hm₂
  have hsame : s'.heap = s₂.heap ∧ s'.driverPages = s₂.driverPages := by
    split_ifs at hrun with hok₂
    · obtain ⟨rfl, -⟩ : s' = (offerRx s₂).puts "Virtio Network Device Queue initialized.\n" ∧ _ := by
        simpa [eq_comm] using hrun
      exact ⟨rfl, by simp [NetState.driverPages, VirtioNetQueue.pages, offerRx, NetState.puts, NetState.setVirtq,
        NetState.setQueue]⟩
    · obtain ⟨rfl, -⟩ : s' = s₂ ∧ _ := by simpa [eq_comm] using hrun
      exact ⟨rfl, rfl⟩
  refine ⟨s₂.driverPages, ?_, ?_, ?_⟩
  · rw [hsame.1]
    exact hm
  · rw [hsame.2]
    exact fun _ hp => hp
  · rw [hsame.2]
    exact List.subset_append_left ..

/-- If it returns `0` the queues are up. -/
lemma NetState.Up.of_init (hs : s.heap.Split l others) (hrun : virtMmioNetVirtqInit limit s = some (s', true)) : s'.Up := by
  obtain ⟨r₁, b₁, r₂, b₂, hi⟩ := virtMmioNetVirtqInit_inv hs hrun
  refine ⟨?_, hi.txIdle⟩
  rw [hi.tx.buffers]
  exact hi.notNull.2.2.2

end

end NetStack
