import NetStack.Virtio.Reinit
import NetStack.Virtio.RxSafe
import NetStack.Virtio.TxSafe

/-!
# The driver's pages

The four entry points of the driver as the steps of a system, with a device that does as it likes
in between and inside them.  The driver takes pages in `virt_mmio_net_virtq_init` and in
`virt_mmio_net_tx` and gives none back, so the pages it has taken are those that were free at the start
and are not any more.

`NetInv` accounts for them: they are the pages of the areas that `net_queues` points to.  It holds as
long as `virt_mmio_net_virtq_init` does not overwrite a pointer and `virt_mmio_net_tx` gets no memory
(`no_leak`); a second initialisation strands the first one's pages (`reinit_leaks`).
-/

namespace NetStack

open ByteMem Concurrent Transition

/-! ## `virt_mmio_net_tx` -/

def sizeofArpHdr : ℕ := 28

def setU16 (a v : ℕ) : Driver PUnit := do
  setByte a (UInt8.ofNat v)
  setByte (a + 1) (UInt8.ofNat (v >>> 8))

def setU32 (a v : ℕ) : Driver PUnit := do
  setU16 a v
  setU16 (a + 2) (v >>> 16)

/-- `BE2LE`, which is `ntohl`. -/
def ntohl (n : ℕ) : ℕ :=
  ((n >>> 24) &&& 0xFF) ||| (((n >>> 16) &&& 0xFF) <<< 8) ||| (((n >>> 8) &&& 0xFF) <<< 16) |||
    ((n &&& 0xFF) <<< 24)

/-- `*(uint32_t*)my_ip`. -/
def myIp : ℕ := 10 + 0 * 2 ^ 8 + 2 * 2 ^ 16 + 15 * 2 ^ 24

def broadcastMac : List UInt8 := [0xFF, 0xFF, 0xFF, 0xFF, 0xFF, 0xFF]
def ownMac : List UInt8 := [0xDE, 0xAD, 0xBE, 0xEF, 0x00, 0x01]

/-- `build_virtio_net_hdr`; `num_buffers` is not written. -/
def buildVirtioNetHdr (hdr flags gsoType hdrLen gsoSize csumStart csumOffset : ℕ) : Driver PUnit := do
  setByte hdr (UInt8.ofNat flags)
  setByte (hdr + 1) (UInt8.ofNat gsoType)
  setU16 (hdr + 2) hdrLen
  setU16 (hdr + 4) gsoSize
  setU16 (hdr + 6) csumStart
  setU16 (hdr + 8) csumOffset

/-- `build_eth_frame`; the length of the payload is a `uint16_t`.  The MAC addresses are values here and in
`build_arp_response`: both functions are `static`, and their one caller passes compound literals, which no store
overlaps. -/
def buildEthFrame (buffer : ℕ) (dstMac srcMac : List UInt8) (ethType payload payloadLen : ℕ) : Driver PUnit := do
  (List.range 6).forM fun i => do
    setByte (buffer + i) (dstMac.getD i 0)
    setByte (buffer + 6 + i) (srcMac.getD i 0)
  setU16 (buffer + 12) (ntohs ethType)
  memCopy (buffer + sizeofEthHdr) payload (payloadLen % 2 ^ 16)

/-- `build_arp_response`. -/
def buildArpResponse (buffer : ℕ) (srcMac : List UInt8) (srcIp : ℕ) (dstMac : List UInt8) (dstIp : ℕ) :
    Driver PUnit := do
  setU16 buffer (ntohs 1)
  setU16 (buffer + 2) (ntohs ethPIp)
  setByte (buffer + 4) 6
  setByte (buffer + 5) 4
  setU16 (buffer + 6) (ntohs 2)
  (List.range 6).forM fun i => do
    setByte (buffer + 8 + i) (srcMac.getD i 0)
    setByte (buffer + 18 + i) (dstMac.getD i 0)
  setU32 (buffer + 14) srcIp
  setU32 (buffer + 24) dstIp

/-- What `virt_mmio_net_tx` asks `mem_alloc` for; the parameter of `mem_alloc` is a `uint32_t`. -/
def txSize (length : ℕ) : ℕ := (length + sizeofArpHdr + sizeofEthHdr + sizeofVirtioNetHdr) % 2 ^ 32

/-- `virt_mmio_net_tx` from the point where it has its packet up to its loop, of which `reclaimTx` is
one round.  The value is whether the call has returned. -/
def virtMmioNetTx (packet data length : ℕ) : Driver Bool := do
  buildVirtioNetHdr packet 0 0 0 0 0 0
  let p := packet + sizeofVirtioNetHdr
  buildEthFrame p broadcastMac ownMac ethPIp data length
  let p := p + sizeofEthHdr
  buildArpResponse p ownMac (ntohl myIp) broadcastMac 0
  memCopy (p + sizeofArpHdr) data length
  virtMmioNetSend data length
  uartPuts "Data sent, waiting for completion...\n"
  pure false

/-! ## The system -/

/-- The entry points, and the device. -/
inductive NetCall
  | init
  | send (data length : ℕ)
  | tx (data length : ℕ)
  | pollRx (length : ℕ)
  | device
  deriving DecidableEq, Repr

/-- Another round of the loop of `virt_mmio_net_tx`. -/
inductive TxAgain : Bool → Driver Bool → Prop
  | again : TxAgain false reclaimTx

/-- **A call, from entry to return**, or a move of the device. -/
inductive NetStep : NetState → NetCall → NetState → Prop
  | init {limit : ℕ} {s s' : NetState} {ok : Bool} (h : virtMmioNetVirtqInit limit s = some (s', ok)) :
      NetStep s .init s'
  | send {s s' : NetState} {data length : ℕ} {ls : List Turn} {c k : Option ℕ}
      (h : Run (txAny.Step fun _ _ => False) (virtMmioNetSend data length, ⟨s, none, none⟩) ls (.ret ⟨⟩, ⟨s', c, k⟩)) :
      NetStep s (.send data length) s'
  | txFailed {limit : ℕ} {s : NetState} {data length : ℕ} {h' : Heap}
      (h : memAlloc limit s.heap (txSize length) = some (h', 0)) :
      NetStep s (.tx data length) ({ s with heap := h' }.puts "Failed to allocate memory for TX packet.\n")
  | tx {limit : ℕ} {s s' : NetState} {data length packet : ℕ} {h' : Heap} {ls : List Turn} {c k : Option ℕ}
      (h : memAlloc limit s.heap (txSize length) = some (h', packet)) (hp : packet ≠ 0)
      (hrun : Run (txAny.Step TxAgain) (virtMmioNetTx packet data length, ⟨{ s with heap := h' }, none, none⟩) ls
        (.ret true, ⟨s', c, k⟩)) :
      NetStep s (.tx data length) s'
  | pollRx {s s' : NetState} {length : ℕ} {ls : List Turn} {id : Option ℕ}
      (h : Run (rxAny.Step RxAgain) (virtMmioNetPollRx length, ⟨s, none⟩) ls (.ret .returned, ⟨s', id⟩)) :
      NetStep s (.pollRx length) s'
  | device {s s' : NetState} (h : Havoc s s') : NetStep s .device s'

/-- The pages of the areas a queue points to. -/
def VirtioNetQueue.pages (queue : VirtioNetQueue) : List ℕ := areaPages queue.buffers 128 ++ areaPages queue.ring 2

def NetState.driverPages (s : NetState) : List ℕ := (s.queues .tx).pages ++ (s.queues .rx).pages

/-- The pages on the free list. -/
def Heap.freePages (h : Heap) : Set ℕ := {p | ∃ l, h.Free l ∧ p ∈ l}

/-- The pages taken since `s₀` are those `net_queues` points to. -/
def NoLeak (s₀ s : NetState) : Prop := s₀.heap.freePages \ s.heap.freePages = {p | p ∈ s.driverPages}

/-- The condition on a call: initialisation overwrites no pointer, `virt_mmio_net_tx` gets no memory,
and a packet that fits a buffer is sent on a TX queue that has been set up. -/
def Frugal (s : NetState) : NetCall → Prop
  | .init => ∀ q, (s.queues q).ring = 0 ∧ (s.queues q).buffers = 0
  | .tx _ length => ∃ h', MemAllocReturns s.heap (txSize length) (h', 0)
  | .send _ length => (s.queues .tx).size = descQueueSize ∨ length > queueBufSize
  | .pollRx _ | .device => True

def FrugalStep (s : NetState) (c : NetCall) (s' : NetState) : Prop := NetStep s c s' ∧ Frugal s c

/-! ## Accounting -/

/-- The heap's pages are free, in the driver's areas or in `owned`. -/
structure Accounted (owned pages : List ℕ) (s : NetState) : Prop where
  split : ∃ l, s.heap.Split l (s.driverPages ++ owned)
  pages : s.heap.pages = pages

variable {owned pages : List ℕ} {s s' : NetState}

/-- Only the pointers of `net_queues` and the heap matter. -/
lemma Accounted.of_eq (h : Accounted owned pages s) (hheap : s'.heap = s.heap)
    (hptr : ∀ q, (s'.queues q).ring = (s.queues q).ring ∧ (s'.queues q).buffers = (s.queues q).buffers) :
    Accounted owned pages s' := by
  have hpages : s'.driverPages = s.driverPages := by
    simp only [NetState.driverPages, VirtioNetQueue.pages, hptr]
  refine ⟨?_, ?_⟩
  · rw [hpages, hheap]
    exact h.split
  · rw [hheap]
    exact h.pages

/-- Writing inside the driver's own pages. -/
lemma Accounted.write (h : Accounted owned pages s) {m : Mem}
    (hm : ∀ x, m x ≠ s.heap.mem x → pageFloor x ∈ s.driverPages) :
    Accounted owned pages { s with heap := { s.heap with mem := m } } := by
  rcases h.split with ⟨l, hs⟩
  exact ⟨⟨l, hs.write fun x hx => List.mem_append_left _ (hm x hx)⟩, h.pages⟩

/-- A byte of the buffers of a queue. -/
lemma Accounted.page_of_buffer (h : Accounted owned pages s) {q : QueueIndex} {x : ℕ} (hb : (s.queues q).buffers ≠ 0)
    (hlo : (s.queues q).buffers ≤ x) (hhi : x < (s.queues q).buffers + descQueueSize * queueBufSize) :
    pageFloor x ∈ s.driverPages := by
  rcases h.split with ⟨l, hs⟩
  have hsub : blockPages (s.queues q).buffers 128 ⊆ s.driverPages := by
    intro p hp
    have harea : p ∈ (s.queues q).pages := by
      rw [VirtioNetQueue.pages, areaPages, if_neg hb]
      exact List.mem_append_left _ hp
    cases q with
    | rx => exact List.mem_append_right _ harea
    | tx => exact List.mem_append_left _ harea
  have hal := (hs.block_bounds (by decide) fun p hp => List.mem_append_left _ (hsub hp)).1
  refine hsub (pageFloor_mem_blockPages hal hlo ?_)
  simp only [descQueueSize_eq, queueBufSize_eq] at hhi
  omega

lemma Accounted.havoc (h : Accounted owned pages s) (henv : Havoc s s') : Accounted owned pages s' := by
  have hptr : ∀ q, (s'.queues q).ring = (s.queues q).ring ∧ (s'.queues q).buffers = (s.queues q).buffers := by
    intro q
    rcases henv.queue q with ⟨idx, ring, heq⟩
    rw [heq]
    exact ⟨rfl, rfl⟩
  cases henv with
  | used q idx ring => exact h.of_eq rfl hptr
  | fill hb hm =>
      refine h.write fun x hx => ?_
      by_contra hout
      refine hx (hm x fun hin => hout ?_)
      exact h.page_of_buffer hb hin.1 hin.2

/-- The pointers are not changed by an access. -/
lemma Op.exec_ptr (q q' : QueueIndex) (o : Op) (s : NetState) :
    ((o.exec q s).2.queues q').ring = (s.queues q').ring ∧ ((o.exec q s).2.queues q').buffers = (s.queues q').buffers := by
  by_cases hq : q' = q
  · subst hq
    cases o <;> simp [Op.exec]
  · cases o <;> simp [Op.exec, NetState.setVirtq, NetState.setQueue, Function.update_of_ne hq]

/-- The other queue is not touched. -/
lemma Op.exec_other {q q' : QueueIndex} (hq : q' ≠ q) (o : Op) (s : NetState) :
    (o.exec q s).2.queues q' = s.queues q' := by
  cases o <;> simp [Op.exec, NetState.setVirtq, NetState.setQueue, Function.update_of_ne hq]

/-- Memory is not written. -/
def NoStore (o : Op) : Prop := ∀ a v, o ≠ .setByte a v

lemma NoStore.heap {o : Op} (ho : NoStore o) (q : QueueIndex) (s : NetState) : (o.exec q s).2.heap = s.heap := by
  cases o with
  | setByte a v => exact absurd rfl (ho a v)
  | _ => rfl

lemma Accounted.op (h : Accounted owned pages s) {o : Op} (ho : NoStore o) (q : QueueIndex) :
    Accounted owned pages (o.exec q s).2 :=
  h.of_eq (ho.heap q s) fun q' => Op.exec_ptr q q' o s

/-- **The invariant between calls.**  The pages are accounted for, and a TX queue that has been set up
has its descriptors in order. -/
structure NetInv (owned pages : List ℕ) (s : NetState) : Prop extends Accounted owned pages s where
  tx : (s.queues .tx).size = 0 ∨
    (s.queues .tx).buffers ≠ 0 ∧ TxSafeAt (s.queues .tx).buffers txIdle ⟨s, none, none⟩

/-! ## One call -/

/-- What `tx` says does not depend on anything but the TX queue. -/
lemma NetInv.of_tx (h : NetInv owned pages s) (ha : Accounted owned pages s') (htx : s'.queues .tx = s.queues .tx) :
    NetInv owned pages s' := by
  refine ⟨ha, ?_⟩
  rcases h.tx with hz | ⟨hb, hat⟩
  · left
    rw [htx]
    exact hz
  · right
    rw [htx]
    refine ⟨hb, ?_, ?_, ?_, ?_, rfl⟩
    · rw [TxAny.queue, htx]
    · rw [TxAny.queue, htx]
      exact hat.size
    · rw [TxAny.queue, htx]
      exact hat.nextDesc
    · rw [TxAny.virtq, TxAny.queue, htx]
      exact hat.addr

lemma NetInv.havoc (h : NetInv owned pages s) (henv : Havoc s s') : NetInv owned pages s' := by
  refine ⟨h.toAccounted.havoc henv, ?_⟩
  rcases henv.queue .tx with ⟨idx, ring, heq⟩
  rcases h.tx with hz | ⟨hb, hat⟩
  · left
    rw [heq]
    exact hz
  · right
    have hat' := TxSafeAt.stable (s.queues .tx).buffers txIdle ⟨s, none, none⟩ ⟨s', none, none⟩ ⟨henv, rfl, rfl⟩ hat
    rw [heq]
    exact ⟨hb, hat'⟩

/-- A poll reads memory and does not write it. -/
lemma noStore_pollRx {length : ℕ} : Only NoStore (virtMmioNetPollRx length) ∧ Only NoStore (pollRxLoop length) := by
  have hno : ∀ {o : Op}, (∀ a v, o ≠ .setByte a v) → NoStore o := fun ho => ho
  have hputc : ∀ c, NoStore (.putc c) := fun c => hno (by simp)
  have hputs : ∀ str, Only NoStore (uartPuts str) := only_uartPuts hputc
  have hret : ∀ a : PollRx, Only NoStore (.ret a : Driver PollRx) := fun _ => trivial
  refine ⟨?_, ?_⟩
  · unfold virtMmioNetPollRx
    exact (hputs _).bind fun _ => hret _
  · simp only [pollRxLoop, lastUsedIdx, usedIdx, size, usedId, usedLen, descAddr, op_bind, ret_bind, pure_eq]
    refine ⟨hno (by simp), fun l => ⟨hno (by simp), fun u => ?_⟩⟩
    beta_reduce
    split_ifs
    swap
    · exact hret _
    refine (hputs _).bind fun _ => ⟨hno (by simp), fun v => ?_⟩
    refine (only_uartB2x hputc _).bind fun _ => (only_uartPutc hputc _).bind fun _ => ⟨hno (by simp), fun m => ?_⟩
    refine ⟨hno (by simp), fun n => ⟨hno (by simp), fun d => ⟨hno (by simp), fun len => ⟨hno (by simp), fun r => ?_⟩⟩⟩⟩
    beta_reduce
    by_cases hge : d ≥ r
    · rw [if_pos hge]
      exact (hputs _).bind fun _ => hret _
    · rw [if_neg hge]
      refine ⟨hno (by simp), fun a => (only_printFrame hputc fun i _ => hno (by simp)).bind fun _ => ?_⟩
      have hrecycle : Only NoStore (recycle d) := by
        simp only [recycle, availIdx, size, setAvailRing, setAvailIdx, lastUsedIdx, setLastUsedIdx, virtMmioNotify,
          op_bind, ret_bind]
        exact ⟨hno (by simp), fun _ => ⟨hno (by simp), fun _ => ⟨hno (by simp), fun _ => ⟨hno (by simp), fun _ =>
          ⟨hno (by simp), fun _ => ⟨hno (by simp), fun _ => ⟨hno (by simp), fun _ => ⟨hno (by simp), fun _ =>
            trivial⟩⟩⟩⟩⟩⟩⟩⟩
      exact hrecycle.bind fun _ => (hputs _).bind fun _ => (only_uartB2x hputc _).bind fun _ =>
        (only_uartPutc hputc _).bind fun _ => (hputs _).bind fun _ => hret _

/-- **A poll.** -/
lemma NetInv.pollRx {length : ℕ} {ls : List Turn} {p : Driver PollRx} {id : Option ℕ} (h : NetInv owned pages s)
    (hrun : Run (rxAny.Step RxAgain) (virtMmioNetPollRx length, ⟨s, none⟩) ls (p, ⟨s', id⟩)) :
    NetInv owned pages s' := by
  refine (hrun.invariant (P := fun c => Only NoStore c.1 ∧ NetInv owned pages c.2.net) ?_
    ⟨noStore_pollRx.1, h⟩).2
  rintro ⟨p, t⟩ turn ⟨p', t'⟩ hstep ⟨honly, ht⟩
  cases hstep with
  | op o k =>
      refine ⟨honly.2 _, ht.of_tx (ht.toAccounted.op honly.1 .rx) ?_⟩
      exact Op.exec_other (by simp) o t.net
  | call t hcall =>
      cases hcall with
      | again n => exact ⟨noStore_pollRx.2, ht⟩
  | env p henv => exact ⟨honly, ht.havoc henv.1⟩

/-- **A packet is sent** on a TX queue that has been set up. -/
lemma NetInv.send {data length : ℕ} {ls : List Turn} {c k : Option ℕ} (h : NetInv owned pages s)
    (hsize : (s.queues .tx).size = descQueueSize)
    (hrun : Run (txAny.Step fun _ _ => False) (virtMmioNetSend data length, ⟨s, none, none⟩) ls (.ret ⟨⟩, ⟨s', c, k⟩)) :
    NetInv owned pages s' := by
  rcases h.tx with hz | ⟨hb, hat⟩
  · rw [hsize] at hz
    exact absurd hz (by decide)
  let P (t : TxAny) : Prop := Accounted owned pages t.net ∧ t.queue.buffers = (s.queues .tx).buffers
  have hstable : txAny.Stable P := by
    rintro t t' ⟨henv, -⟩ ⟨hacc, hbuf⟩
    refine ⟨hacc.havoc henv, ?_⟩
    rcases henv.queue .tx with ⟨idx, ring, heq⟩
    rw [TxAny.queue, heq]
    exact hbuf
  have hstep : ∀ o t, txSafeOk o t → P t → P (txAny.exec o t).2 := by
    rintro o t ⟨-, hok⟩ ⟨hacc, hbuf⟩
    refine ⟨?_, ((Op.exec_ptr .tx .tx o t.net).2).trans hbuf⟩
    by_cases ho : NoStore o
    · exact hacc.op ho .tx
    · -- the one store of a send is into a buffer
      simp only [NoStore, not_forall, not_not] at ho
      rcases ho with ⟨a, v, rfl⟩
      obtain ⟨d, hd, -, hlo, hhi⟩ : ∃ d < descQueueSize, t.chosen = some d ∧
        (t.net.queues .tx).buffers + d * queueBufSize ≤ a ∧
          a < (t.net.queues .tx).buffers + d * queueBufSize + queueBufSize := hok
      simp only [descQueueSize_eq, queueBufSize_eq] at hd hlo hhi
      refine hacc.write fun x hx => ?_
      have hxa : x = a := by
        by_contra hne
        exact hx (write_of_ne _ v hne)
      subst hxa
      refine hacc.page_of_buffer (q := .tx) ?_ ?_ ?_
      · rw [show (t.net.queues .tx).buffers = _ from hbuf]
        exact hb
      · omega
      · simp only [descQueueSize_eq, queueBufSize_eq]
        omega
  have hwp : wp txAny txSafeOk (fun _ t => TxSafeAt (s.queues .tx).buffers txIdle t ∧ P t)
      (virtMmioNetSend data length) ⟨s, none, none⟩ :=
    wp_and hstable hstep (txSafeWp_virtMmioNetSend data length hat) ⟨h.toAccounted, rfl⟩
  have hend := Run.wp (fun _ _ _ hr => absurd hr id) hrun hwp
  rcases hend with ⟨hat', hacc, hbuf⟩
  refine ⟨hacc, .inr ?_⟩
  have heq : (s'.queues .tx).buffers = (s.queues .tx).buffers := hbuf
  rw [heq]
  exact ⟨hb, hat'.buffers, hat'.size, hat'.nextDesc, hat'.addr, rfl⟩

/-- **A packet that is too long** is refused, whatever the queue is like. -/
lemma NetInv.sendLong {data length : ℕ} {ls : List Turn} {p : Driver PUnit} {c k : Option ℕ}
    (h : NetInv owned pages s) (hlong : length > queueBufSize)
    (hrun : Run (txAny.Step fun _ _ => False) (virtMmioNetSend data length, ⟨s, none, none⟩) ls (p, ⟨s', c, k⟩)) :
    NetInv owned pages s' := by
  let Prints (o : Op) : Prop := ∃ ch, o = .putc ch
  have hputc : ∀ ch, Prints (.putc ch) := fun ch => ⟨ch, rfl⟩
  have honly : Only Prints (virtMmioNetSend data length) := by
    rw [virtMmioNetSend, if_pos hlong]
    exact (only_uartPuts hputc _).bind fun _ => only_uartPuts hputc _
  refine (hrun.invariant (P := fun c => Only Prints c.1 ∧ NetInv owned pages c.2.net) ?_ ⟨honly, h⟩).2
  rintro ⟨p, t⟩ turn ⟨p', t'⟩ hstep ⟨honly, ht⟩
  cases hstep with
  | op o k =>
      obtain ⟨ch, rfl⟩ := honly.1
      exact ⟨honly.2 _, ht.of_tx (ht.toAccounted.of_eq rfl fun _ => ⟨rfl, rfl⟩) rfl⟩
  | call t hcall => exact absurd hcall id
  | env p henv => exact ⟨honly, ht.havoc henv.1⟩

/-! ## Initialisation -/

/-- The driver before its first initialisation, or after one that got nothing at all. -/
lemma driverPages_null (hnull : ∀ q, (s.queues q).ring = 0 ∧ (s.queues q).buffers = 0) : s.driverPages = [] := by
  simp [NetState.driverPages, VirtioNetQueue.pages, areaPages, hnull]

/-- An iteration of `virt_mmio_net_virtq_init` that gets its memory. -/
lemma Accounted.setup {h' : Heap} {q : QueueIndex} {ring buffers : ℕ} {l : List ℕ} (hring : ring ≠ 0) (hbuf : buffers ≠ 0)
    (hs : h'.Split l (areaPages buffers 128 ++ (areaPages ring 2 ++ owned))) :
    (setupQueue (attachQueue s q h' ring buffers) q).heap.Split l
      (areaPages buffers 128 ++ (areaPages ring 2 ++ owned)) := by
  rw [areaPages, areaPages, if_neg hring, if_neg hbuf] at hs ⊢
  refine setupQueue_split hs ?_ ?_
  · exact (hs.block_bounds (n := 2) (by decide) fun p hp => by simp [hp]).1
  · exact (hs.block_bounds (n := 128) (by decide) fun p hp => by simp [hp]).1

/-- A failing initialisation leaves `net_queues` pointing to what it got. -/
lemma virtMmioNetVirtqInit_failed {limit : ℕ} {l : List ℕ} (hs : s.heap.Split l owned)
    (hnull : ∀ q, (s.queues q).ring = 0 ∧ (s.queues q).buffers = 0)
    (h : virtMmioNetVirtqInit limit s = some (s', false)) :
    Accounted owned s.heap.pages s' ∧ (s'.queues .tx).size = (s.queues .tx).size := by
  simp only [virtMmioNetVirtqInit, Option.bind_eq_bind, Option.bind_eq_some_iff, Prod.exists] at h
  rcases h with ⟨s₁, ok₁, hrx, h⟩
  have hs₀ : (s.puts "Initializing Virtio Network Device Queue...\n").heap.Split l owned := hs
  rcases initQueue_inv hs₀ hrx with ⟨h₁, r₁, b₁, l₁, hs₁, hpages₁, heq₁⟩
  cases ok₁ with
  | false =>
      obtain ⟨-, rfl⟩ := heq₁
      simp only [Bool.false_eq_true, if_false, Option.some.injEq, Prod.mk.injEq, and_true] at h
      subst h
      refine ⟨⟨⟨l₁, ?_⟩, hpages₁⟩, ?_⟩
      · have hpages : NetState.driverPages ((attachQueue (s.puts "Initializing Virtio Network Device Queue...\n") .rx
            h₁ r₁ b₁).puts "Failed to allocate Virtio queue memory.\n") = areaPages b₁ 128 ++ areaPages r₁ 2 := by
          simp [NetState.driverPages, VirtioNetQueue.pages, attachQueue, NetState.setQueue, NetState.puts, hnull,
            areaPages]
        rw [hpages, List.append_assoc]
        exact hs₁
      · simp [attachQueue, NetState.setQueue, NetState.puts]
  | true =>
      obtain ⟨hr₁, hb₁, hset⟩ := heq₁
      simp only [if_true, Option.bind_eq_some_iff, Prod.exists] at h
      rcases h with ⟨s₂, ok₂, htx, h⟩
      cases ok₂ with
      | true => simp at h
      | false =>
          simp only [Bool.false_eq_true, if_false, Option.some.injEq, Prod.mk.injEq, and_true] at h
          subst h
          have hs₁' : s₁.heap.Split l₁ (areaPages b₁ 128 ++ (areaPages r₁ 2 ++ owned)) := by
            rw [hset]
            exact Accounted.setup hr₁ hb₁ hs₁
          rcases initQueue_inv hs₁' htx with ⟨h₂, r₂, b₂, l₂, hs₂, hpages₂, -, rfl⟩
          have hrx₁ : (s₁.queues .rx).ring = r₁ ∧ (s₁.queues .rx).buffers = b₁ := by
            rw [hset]
            simp [setupQueue, attachQueue]
          have htx₁ : s₁.queues .tx = s.queues .tx := by
            rw [hset]
            simp [setupQueue, attachQueue, NetState.setQueue, NetState.puts]
          refine ⟨⟨⟨l₂, ?_⟩, ?_⟩, ?_⟩
          · have hpages : NetState.driverPages ((attachQueue s₁ .tx h₂ r₂ b₂).puts "Failed to allocate Virtio queue memory.\n")
                = areaPages b₂ 128 ++ (areaPages r₂ 2 ++ (areaPages b₁ 128 ++ areaPages r₁ 2)) := by
              simp [NetState.driverPages, VirtioNetQueue.pages, attachQueue, NetState.setQueue, NetState.puts, hrx₁]
            rw [hpages]
            simp only [List.append_assoc]
            exact hs₂
          · refine hpages₂.trans ?_
            rw [hset]
            exact hpages₁
          · simp [attachQueue, NetState.setQueue, NetState.puts, htx₁]

/-- A successful one does, too. -/
lemma Initialised.accounted {r₁ b₁ r₂ b₂ : ℕ} (hi : Initialised s s' owned r₁ b₁ r₂ b₂) :
    Accounted owned s.heap.pages s' := by
  rcases hi.split with ⟨l, hs⟩
  rcases hi.notNull with ⟨hr₁, hb₁, hr₂, hb₂⟩
  refine ⟨⟨l, ?_⟩, hi.pages⟩
  rw [NetState.driverPages, VirtioNetQueue.pages, VirtioNetQueue.pages, hi.rx.ring, hi.rx.buffers, hi.tx.ring,
    hi.tx.buffers, areaPages, areaPages, areaPages, areaPages, if_neg hr₁, if_neg hb₁, if_neg hr₂, if_neg hb₂]
  simpa only [List.append_assoc] using hs

/-- **Initialisation** of queues that point nowhere. -/
lemma NetInv.init {limit : ℕ} {ok : Bool} (h : NetInv owned pages s)
    (hnull : ∀ q, (s.queues q).ring = 0 ∧ (s.queues q).buffers = 0)
    (hinit : virtMmioNetVirtqInit limit s = some (s', ok)) : NetInv owned pages s' := by
  rcases h.split with ⟨l, hs⟩
  rw [driverPages_null hnull, List.nil_append] at hs
  cases ok with
  | true =>
      rcases virtMmioNetVirtqInit_inv hs hinit with ⟨r₁, b₁, r₂, b₂, hi⟩
      refine ⟨h.pages ▸ hi.accounted, .inr ⟨?_, hi.txIdle⟩⟩
      rw [hi.tx.buffers]
      exact hi.notNull.2.2.2
  | false =>
      rcases virtMmioNetVirtqInit_failed hs hnull hinit with ⟨hacc, hsize⟩
      refine ⟨h.pages ▸ hacc, .inl ?_⟩
      rcases h.tx with hz | ⟨hb, -⟩
      · rw [hsize]
        exact hz
      · exact absurd (hnull .tx).2 hb

/-! ## Runs -/

/-- **A frugal call** keeps the account. -/
lemma FrugalStep.inv {c : NetCall} (hstep : FrugalStep s c s') (h : NetInv owned pages s) : NetInv owned pages s' := by
  rcases hstep with ⟨hstep, hfrugal⟩
  cases hstep with
  | init hinit => exact h.init hfrugal hinit
  | send hrun =>
      rcases hfrugal with hsize | hlong
      · exact h.send hsize hrun
      · exact h.sendLong hlong hrun
  | @txFailed limit _ data length h' halloc =>
      rcases h.split with ⟨l, hs⟩
      rcases hs.alloc_returns ⟨limit, halloc⟩ with ⟨-, rfl⟩ | ⟨hne, -⟩
      · exact h.of_tx (h.toAccounted.of_eq rfl fun _ => ⟨rfl, rfl⟩) rfl
      · exact absurd rfl hne
  | @tx limit _ _ data length packet h' ls c k halloc hp hrun =>
      rcases hfrugal with ⟨h'', hfail⟩
      exact absurd (Prod.mk.inj (MemAllocReturns.unique ⟨limit, halloc⟩ hfail)).2 hp
  | pollRx hrun => exact h.pollRx hrun
  | device henv => exact h.havoc henv

/-- The free list is unique. -/
lemma Heap.Split.mem_freePages {h : Heap} {l : List ℕ} (hs : h.Split l owned) {p : ℕ} : p ∈ h.freePages ↔ p ∈ l := by
  refine ⟨?_, fun hp => ⟨l, hs.free, hp⟩⟩
  rintro ⟨l', hl', hp⟩
  rwa [hs.free.chain.unique hl'.chain]

lemma NetInv.noLeak {s₀ : NetState} {l₀ : List ℕ} (hs₀ : s₀.heap.Split l₀ owned) (h : NetInv owned s₀.heap.pages s) :
    NoLeak s₀ s := by
  rcases h.split with ⟨l, hs⟩
  have hnd := hs.nodup
  have hnd₀ := hs₀.nodup
  have hperm : (l ++ (s.driverPages ++ owned)).Perm (l₀ ++ owned) := by
    have hp := hs.perm
    rw [h.pages] at hp
    exact hp.trans hs₀.perm.symm
  ext p
  simp only [Set.mem_sdiff, hs₀.mem_freePages, hs.mem_freePages, Set.mem_ofPred_eq]
  have hmem := hperm.mem_iff (a := p)
  simp only [List.mem_append] at hmem
  constructor
  · rintro ⟨hp₀, hp⟩
    have hown : p ∉ owned := fun hown => (List.nodup_append.mp hnd₀).2.2 p hp₀ p hown rfl
    tauto
  · intro hp
    have hl : p ∉ l := hs.notMem_free (List.mem_append_left _ hp)
    have hown : p ∉ owned := fun hown =>
      (List.nodup_append.mp (List.nodup_append.mp hnd).2.1).2.2 p hp p hown rfl
    tauto

/-- **No page is lost to a frugal driver.**  From boot on, on every heap in order and whatever the device
does: in every run of calls in which initialisation overwrites no pointer, `virt_mmio_net_tx` gets no
memory and packets that fit a buffer are sent on a TX queue that has been set up, the pages the driver
has taken are, after each call, the pages of the areas `net_queues` points to. -/
theorem no_leak (h : Heap) (l owned : List ℕ) (s : NetState) (calls : List NetCall) (hs : h.Split l owned)
    (hrun : Run FrugalStep (NetState.boot h) calls s) : NoLeak (NetState.boot h) s := by
  have hs₀ : (NetState.boot h).heap.Split l owned := hs
  have hnull : (NetState.boot h).driverPages = [] := driverPages_null fun _ => ⟨rfl, rfl⟩
  have hstart : NetInv owned (NetState.boot h).heap.pages (NetState.boot h) := by
    refine ⟨⟨⟨l, ?_⟩, rfl⟩, .inl rfl⟩
    rw [hnull]
    exact hs₀
  exact (hrun.invariant (P := NetInv owned (NetState.boot h).heap.pages) (fun _ _ _ hstep ht => hstep.inv ht)
    hstart).noLeak hs₀

/-- The first initialisation. -/
theorem no_leak_boot : ∃ s, Run FrugalStep (NetState.boot (queueLayout.boot (fun _ => 0) true)) [.init] s ∧
    NoLeak (NetState.boot (queueLayout.boot (fun _ => 0) true)) s := by
  rcases queueLayout_init with ⟨limit, s, hinit⟩
  have hstep : FrugalStep (NetState.boot (queueLayout.boot (fun _ => 0) true)) .init s :=
    ⟨.init hinit, fun _ => ⟨rfl, rfl⟩⟩
  have hrun : Run FrugalStep (NetState.boot (queueLayout.boot (fun _ => 0) true)) [.init] s := .cons hstep (.nil _)
  exact ⟨s, hrun, no_leak _ _ _ s [.init] (queueLayout.boot_split (fun _ => 0) true) hrun⟩

/-- **Pages stranded by a second initialisation.**  Both calls return `0`, and the ring of the first RX
queue is neither free nor pointed to. -/
theorem reinit_leaks : ∃ s, Run NetStep (NetState.boot (doubleLayout.boot (fun _ => 0) true)) [.init, .init] s ∧
    ¬ NoLeak (NetState.boot (doubleLayout.boot (fun _ => 0) true)) s := by
  rcases doubleLayout_init with ⟨limit₁, s₁, a, owned, hinit₁, hblock⟩
  rcases virtMmioNetVirtqInit_succeeds hblock with ⟨limit₂, s₂, -, hinit₂, -⟩
  have hs₀ : (NetState.boot (doubleLayout.boot (fun _ => 0) true)).heap.Split _ _ :=
    doubleLayout.boot_split (fun _ => 0) true
  rcases virtMmioNetVirtqInit_inv hs₀ hinit₁ with ⟨r₁, b₁, r₂, b₂, hi₁⟩
  rcases hi₁.split with ⟨l₁, hs₁⟩
  rcases virtMmioNetVirtqInit_inv hs₁ hinit₂ with ⟨r₁', b₁', r₂', b₂', hi₂⟩
  rcases hi₂.accounted.split with ⟨l₂, hs₂⟩
  refine ⟨s₂, .cons (.init hinit₁) (.cons (.init hinit₂) (.nil _)), fun hleak => ?_⟩
  have hring : r₁ ∈ blockPages b₂ 128 ++ (blockPages r₂ 2 ++ (blockPages b₁ 128 ++ (blockPages r₁ 2 ++ []))) := by
    simp [blockPages]
  have hfree₀ : r₁ ∈ (NetState.boot (doubleLayout.boot (fun _ => 0) true)).heap.freePages := by
    have hpage := hs₁.perm.mem_iff.mp (List.mem_append_right l₁ hring)
    rw [hi₁.pages, ← hs₀.perm.mem_iff, List.append_nil] at hpage
    exact hs₀.mem_freePages.mpr hpage
  have hfree₂ : r₁ ∉ s₂.heap.freePages := by
    rw [hs₂.mem_freePages]
    exact hs₂.notMem_free (List.mem_append_right _ hring)
  -- the second call's areas are apart from those of the first
  have hlost : r₁ ∉ s₂.driverPages := fun hmem =>
    (List.nodup_append.mp (List.nodup_append.mp hs₂.nodup).2.1).2.2 r₁ hmem r₁ hring rfl
  have htaken : r₁ ∈ {p | p ∈ s₂.driverPages} := hleak ▸ ⟨hfree₀, hfree₂⟩
  exact hlost htaken

end NetStack
