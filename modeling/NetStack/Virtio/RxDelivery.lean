import NetStack.Virtio.Rx
import NetStack.Virtio.Stale

/-!
# The RX queue delivers

What becomes of a packet that a conforming device has put into a buffer.  `RxWire` adds to the driver and the device the
bytes of each packet at the moment it was published, and what the driver prints while it has a descriptor in its hands.

`rx_delivery` says that the calls of `virt_mmio_net_poll_rx` report the packets one by one: the `n`-th call reports the
`n`-th packet, with the text of the bytes as they were published, and a packet that has not been reported yet lies in
its buffer unchanged.  The loads of a report are spread over the whole of it, and the device goes on all the while; that
this makes no difference is `wp_alone`.
-/

namespace NetStack

open ByteMem Concurrent Transition Ring

/-! ## The text of a packet -/

/-- What is printed of a packet, from its first byte, that of the `virtio_net_hdr`, on. -/
def packetText (p : List UInt8) : List Char := frameText (fun x => p.getD x 0) sizeofVirtioNetHdr

section

variable {m m' : Mem} {a a' n off : ℕ}

/-- Headers are where the bytes are. -/
lemma u16At_move (h : ∀ i < n, m' (a' + i) = m (a + i)) (hoff : off + 2 ≤ n) : u16At m' (a' + off) = u16At m (a + off) := by
  rw [u16At, u16At, h off (by omega), Nat.add_assoc, Nat.add_assoc, h (off + 1) (by omega)]

lemma u32At_move (h : ∀ i < n, m' (a' + i) = m (a + i)) (hoff : off + 4 ≤ n) : u32At m' (a' + off) = u32At m (a + off) := by
  rw [u32At, u32At, u16At_move h (by omega), Nat.add_assoc, Nat.add_assoc, u16At_move h (by omega)]

lemma macText_move (h : ∀ i < n, m' (a' + i) = m (a + i)) (hoff : off + 6 ≤ n) :
    macText m' (a' + off) = macText m (a + off) := by
  unfold macText
  refine List.flatMap_congr fun i hi => ?_
  have hi' := List.mem_range.mp hi
  rw [Nat.add_assoc, Nat.add_assoc, h (off + i) (by omega)]

lemma arpText_move (h : ∀ i < 42, m' (a' + i) = m (a + i)) : arpText m' (a' + 14) = arpText m (a + 14) := by
  have hoper : arpOper m' (a' + 14) = arpOper m (a + 14) := by
    rw [arpOper, arpOper, Nat.add_assoc, Nat.add_assoc, u16At_move h (by omega)]
  have hspa : u32At m' (a' + 14 + 14) = u32At m (a + 14 + 14) := by
    rw [Nat.add_assoc, Nat.add_assoc, u32At_move h (by omega)]
  have htpa : u32At m' (a' + 14 + 24) = u32At m (a + 14 + 24) := by
    rw [Nat.add_assoc, Nat.add_assoc, u32At_move h (by omega)]
  unfold arpText
  rw [hoper, hspa, htpa]

lemma ipv4Text_move (h : ∀ i < 42, m' (a' + i) = m (a + i)) : ipv4Text m' (a' + 14) = ipv4Text m (a + 14) := by
  have hsrc : u32At m' (a' + 14 + 12) = u32At m (a + 14 + 12) := by
    rw [Nat.add_assoc, Nat.add_assoc, u32At_move h (by omega)]
  have hdst : u32At m' (a' + 14 + 16) = u32At m (a + 14 + 16) := by
    rw [Nat.add_assoc, Nat.add_assoc, u32At_move h (by omega)]
  have hproto : m' (a' + 14 + 9) = m (a + 14 + 9) := by
    rw [Nat.add_assoc, Nat.add_assoc]
    exact h _ (by omega)
  unfold ipv4Text
  rw [hsrc, hdst, hproto]

/-- **The text of a frame** does not depend on where the frame is. -/
lemma frameText_move (h : ∀ i < 42, m' (a' + i) = m (a + i)) : frameText m' a' = frameText m a := by
  have htype : ethType m' a' = ethType m a := by
    rw [ethType, ethType, u16At_move h (by omega)]
  have hdst : macText m' a' = macText m a := by
    rw [← Nat.add_zero a', ← Nat.add_zero a, macText_move h (by omega)]
  unfold frameText ethText
  rw [htype, macText_move h (by omega), hdst, show sizeofEthHdr = 14 from rfl, ipv4Text_move h, arpText_move h]

lemma packetText_bytesAt (m : Mem) (a : ℕ) : packetText (bytesAt m a queueBufSize) = frameText m (a + sizeofVirtioNetHdr) := by
  refine frameText_move fun i hi => ?_
  have hlt : sizeofVirtioNetHdr + i < queueBufSize := by
    rw [sizeofVirtioNetHdr, queueBufSize_eq]
    omega
  rw [bytesAt, List.getD_eq_getElem?_getD, List.getElem?_map, List.getElem?_range hlt, Nat.add_assoc]
  rfl

/-- What has been printed stays printed. -/
lemma out_run {α : Type} (q : QueueIndex) (p : Driver α) (s : NetState) : s.out <+: (p.run (Op.exec q) s).2.out := by
  refine run_keeps (P := fun t : NetState => s.out <+: t.out) (fun o t ht => ht.trans ?_) p List.prefix_rfl
  cases o with
  | putc c => exact List.prefix_append ..
  | _ => exact List.prefix_rfl

end

/-! ## The system -/

/-- The driver and the device; the number of calls; the packets published so far, as they were; what has been printed
of each that the driver is through with; and what it has printed of the one in its hands. -/
structure RxWire where
  sys : RxSys
  calls : ℕ
  published : List (List UInt8)
  reported : List (List Char)
  current : List Char

namespace RxWire

/-- The packet in descriptor `d`, as it is now. -/
def packet (s : RxWire) (d : ℕ) : List UInt8 := bytesAt s.sys.net.heap.mem (s.sys.virtq.desc d).addr queueBufSize

/-- The packet in the driver's hands. -/
def taken (s : RxWire) : List (List UInt8) := s.sys.cur.toList.map s.packet

/-- The packets that have not been recycled. -/
def waiting (s : RxWire) : List (List UInt8) :=
  s.taken ++ (completed s.sys.virtq s.sys.nextRead).map fun u => s.packet u.id

/-- A report is what is printed while a descriptor is being processed. -/
def record (s : RxWire) : Op → RxWire
  | .putc c => if s.sys.cur.isSome then { s with current := s.current ++ [c] } else s
  | .setAvailIdx _ => { s with reported := s.reported ++ [s.current], current := [] }
  | _ => s

def exec (o : Op) (s : RxWire) : o.Resp × RxWire :=
  let r := rx.exec o s.sys
  (r.1, { s.record o with sys := r.2 })

/-- The device after an access to the rings; what it publishes is looked at. -/
def observe (s : RxWire) (v : Virtq) (dev : Device) : RxWire :=
  { s with
    sys := { s.sys with net := s.sys.net.setVirtq .rx v, dev := dev }
    published := s.published ++ (dev.made.drop s.sys.dev.made.length).map fun u => s.packet u.id }

end RxWire

inductive RxWireDevice : RxWire → RxWire → Prop
  | ring {s : RxWire} {v : Virtq} {dev : Device} (h : DeviceStep (s.sys.virtq, s.sys.dev) (v, dev)) :
      RxWireDevice s (s.observe v dev)
  | fill {s : RxWire} {i : ℕ} {m : Mem} (hi : i ∈ s.sys.dev.held)
      (hm : ∀ x, ¬ s.sys.virtq.InBuffer i x → m x = s.sys.net.heap.mem x) :
      RxWireDevice s { s with sys := { s.sys with net := { s.sys.net with heap := { s.sys.net.heap with mem := m } } } }

def rxWire : Interference Op Op.Resp RxWire := ⟨RxWire.exec, RxWireDevice⟩

/-- A call, or another round of the loop of one. -/
inductive RxWireCall : PollRx → RxWire → Driver PollRx → RxWire → Prop
  | call {s : RxWire} (length : ℕ) : RxWireCall .returned s (virtMmioNetPollRx length) { s with calls := s.calls + 1 }
  | again {s : RxWire} (length : ℕ) : RxWireCall (.again length) s (pollRxLoop length) s

inductive RxWireStart : RxWire → Prop
  | mk {s : RxSys} (h : RxStart s) : RxWireStart ⟨s, 0, [], [], []⟩

/-! ## The invariant -/

/-- **The channel.**  The packets not reported yet are still what they were. -/
structure Reports (s : RxWire) : Prop where
  waiting : s.waiting = s.published.drop s.reported.length
  reported : s.reported = (s.published.take s.reported.length).map packetText

section

variable {s s' : RxWire} {φ : RxPhase} {d : ℕ}

lemma rxPacket_congr (hdesc : s'.sys.virtq.desc d = s.sys.virtq.desc d)
    (hmem : ∀ x, s.sys.virtq.InBuffer d x → s'.sys.net.heap.mem x = s.sys.net.heap.mem x) : s'.packet d = s.packet d := by
  rw [RxWire.packet, RxWire.packet, hdesc]
  exact bytesAt_congr fun i hi => hmem _ ⟨Nat.le_add_right .., Nat.add_lt_add_left hi _⟩

/-- Waiting packets are in descriptors that the device does not hold. -/
lemma RxAt.waiting_notMem (h : RxAt φ s.sys) {i : ℕ} (hi : i ∈ s.sys.dev.held)
    (hd : d ∈ s.sys.cur.toList ++ (completed s.sys.virtq s.sys.nextRead).map (·.id)) : d ≠ i := by
  rintro rfl
  have hnd : s.sys.places.Nodup := h.sound.1.nodup_iff.mpr List.nodup_range
  rw [RxSys.places, List.append_assoc, List.append_assoc, ← List.append_assoc _ s.sys.dev.held] at hnd
  exact (List.nodup_append.mp hnd).2.2 d (List.mem_append_right _ hi) d (by simpa [or_comm] using hd) rfl

/-- **The device** publishes packets and leaves those that are waiting as they are. -/
lemma Reports.device (h : Reports s) (hat : RxAt φ s.sys) (henv : RxWireDevice s s') :
    Reports s' ∧ s'.taken = s.taken := by
  cases henv with
  | @ring v dev hstep =>
      have hvirtq : (s.observe v dev).sys.virtq = v := by simp [RxWire.observe, RxSys.virtq, RxSys.queue]
      have hpacket : ∀ d, (s.observe v dev).packet d = s.packet d := fun d =>
        rxPacket_congr (by rw [hvirtq, hstep.avail.2.2]) fun _ _ => rfl
      have htaken : (s.observe v dev).taken = s.taken := List.map_congr_left fun d _ => hpacket d
      -- what the device has made is what the driver has looked at and what is in the ring
      have hmade := hat.shared.made_eq
      have hmade' := (hstep.shared hat.shared).made_eq
      have hext : s.sys.dev.made <+: dev.made := by
        cases hstep with
        | publish => exact List.prefix_append ..
        | _ => exact List.prefix_rfl
      obtain ⟨new, hnew⟩ := hext
      have hdrop : dev.made.drop s.sys.dev.made.length = new := by rw [← hnew, List.drop_left]
      have hcomp : completed v s.sys.nextRead = completed s.sys.virtq s.sys.nextRead ++ new := by
        rw [← hnew, hmade, List.append_assoc] at hmade'
        exact (List.append_cancel_left hmade').symm
      have hpub : (s.observe v dev).published = s.published ++ new.map fun u => s.packet u.id := by
        rw [RxWire.observe, hdrop]
      have hle : s.reported.length ≤ s.published.length := by
        have hlen := congrArg List.length h.reported
        rw [List.length_map, List.length_take] at hlen
        omega
      refine ⟨⟨?_, ?_⟩, htaken⟩
      · rw [RxWire.waiting, htaken, hvirtq]
        show s.taken ++ (completed v s.sys.nextRead).map _ = (s.observe v dev).published.drop s.reported.length
        rw [hcomp, hpub, List.drop_append_of_le_length hle, ← h.waiting, RxWire.waiting, List.map_append, List.append_assoc]
        refine congrArg _ (congrArg₂ _ ?_ ?_) <;> exact List.map_congr_left fun u _ => hpacket u.id
      · rw [hpub]
        show s.reported = ((s.published ++ _).take s.reported.length).map packetText
        rw [List.take_append_of_le_length hle]
        exact h.reported
  | @fill i m hi hm =>
      have hkeep : ∀ d ∈ s.sys.cur.toList ++ (completed s.sys.virtq s.sys.nextRead).map (·.id),
          bytesAt m (s.sys.virtq.desc d).addr queueBufSize = s.packet d := by
        intro d hd
        refine bytesAt_congr fun j hj => hm _ fun hin => ?_
        have hdi := hat.waiting_notMem hi hd
        have hd' : d < descQueueSize := by
          refine List.mem_range.mp (hat.sound.1.subset ?_)
          rw [RxSys.places]
          simp only [List.mem_append] at hd ⊢
          tauto
        have hi' : i < descQueueSize := by
          refine List.mem_range.mp (hat.sound.1.subset ?_)
          rw [RxSys.places]
          simp only [List.mem_append]
          tauto
        exact hdi (hat.laid.inBuffer_unique hd' hi' ⟨Nat.le_add_right .., Nat.add_lt_add_left hj _⟩ hin)
      have htaken : s.sys.cur.toList.map (fun d => bytesAt m (s.sys.virtq.desc d).addr queueBufSize) = s.taken :=
        List.map_congr_left fun d hd => hkeep d (List.mem_append_left _ hd)
      refine ⟨⟨?_, h.reported⟩, htaken⟩
      refine Eq.trans ?_ h.waiting
      refine congrArg₂ _ htaken (List.map_congr_left fun u hu => ?_)
      exact hkeep _ (List.mem_append_right _ (List.mem_map_of_mem hu))

end

/-! ## Phases -/

/-- What the device cannot change. -/
structure RxWireView where
  calls : ℕ
  reported : List (List Char)
  taken : List (List UInt8)
  current : List Char

def RxWire.view (s : RxWire) : RxWireView := ⟨s.calls, s.reported, s.taken, s.current⟩

/-- Every call has reported a packet, but for the last one, and what that has printed is of the packet it has taken. -/
structure RxWireView.Orderly (v : RxWireView) : Prop where
  current : v.current <+: v.taken.flatMap packetText
  le : v.reported.length ≤ v.calls
  calls : v.calls ≤ v.reported.length + 1

/-- **The invariant at a phase.** -/
structure RxWireAt (φ : RxPhase) (v : RxWireView) (s : RxWire) : Prop where
  sys : RxAt φ s.sys
  reports : Reports s
  orderly : v.Orderly
  view : s.view = v

variable {φ ψ : RxPhase} {v : RxWireView} {s s' : RxWire} {k : RxView → Prop} {d : ℕ}

lemma RxWireDevice.sys (h : RxWireDevice s s') : RxDevice s.sys s'.sys := by
  cases h with
  | ring h => exact .ring h
  | fill hi hm => exact .fill hi hm

lemma RxWireAt.stable (φ : RxPhase) (v : RxWireView) : rxWire.Stable (RxWireAt φ v) := by
  intro s s' henv h
  obtain ⟨hreports, htaken⟩ := h.reports.device h.sys henv
  refine ⟨RxAt.stable φ _ _ (RxWireDevice.sys henv) h.sys, hreports, h.orderly, ?_⟩
  rw [← h.view, RxWire.view, htaken]
  cases henv <;> rfl

lemma RxWireAt.mono {k' : RxView → Prop} (h : RxWireAt φ v s) (hk : φ.known s.sys.view → k' s.sys.view) :
    RxWireAt { φ with known := k' } v s := ⟨h.sys.mono hk, h.reports, h.orderly, h.view⟩

/-- What holds at every access. -/
def rxWireOk (_ : Op) (s : RxWire) : Prop := Reports s ∧ s.view.Orderly

lemma RxWireAt.ok (h : RxWireAt φ v s) (o : Op) : rxWireOk o s := by
  refine ⟨h.reports, ?_⟩
  rw [h.view]
  exact h.orderly

/-- Between the rounds of a call its packet has not come yet; when it returns, it has reported one. -/
def rxWireDone : PollRx → RxWire → Prop
  | .returned, s => ∃ r : List (List Char), RxWireAt (.idle fullRing) ⟨r.length, r, [], []⟩ s
  | .again _, s => ∃ r : List (List Char), RxWireAt (.idle fullRing) ⟨r.length + 1, r, [], []⟩ s

lemma rxWireDone_stable (a : PollRx) : rxWire.Stable (rxWireDone a) := by
  intro s s' henv h
  cases a with
  | returned =>
      obtain ⟨r, hat⟩ := h
      exact ⟨r, RxWireAt.stable _ _ _ _ henv hat⟩
  | again n =>
      obtain ⟨r, hat⟩ := h
      exact ⟨r, RxWireAt.stable _ _ _ _ henv hat⟩

abbrev RxWireWp (p : Driver PollRx) (s : RxWire) : Prop := wp rxWire rxWireOk rxWireDone p s

/-! ## The driver's accesses -/

/-- What does not concern the packets. -/
lemma RxWireAt.congr (h : RxWireAt φ v s) (hat : RxAt ψ s'.sys) (hpublished : s'.published = s.published)
    (hwaiting : s'.waiting = s.waiting) (hview : s'.view = s.view) : RxWireAt ψ v s' := by
  have hreported : s'.reported = s.reported := congrArg RxWireView.reported hview
  refine ⟨hat, ⟨?_, ?_⟩, h.orderly, hview.trans h.view⟩
  · rw [hwaiting, hpublished, hreported]
    exact h.reports.waiting
  · rw [hpublished, hreported]
    exact h.reports.reported

/-- Where the packets are is not touched. -/
lemma waiting_congr (hcur : s'.sys.cur = s.sys.cur) (hread : s'.sys.nextRead = s.sys.nextRead)
    (hdesc : s'.sys.virtq.desc = s.sys.virtq.desc) (hidx : s'.sys.virtq.usedIdx = s.sys.virtq.usedIdx)
    (hring : s'.sys.virtq.usedRing = s.sys.virtq.usedRing) (hmem : s'.sys.net.heap.mem = s.sys.net.heap.mem) :
    s'.taken = s.taken ∧ s'.waiting = s.waiting := by
  have hpacket : s'.packet = s.packet := by
    funext d
    rw [RxWire.packet, RxWire.packet, hdesc, hmem]
  have htaken : s'.taken = s.taken := by rw [RxWire.taken, RxWire.taken, hcur, hpacket]
  refine ⟨htaken, ?_⟩
  rw [RxWire.waiting, RxWire.waiting, htaken, hpacket, completed, completed, hread, hidx, hring]

/-- The accesses that neither take a packet up nor hand it back, and print nothing. -/
def RxPlain : Op → Prop
  | .size | .lastUsedIdx | .availIdx | .usedIdx | .usedLen _ | .descAddr _ => True
  | .setAvailRing _ _ | .setLastUsedIdx _ | .notify _ => True
  | _ => False

lemma RxWireAt.exec {o : Op} (ho : RxPlain o) (h : RxWireAt φ v s) (hat : RxAt ψ (rx.exec o s.sys).2) :
    RxWireAt ψ v (rxWire.exec o s).2 := by
  have hsame : (rxWire.exec o s).2.taken = s.taken ∧ (rxWire.exec o s).2.waiting = s.waiting := by
    cases o with
    | setAvailRing i d =>
        refine waiting_congr rfl rfl ?_ ?_ ?_ rfl <;>
          simp [rxWire, RxWire.exec, rx, RxSys.exec, RxSys.record, Op.exec, RxSys.virtq, RxSys.queue]
    | setLastUsedIdx l =>
        refine waiting_congr rfl rfl ?_ ?_ ?_ rfl <;>
          simp [rxWire, RxWire.exec, rx, RxSys.exec, RxSys.record, Op.exec, RxSys.virtq, RxSys.queue, NetState.setQueue]
    | size | lastUsedIdx | availIdx | usedIdx | usedLen i | descAddr i | notify i => exact waiting_congr rfl rfl rfl rfl rfl rfl
    | _ => exact absurd ho id
  have hrec : s.record o = s := by
    cases o with
    | putc c => exact absurd ho id
    | setAvailIdx i => exact absurd ho id
    | _ => rfl
  have hexec : (rxWire.exec o s).2 = { s with sys := (rx.exec o s.sys).2 } := congrArg (fun t : RxWire =>
    { t with sys := (rx.exec o s.sys).2 }) hrec
  refine h.congr hat (by rw [hexec]) hsame.2 ?_
  rw [RxWire.view, hsame.1, hexec]
  rfl

/-- Printing between the reports. -/
lemma RxWireAt.putc (h : RxWireAt φ v s) (hcur : φ.cur = none) (c : Char) : RxWireAt φ v (rxWire.exec (.putc c) s).2 := by
  have hrec : s.record (.putc c) = s := by
    simp only [RxWire.record, show s.sys.cur = none from h.sys.cur.trans hcur, Option.isSome_none, Bool.false_eq_true, if_false]
  have hexec : (rxWire.exec (.putc c) s).2 = { s with sys := (rx.exec (.putc c) s.sys).2 } := congrArg (fun t : RxWire =>
    { t with sys := (rx.exec (.putc c) s.sys).2 }) hrec
  rw [hexec]
  exact h.congr (h.sys.putc c) rfl rfl rfl

/-- The first packet in the ring is taken up. -/
lemma RxWireAt.usedId {r : List (List Char)} (h : RxWireAt (.ready k) ⟨r.length + 1, r, [], []⟩ s) :
    ∃ p, RxWireAt (.latched (s.sys.virtq.usedRing (s.sys.queue.lastUsedIdx % descQueueSize)) k)
      ⟨r.length + 1, r, [p], []⟩ (rxWire.exec (.usedId (s.sys.queue.lastUsedIdx % descQueueSize)) s).2 := by
  have hread : s.sys.nextRead = s.sys.queue.lastUsedIdx := by
    rw [h.sys.nextRead]
    exact Nat.mod_eq_of_lt h.sys.lastLt
  have hcomp := h.sys.shared.completed_cons (h.sys.fresh rfl)
  rw [hread] at hcomp
  have htaken : s.taken = [] := congrArg RxWireView.taken h.view
  have hwaiting : s.waiting = s.packet (s.sys.virtq.usedRing (s.sys.queue.lastUsedIdx % descQueueSize)).id ::
      (completed s.sys.virtq ((s.sys.queue.lastUsedIdx + 1) % 2 ^ 16)).map fun u => s.packet u.id := by
    rw [RxWire.waiting, htaken, hread, hcomp]
    rfl
  refine ⟨s.packet (s.sys.virtq.usedRing (s.sys.queue.lastUsedIdx % descQueueSize)).id, h.sys.usedId,
    ⟨hwaiting.symm.trans h.reports.waiting, h.reports.reported⟩, ⟨List.nil_prefix, Nat.le_succ _, le_rfl⟩, ?_⟩
  show (⟨s.calls, s.reported, [_], s.current⟩ : RxWireView) = _
  rw [show s.calls = _ from congrArg RxWireView.calls h.view, show s.reported = _ from congrArg RxWireView.reported h.view,
    show s.current = _ from congrArg RxWireView.current h.view]
  rfl

/-- The report is complete. -/
lemma RxWireAt.setAvailIdx {r : List (List Char)} {p : List UInt8}
    (h : RxWireAt (.processing d fun w => fullRing w ∧ w.availRing (w.availIdx % descQueueSize) = d)
      ⟨r.length + 1, r, [p], packetText p⟩ s) :
    RxWireAt (.offeredBack fun w => gap w.lastUsedIdx w.availIdx = 257)
      ⟨(r ++ [packetText p]).length, r ++ [packetText p], [], []⟩
      (rxWire.exec (.setAvailIdx ((s.sys.virtq.availIdx + 1) % 2 ^ 16)) s).2 := by
  have htaken : s.taken = [p] := congrArg RxWireView.taken h.view
  have hreported : s.reported = r := congrArg RxWireView.reported h.view
  have hcurrent : s.current = packetText p := congrArg RxWireView.current h.view
  have hcalls : s.calls = r.length + 1 := congrArg RxWireView.calls h.view
  have hwait : p :: (completed s.sys.virtq s.sys.nextRead).map (fun u => s.packet u.id) = s.published.drop r.length := by
    rw [← hreported, ← h.reports.waiting, RxWire.waiting, htaken]
    rfl
  have hvirtq : (rxWire.exec (.setAvailIdx ((s.sys.virtq.availIdx + 1) % 2 ^ 16)) s).2.sys.virtq =
      { s.sys.virtq with availIdx := (s.sys.virtq.availIdx + 1) % 2 ^ 16 } :=
    (congrArg VirtioNetQueue.virtq (NetState.setVirtq_queues ..)).trans rfl
  have hnext : s.published[r.length]? = some p := by
    rw [← List.head?_drop, ← hwait]
    rfl
  have hlen : (r ++ [packetText p]).length = r.length + 1 := by simp
  refine ⟨h.sys.setAvailIdx, ⟨?_, ?_⟩, ⟨List.nil_prefix, le_rfl, Nat.le_succ _⟩, ?_⟩
  · rw [RxWire.waiting, hvirtq]
    show [] ++ (completed s.sys.virtq s.sys.nextRead).map _ = s.published.drop (s.reported ++ [s.current]).length
    rw [hreported, hcurrent, hlen, ← List.tail_drop, ← hwait]
    refine List.map_congr_left fun u _ => ?_
    rw [RxWire.packet, hvirtq]
    rfl
  · show s.reported ++ [s.current] = (s.published.take (s.reported ++ [s.current]).length).map packetText
    rw [hreported, hcurrent, hlen, List.take_add_one, hnext, List.map_append, ← hreported, ← h.reports.reported]
    rfl
  · show (⟨s.calls, s.reported ++ [s.current], [], []⟩ : RxWireView) = _
    rw [hcalls, hreported, hcurrent, hlen]

/-! ## The report -/

/-- The driver, having taken descriptor `d`, is where a run alone is in `t`. -/
structure Reporting (d a : ℕ) (r : List (List Char)) (p : List UInt8) (s : RxWire) (t : NetState) : Prop where
  sys : RxAt (.processing d fun w => fullRing w ∧ (w.desc d).addr = a) s.sys
  reports : Reports s
  view : s.view = ⟨r.length + 1, r, [p], t.out⟩
  packet : p = bytesAt t.heap.mem a queueBufSize

lemma Reporting.stable (d a : ℕ) (r : List (List Char)) (p : List UInt8) (t : NetState) :
    rxWire.Stable fun s => Reporting d a r p s t := by
  intro s s' henv h
  obtain ⟨hreports, htaken⟩ := h.reports.device h.sys henv
  refine ⟨RxAt.stable _ _ _ (RxWireDevice.sys henv) h.sys, hreports, ?_, h.packet⟩
  rw [← h.view, RxWire.view, htaken]
  cases henv <;> rfl

/-- A character more. -/
lemma Reporting.putc {a : ℕ} {r : List (List Char)} {p : List UInt8} {t : NetState} (h : Reporting d a r p s t) (c : Char) :
    Reporting d a r p (rxWire.exec (.putc c) s).2 (Op.exec .rx (.putc c) t).2 := by
  have hrec : s.record (.putc c) = { s with current := s.current ++ [c] } := by
    simp only [RxWire.record, show s.sys.cur = some d from h.sys.cur, Option.isSome_some, if_true]
  have hexec : (rxWire.exec (.putc c) s).2 =
      { s with current := s.current ++ [c], sys := (rx.exec (.putc c) s.sys).2 } := congrArg (fun t : RxWire =>
    { t with sys := (rx.exec (.putc c) s.sys).2 }) hrec
  rw [hexec]
  refine ⟨h.sys.putc c, ⟨h.reports.waiting, h.reports.reported⟩, ?_, h.packet⟩
  have hview := h.view
  rw [RxWire.view, RxWireView.mk.injEq] at hview
  obtain ⟨hcalls, hreported, htaken, hcurrent⟩ := hview
  show (⟨s.calls, s.reported, s.taken, s.current ++ [c]⟩ : RxWireView) = _
  rw [hcalls, hreported, htaken, hcurrent]
  rfl

/-- A byte of the packet is what it was when the packet was published. -/
lemma Reporting.byte {a i : ℕ} {r : List (List Char)} {p : List UInt8} {t : NetState} (h : Reporting d a r p s t)
    (hi : i < queueBufSize) : (rxWire.exec (.byte (a + i)) s).1 = (Op.exec .rx (.byte (a + i)) t).1 := by
  have htaken : s.taken = [p] := congrArg RxWireView.taken h.view
  have haddr : (s.sys.virtq.desc d).addr = a := h.sys.known.2
  rw [RxWire.taken, show s.sys.cur = some d from h.sys.cur] at htaken
  have hbytes : bytesAt s.sys.net.heap.mem a queueBufSize = bytesAt t.heap.mem a queueBufSize := by
    rw [← h.packet, ← haddr]
    exact List.singleton_inj.mp htaken
  rw [bytesAt, bytesAt, List.map_inj_left] at hbytes
  exact hbytes i (List.mem_range.mpr hi)

section Rules

lemma rxWireWp_op {o : Op} {f : o.Resp → Driver PollRx} (ho : RxPlain o) (h : RxWireAt φ v s)
    (hf : ∀ t, RxWireAt φ v t → (∀ {ψ}, RxAt ψ (rx.exec o t.sys).2 → RxWireAt ψ v (rxWire.exec o t).2) →
      RxWireWp (f (rx.exec o t.sys).1) (rxWire.exec o t).2) : RxWireWp (.op o f) s :=
  wp_op (RxWireAt.stable φ v) h fun t ht => ⟨ht.ok o, fun _ => hf t ht fun hat => ht.exec ho hat⟩

/-- Reading a field that only the driver writes. -/
lemma rxWireWp_view {o : Op} {f : o.Resp → Driver PollRx} (ho : RxPlain o) (g : RxView → o.Resp)
    (hg : ∀ t, rx.exec o t = (g t.view, t)) (h : RxWireAt φ v s)
    (hf : ∀ r t, RxWireAt { φ with known := fun w => φ.known w ∧ g w = r } v t → RxWireWp (f r) t) :
    RxWireWp (.op o f) s := by
  refine rxWireWp_op ho h fun t ht hlift => ?_
  have hresp : (rx.exec o t.sys).1 = g t.sys.view := by rw [hg]
  rw [hresp]
  refine hf _ _ (hlift ?_)
  rw [hg]
  exact ht.sys.mono fun hk => ⟨hk, rfl⟩

/-- Printing between the reports. -/
lemma rxWireWp_print {p : Driver PUnit} {f : PUnit → Driver PollRx} (hp : Only (fun o => ∃ c, o = .putc c) p)
    (h : RxWireAt φ v s) (hcur : φ.cur = none) (hf : ∀ t, RxWireAt φ v t → RxWireWp (f ⟨⟩) t) : RxWireWp (p >>= f) s := by
  refine wp_bind (wp_of_only (RxWireAt.stable φ v) ?_ (fun _ t ht => hf t ht) hp h)
  rintro o ⟨c, rfl⟩ t ht
  exact ⟨ht.ok _, ht.putc hcur c⟩

lemma rxWireWp_puts {str : String} {f : PUnit → Driver PollRx} (h : RxWireAt φ v s) (hcur : φ.cur = none)
    (hf : ∀ t, RxWireAt φ v t → RxWireWp (f ⟨⟩) t) : RxWireWp (uartPuts str >>= f) s :=
  rxWireWp_print (only_uartPuts (fun c => ⟨c, rfl⟩) str) h hcur hf

/-- **The report**: the loads of `printFrame` find the bytes that were published. -/
lemma rxWireWp_printFrame {a : ℕ} {r : List (List Char)} {p : List UInt8} {f : PUnit → Driver PollRx}
    (h : RxWireAt (.processing d fun w => fullRing w ∧ (w.desc d).addr = a) ⟨r.length + 1, r, [p], []⟩ s)
    (hf : ∀ t, RxWireAt (.processing d fullRing) ⟨r.length + 1, r, [p], packetText p⟩ t → RxWireWp (f ⟨⟩) t) :
    RxWireWp (printFrame (a + sizeofVirtioNetHdr) >>= f) s := by
  have htaken : s.taken = [p] := congrArg RxWireView.taken h.view
  rw [RxWire.taken, show s.sys.cur = some d from h.sys.cur] at htaken
  have haddr : (s.sys.virtq.desc d).addr = a := h.sys.known.2
  have hpacket : p = bytesAt s.sys.net.heap.mem a queueBufSize := by
    rw [← haddr]
    exact (List.singleton_inj.mp htaken).symm
  have htext : frameText s.sys.net.heap.mem (a + sizeofVirtioNetHdr) = packetText p := by
    rw [hpacket, packetText_bytesAt]
  have hstart : Reporting d a r p s { s.sys.net with out := [] } := ⟨h.sys, h.reports, h.view, hpacket⟩
  have halone : (printFrame (a + sizeofVirtioNetHdr)).run (Op.exec .rx) { s.sys.net with out := [] } =
      (⟨⟩, { s.sys.net with out := packetText p }) := by
    rw [prints_printFrame, ← htext]
    rfl
  refine wp_bind (wp_alone (Reporting.stable d a r p) ?_ ?_ ?_ (only_printFrame_buffer a) hstart halone)
  · rintro o (⟨c, rfl⟩ | ⟨i, hi, rfl⟩) t u ht
    · exact ⟨rfl, ht.putc c⟩
    · exact ⟨ht.byte hi, ⟨ht.sys, ht.reports, ht.view, ht.packet⟩⟩
  · intro o k t u _ ht hrun
    have hprefix := out_run .rx (.op o k) u
    rw [hrun] at hprefix
    refine ⟨ht.reports, ?_⟩
    rw [ht.view]
    refine ⟨?_, Nat.le_succ _, le_rfl⟩
    show u.out <+: [p].flatMap packetText
    rw [List.flatMap_singleton]
    exact hprefix
  · intro t ht
    refine hf t ⟨ht.sys.mono And.left, ht.reports, ⟨?_, Nat.le_succ _, le_rfl⟩, ht.view⟩
    show packetText p <+: [p].flatMap packetText
    rw [List.flatMap_singleton]

end Rules

/-! ## `virt_mmio_net_poll_rx` -/

/-- **The recycle step** completes the report. -/
lemma rxWireWp_recycle {r : List (List Char)} {p : List UInt8} {f : PUnit → Driver PollRx}
    (h : RxWireAt (.processing d fullRing) ⟨r.length + 1, r, [p], packetText p⟩ s)
    (hf : ∀ t, RxWireAt (.idle fullRing) ⟨(r ++ [packetText p]).length, r ++ [packetText p], [], []⟩ t → RxWireWp (f ⟨⟩) t) :
    RxWireWp (recycle d >>= f) s := by
  simp only [recycle, availIdx, size, setAvailRing, setAvailIdx, lastUsedIdx, setLastUsedIdx, virtMmioNotify, op_bind,
    ret_bind]
  refine rxWireWp_view trivial RxView.availIdx (fun _ => rfl) h fun a t₁ h₁ => ?_
  refine rxWireWp_view trivial RxView.size (fun _ => rfl) h₁ fun n t₂ h₂ => ?_
  have hd : d % 2 ^ 16 = d := Nat.mod_eq_of_lt ((h₂.sys.shared.mem_lt h₂.sys.mem_cur).trans (by norm_num))
  have hn : n = descQueueSize := h₂.sys.known.2.symm.trans h₂.sys.size
  rw [hd, hn]
  refine rxWireWp_op trivial h₂ fun t₃ h₃ hlift₃ => ?_
  have ha : t₃.sys.virtq.availIdx = a := h₃.sys.known.1.2
  have h₃' := RxAt.setAvailRing (h₃.sys.mono fun hk => hk.1.1)
  rw [ha] at h₃'
  refine rxWireWp_view trivial RxView.availIdx (fun _ => rfl) (hlift₃ h₃') fun b t₄ h₄ => ?_
  refine wp_op (RxWireAt.stable _ _) h₄ fun t₅ h₅ => ⟨h₅.ok _, fun _ => ?_⟩
  rw [← show t₅.sys.virtq.availIdx = b from h₅.sys.known.2]
  refine rxWireWp_view trivial RxView.lastUsedIdx (fun _ => rfl) (h₅.mono And.left).setAvailIdx fun l t₆ h₆ => ?_
  refine rxWireWp_op trivial h₆ fun t₇ h₇ hlift₇ => ?_
  have hl : t₇.sys.queue.lastUsedIdx = l := h₇.sys.known.2
  have h₇' := (h₇.sys.mono And.left).setLastUsedIdx
  rw [hl] at h₇'
  refine rxWireWp_op trivial (hlift₇ h₇') fun t₈ h₈ hlift₈ => hf _ (hlift₈ ?_)
  exact ⟨h₈.sys.shared, h₈.sys.cur, h₈.sys.nextRead, h₈.sys.size, h₈.sys.lastLt, h₈.sys.fresh, h₈.sys.laid, h₈.sys.known⟩

/-- **One round of the loop** reports a packet, or finds none. -/
lemma rxWireWp_pollRxLoop {r : List (List Char)} (length : ℕ) (h : RxWireAt (.idle fullRing) ⟨r.length + 1, r, [], []⟩ s) :
    RxWireWp (pollRxLoop length) s := by
  simp only [pollRxLoop, lastUsedIdx, usedIdx, size, usedId, usedLen, descAddr, op_bind, ret_bind, pure_eq]
  refine rxWireWp_view trivial RxView.lastUsedIdx (fun _ => rfl) h fun l t₁ h₁ => ?_
  refine rxWireWp_op trivial h₁ fun t₂ h₂ hlift₂ => ?_
  have h₂' := hlift₂ h₂.sys
  split_ifs with hne
  swap
  · exact wp_ret (rxWireDone_stable _) ⟨r, h₂'.mono And.left⟩
  have hready : RxWireAt (.ready fullRing) ⟨r.length + 1, r, [], []⟩ (rxWire.exec .usedIdx t₂).2 :=
    ⟨h₂.sys.ready_of_ne hne, h₂'.reports, h₂'.orderly, h₂'.view⟩
  refine rxWireWp_puts hready rfl fun t₃ h₃ => rxWireWp_op trivial h₃ fun t₄ h₄ hlift₄ => ?_
  refine rxWireWp_print (only_uartB2x (fun c => ⟨c, rfl⟩) _) (hlift₄ h₄.sys) rfl fun t₅ h₅ => ?_
  refine rxWireWp_print (only_uartPutc (fun c => ⟨c, rfl⟩) _) h₅ rfl fun t₆ h₆ => ?_
  refine rxWireWp_view trivial RxView.lastUsedIdx (fun _ => rfl) h₆ fun m t₇ h₇ => ?_
  refine rxWireWp_view trivial RxView.size (fun _ => rfl) h₇ fun n t₈ h₈ => ?_
  obtain rfl : n = descQueueSize := h₈.sys.known.2.symm.trans h₈.sys.size
  -- from here on a packet is in the driver's hands
  refine wp_op (RxWireAt.stable _ _) h₈ fun t₉ h₉ => ⟨h₉.ok _, fun _ => ?_⟩
  have hm₉ : t₉.sys.queue.lastUsedIdx = m := h₉.sys.known.1.2
  obtain ⟨p, h₉'⟩ := RxWireAt.usedId h₉
  rw [hm₉] at h₉'
  generalize hu : t₉.sys.virtq.usedRing (m % descQueueSize) = u at h₉'
  rw [show (rxWire.exec (.usedId (m % descQueueSize)) t₉).1 = u.id from congrArg VirtqUsedElem.id hu]
  refine rxWireWp_op trivial h₉' fun t₁₀ h₁₀ hlift₁₀ => ?_
  have h₁₀' := h₁₀.sys.usedLen
  rw [show t₁₀.sys.queue.lastUsedIdx = m from h₁₀.sys.known.1.2] at h₁₀'
  refine rxWireWp_op trivial (hlift₁₀ h₁₀') fun t₁₁ h₁₁ hlift₁₁ => ?_
  have hlt : ¬ u.id ≥ (rx.exec .size t₁₁.sys).1 := by
    rw [show (rx.exec .size t₁₁.sys).1 = 256 from h₁₁.sys.size]
    exact (h₁₁.sys.shared.mem_lt h₁₁.sys.mem_cur).not_ge
  rw [if_neg hlt]
  refine rxWireWp_view trivial (fun w => (w.desc u.id).addr) (fun _ => rfl) (hlift₁₁ h₁₁.sys) fun a t₁₂ h₁₂ => ?_
  refine rxWireWp_printFrame (h₁₂.mono fun hk => ⟨hk.1.1.1, hk.2⟩) fun t₁₃ h₁₃ => ?_
  refine rxWireWp_recycle h₁₃ fun t₁₄ h₁₄ => ?_
  refine rxWireWp_puts h₁₄ rfl fun t₁₅ h₁₅ => ?_
  refine rxWireWp_print (only_uartB2x (fun c => ⟨c, rfl⟩) _) h₁₅ rfl fun t₁₆ h₁₆ => ?_
  refine rxWireWp_print (only_uartPutc (fun c => ⟨c, rfl⟩) _) h₁₆ rfl fun t₁₇ h₁₇ => ?_
  exact rxWireWp_puts h₁₇ rfl fun t₁₈ h₁₈ => wp_ret (rxWireDone_stable _) ⟨_, h₁₈⟩

lemma rxWireWp_virtMmioNetPollRx {r : List (List Char)} (length : ℕ)
    (h : RxWireAt (.idle fullRing) ⟨r.length + 1, r, [], []⟩ s) : RxWireWp (virtMmioNetPollRx length) s := by
  unfold virtMmioNetPollRx
  exact rxWireWp_puts h rfl fun _ ht => wp_ret (rxWireDone_stable _) ⟨r, ht⟩

/-! ## Runs -/

/-- A call begins. -/
lemma RxWireAt.call {r : List (List Char)} (h : RxWireAt φ ⟨r.length, r, [], []⟩ s) :
    RxWireAt φ ⟨r.length + 1, r, [], []⟩ { s with calls := s.calls + 1 } := by
  refine ⟨h.sys, ⟨h.reports.waiting, h.reports.reported⟩, ⟨List.nil_prefix, Nat.le_succ _, le_rfl⟩, ?_⟩
  exact congrArg (fun v : RxWireView => { v with calls := v.calls + 1 }) h.view

/-- Nothing has been published. -/
lemma RxWireStart.done (h : RxWireStart s) : rxWireDone .returned s := by
  cases h with
  | @mk sys hstart =>
      have hnone : completed sys.virtq sys.nextRead = [] ∧ sys.cur = none := by
        cases hstart with
        | @mk limit net net' l owned hs hinit =>
            obtain ⟨⟨hused, -⟩, -⟩ := virtMmioNetVirtqInit_spec hs hinit
            have hdone : completed (net'.queues .rx).virtq 0 = [] := by
              rw [completed, hused]
              rfl
            exact ⟨hdone, rfl⟩
      refine ⟨[], hstart.idle, ⟨?_, rfl⟩, ⟨List.nil_prefix, le_rfl, Nat.le_succ _⟩, ?_⟩
      · rw [RxWire.waiting, RxWire.taken, hnone.1, hnone.2]
        rfl
      · rw [RxWire.view, RxWire.taken, hnone.2]
        rfl

/-- **The RX queue delivers, and every call reports one packet.**  At every point of every run of polls against a
conforming device, of any length: what has been reported is, packet by packet and in order, the text of what the device
had published; the packets it has published besides, the one that is being reported and those in the ring, are still as
they were; what has been printed of the one that is being reported is the beginning of its text; and every call has
reported one packet, but for a call that has not returned. -/
theorem rx_delivery (s₀ s : RxWire) (p : Driver PollRx) (ls : List Turn) (hstart : RxWireStart s₀)
    (hrun : Run (rxWire.Serve RxWireCall) (.ret .returned, s₀) ls (p, s)) :
    s.reported = (s.published.take s.reported.length).map packetText ∧
      s.waiting = s.published.drop s.reported.length ∧ s.current <+: s.taken.flatMap packetText ∧
      s.reported.length ≤ s.calls ∧ s.calls ≤ s.reported.length + 1 ∧
      (p = .ret .returned → s.calls = s.reported.length) := by
  have hcall : ∀ a t q t', RxWireCall a t q t' → rxWireDone a t → RxWireWp q t' := by
    rintro a t q t' (⟨length⟩ | ⟨length⟩) ⟨r, ht⟩
    · exact rxWireWp_virtMmioNetPollRx length ht.call
    · exact rxWireWp_pollRxLoop length ht
  have hat := Run.serve hcall hrun (wp_ret (rxWireDone_stable _) hstart.done)
  have hok : rxWireOk .size s := by
    cases p with
    | ret a =>
        cases a with
        | returned => exact hat.choose_spec.ok _
        | again n => exact hat.choose_spec.ok _
    | op o k => exact hat
  refine ⟨hok.1.reported, hok.1.waiting, hok.2.current, hok.2.le, hok.2.calls, ?_⟩
  rintro rfl
  obtain ⟨r, hr⟩ := hat
  rw [show s.calls = r.length from congrArg RxWireView.calls hr.view,
    show s.reported = r from congrArg RxWireView.reported hr.view]

/-- The device acts while the driver does not. -/
lemma rxWire_device {q : Driver PollRx} {c c' : Virtq × Device} (hsteps : Relation.ReflTransGen DeviceStep c c') :
    ∀ {s : RxWire}, c = (s.sys.virtq, s.sys.dev) → ∃ s' ls, Run (rxWire.Serve RxWireCall) (q, s) ls (q, s') ∧
      s'.calls = s.calls ∧ s'.sys.queue = { s.sys.queue with virtq := c'.1 } := by
  induction hsteps using Relation.ReflTransGen.head_induction_on with
  | refl =>
      rintro s rfl
      exact ⟨s, [], .nil _, rfl, rfl⟩
  | @head c e hstep _ ih =>
      rintro s rfl
      obtain ⟨v, dev⟩ := e
      have hqueue : (s.observe v dev).sys.queue = { s.sys.queue with virtq := v } := NetState.setVirtq_queues ..
      obtain ⟨s', ls, hrun, hcalls, hqueue'⟩ := ih (s := s.observe v dev)
        (congrArg (fun w : Virtq => (w, dev)) (congrArg VirtioNetQueue.virtq hqueue).symm)
      refine ⟨s', _, .cons (.env q (.ring hstep)) hrun, hcalls, ?_⟩
      rw [hqueue', hqueue]

/-- A call that is left alone and finds a packet. -/
lemma pollRx_wire (length : ℕ) (h : s.sys.net.RxReady) : ∃ s' ls,
    Run (rxWire.Serve RxWireCall) (.ret .returned, s) ls (.ret .returned, s') ∧ s'.calls = s.calls + 1 := by
  have hkeep : ∀ o (t : RxWire), t.calls = s.calls + 1 → (rxWire.exec o t).2.calls = s.calls + 1 := by
    intro o t ht
    cases o with
    | putc c =>
        show (t.record (.putc c)).calls = _
        rw [RxWire.record]
        split_ifs <;> exact ht
    | _ => exact ht
  have hnet : ∀ {α : Type} (q : Driver α) (t : RxWire),
      q.run (Op.exec .rx) t.sys.net = ((q.run rxWire.exec t).1, (q.run rxWire.exec t).2.sys.net) := fun q t =>
    run_map (f := fun t : RxWire => t.sys.net) (fun _ _ => rfl) q t
  have honce := pollRx_run length h
  let t₀ : RxWire := { s with calls := s.calls + 1 }
  obtain ⟨ls₁, hrun₁⟩ : ∃ ls, Run (rxWire.Serve RxWireCall) _ ls _ := Run.serve_alone (virtMmioNetPollRx length) t₀
  have hcalls₁ := run_keeps hkeep (virtMmioNetPollRx length) (s := t₀) rfl
  rcases hfirst : (virtMmioNetPollRx length).run rxWire.exec t₀ with ⟨a, t₁⟩
  obtain rfl : a = .again length := by
    have ha : ((virtMmioNetPollRx length).run rxWire.exec t₀).1 = .again length := by
      rw [virtMmioNetPollRx, run_bind]
      rfl
    rw [hfirst] at ha
    exact ha
  rw [hfirst] at hrun₁ hcalls₁
  obtain ⟨ls₂, hrun₂⟩ : ∃ ls, Run (rxWire.Serve RxWireCall) _ ls _ := Run.serve_alone (pollRxLoop length) t₁
  have hcalls₂ := run_keeps hkeep (pollRxLoop length) hcalls₁
  have hret : ((pollRxLoop length).run rxWire.exec t₁).1 = .returned := by
    rw [pollRxOnce, run_bind, hnet _ t₀, hfirst] at honce
    have hloop := hnet (pollRxLoop length) t₁
    exact (congrArg Prod.fst hloop).symm.trans (congrArg Prod.fst honce)
  rw [hret] at hrun₂
  exact ⟨_, _, .cons (.call (.call length)) (hrun₁.append (.cons (.call (.again length)) hrun₂)), hcalls₂⟩

/-- The device puts a packet into the first buffer, and it is reported. -/
theorem rx_delivery_first : ∃ s₀ s ls packet, RxWireStart s₀ ∧
    Run (rxWire.Serve RxWireCall) (.ret .returned, s₀) ls (.ret .returned, s) ∧ s.calls = 1 ∧
    s.published.take 1 = [packet] ∧ s.reported = [packetText packet] := by
  rcases queueLayout_init with ⟨limit, net, hinit⟩
  have hsplit : (NetState.boot (queueLayout.boot (fun _ => 0) true)).heap.Split _ _ :=
    queueLayout.boot_split (fun _ => 0) true
  obtain ⟨⟨hused, hidx, hring, hsize, hlast, -⟩, -⟩ := virtMmioNetVirtqInit_spec hsplit hinit
  let s₀ : RxWire := ⟨⟨net, .reset, none, 0, []⟩, 0, [], [], []⟩
  have hstart : RxWireStart s₀ := .mk (.mk hsplit hinit)
  have hnew : s₀.sys.dev.next ≠ s₀.sys.virtq.availIdx := by
    show 0 ≠ (net.queues .rx).virtq.availIdx
    rw [hidx]
    decide
  obtain ⟨s₁, ls, hdevice, hcalls, hqueue⟩ := rxWire_device (q := .ret .returned)
    (DeviceStep.completes (u := ⟨0, 72⟩) hnew rfl (hring 0 (by decide))) rfl
  have hqueue' : s₁.sys.net.queues .rx = _ := hqueue
  have helem : s₁.sys.net.usedElem = ⟨0, 72⟩ := by
    rw [NetState.usedElem, hqueue']
    show Function.update (net.queues .rx).virtq.usedRing ((net.queues .rx).virtq.usedIdx % 256) _
      ((net.queues .rx).lastUsedIdx % (net.queues .rx).size) = _
    rw [hused, hlast]
    exact Function.update_self ..
  have hready : s₁.sys.net.RxReady := by
    refine ⟨?_, ?_, by simp [helem], by simp [helem]⟩
    · rw [hqueue']
      exact hsize
    · rw [hqueue']
      show (net.queues .rx).lastUsedIdx ≠ ((net.queues .rx).virtq.usedIdx + 1) % 2 ^ 16
      rw [hused, hlast]
      decide
  obtain ⟨s, ls', hpoll, hcalls'⟩ := pollRx_wire 2048 hready
  have hrun := hdevice.append hpoll
  obtain ⟨hreported, -, -, -, -, hone⟩ := rx_delivery _ _ _ _ hstart hrun
  have hcount : s.calls = 1 := by rw [hcalls', hcalls]
  have hlen : s.reported.length = 1 := (hone rfl).symm.trans hcount
  rw [hlen] at hreported
  obtain ⟨packet, hpacket⟩ : ∃ packet, s.published.take 1 = [packet] := by
    refine List.length_eq_one_iff.mp ?_
    rw [← List.length_map (f := packetText), ← hreported]
    exact hlen
  rw [hpacket] at hreported
  exact ⟨s₀, s, _, packet, hstart, hrun, hcount, hpacket, hreported⟩

end NetStack
