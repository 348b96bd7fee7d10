import NetStack.Virtio.Device
import NetStack.Virtio.Init

/-!
# Ownership of the RX queue

`virt_mmio_net_poll_rx`, called again and again, against a conforming device that may act between any
two of its accesses.  `RxSys` adds to the driver and the device what the driver is doing: the
descriptor it is processing, the next used element it will look at, and the completions it has read.

`RxAt φ` is the invariant at the phase `φ` of a poll.  The proof of the loop body walks through the
phases: idle, ready (a completion has been seen), latched (its id has been read), processing (its
length too), placed (the avail slot is written), offered (`avail.idx` is incremented), and idle again
when `last_used_idx` follows.
-/

namespace NetStack

open ByteMem Concurrent Transition

/-! ## The system -/

/-- The driver, the device, and the driver's place in a poll. -/
structure RxSys where
  net : NetState
  dev : Device
  cur : Option ℕ
  nextRead : ℕ
  processed : List VirtqUsedElem

namespace RxSys

abbrev queue (s : RxSys) : VirtioNetQueue := s.net.queues .rx

abbrev virtq (s : RxSys) : Virtq := s.queue.virtq

/-- Which accesses begin and end the processing of a completion: reading its id takes the
descriptor up, reading its length completes the element read, and incrementing `avail.idx` hands
the descriptor back. -/
def record (s : RxSys) : (o : Op) → o.Resp → RxSys
  | .usedId _, id => { s with cur := some id, nextRead := (s.queue.lastUsedIdx + 1) % 2 ^ 16 }
  | .usedLen _, len => { s with processed := s.processed ++ [⟨s.cur.getD 0, len⟩] }
  | .setAvailIdx _, _ => { s with cur := none }
  | _, _ => s

def exec (o : Op) (s : RxSys) : o.Resp × RxSys :=
  let r := o.exec .rx s.net
  (r.1, { s.record o r.1 with net := r.2 })

/-- Where each descriptor is. -/
def places (s : RxSys) : List ℕ :=
  offered s.virtq s.dev ++ s.dev.held ++ (completed s.virtq s.nextRead).map (·.id) ++ s.cur.toList

/-- Every descriptor is in exactly one place, and the driver has read a prefix of the device's
completions. -/
def Sound (s : RxSys) : Prop :=
  s.places.Perm (List.range descQueueSize) ∧ s.processed <+: s.dev.made

/-- What the driver may do: overwrite an avail slot the device has taken, and read the buffer of the
descriptor it is processing, and no other. -/
def Allowed (o : Op) (s : RxSys) : Prop :=
  match o with
  | .setAvailRing i _ => ∀ j < gap s.dev.next s.virtq.availIdx, (s.dev.next + j) % descQueueSize ≠ i
  | .byte a => ∃ d, s.cur = some d ∧ s.virtq.InBuffer d a ∧
      ∀ d' < descQueueSize, s.virtq.InBuffer d' a → d' = d
  | _ => True

end RxSys

/-- The device's steps: an access to the rings, or any change to a buffer it holds. -/
inductive RxDevice : RxSys → RxSys → Prop
  | ring {s : RxSys} {v : Virtq} {d : Device} (h : DeviceStep (s.virtq, s.dev) (v, d)) :
      RxDevice s { s with net := s.net.setVirtq .rx v, dev := d }
  | fill {s : RxSys} {i : ℕ} {m : Mem} (hi : i ∈ s.dev.held)
      (hm : ∀ x, ¬ s.virtq.InBuffer i x → m x = s.net.heap.mem x) :
      RxDevice s { s with net := { s.net with heap := { s.net.heap with mem := m } } }

/-- The driver against the device. -/
def rx : Interference Op Op.Resp RxSys := ⟨RxSys.exec, RxDevice⟩

/-- A call, or another round of the loop of one. -/
inductive RxCall : PollRx → Driver PollRx → Prop
  | call (length : ℕ) : RxCall .returned (virtMmioNetPollRx length)
  | again (length : ℕ) : RxCall (.again length) (pollRxLoop length)

/-- The system right after a successful `virt_mmio_net_virtq_init`, on a heap that the allocator's
clients have left in order. -/
inductive RxStart : RxSys → Prop
  | mk {limit : ℕ} {s s' : NetState} {l owned : List ℕ} (hs : s.heap.Split l owned)
      (h : virtMmioNetVirtqInit limit s = some (s', true)) :
      RxStart ⟨s', .reset, none, 0, []⟩

/-! ## Phases -/

/-- The part of the queue that only the driver writes. -/
structure RxView where
  lastUsedIdx : ℕ
  size : ℕ
  availIdx : ℕ
  availRing : ℕ → ℕ
  desc : ℕ → VirtqDesc

def RxSys.view (s : RxSys) : RxView :=
  ⟨s.queue.lastUsedIdx, s.queue.size, s.virtq.availIdx, s.virtq.availRing, s.virtq.desc⟩

/-- A point of a poll: the descriptor being processed, the used element just read, how far the
driver's reading and its offering are ahead of `last_used_idx`, whether a completion is known to be
there, and what is known about the driver's own fields. -/
structure RxPhase where
  cur : Option ℕ
  latch : Option VirtqUsedElem
  ahead : ℕ
  fresh : Bool
  known : RxView → Prop

/-- **The invariant at a phase.** -/
structure RxAt (φ : RxPhase) (s : RxSys) : Prop where
  shared : Shared s.virtq s.dev s.nextRead s.cur.toList φ.latch (s.processed ++ φ.latch.toList)
  cur : s.cur = φ.cur
  nextRead : s.nextRead = (s.queue.lastUsedIdx + φ.ahead) % 2 ^ 16
  size : s.queue.size = 256
  lastLt : s.queue.lastUsedIdx < 2 ^ 16
  fresh : φ.fresh = true → s.nextRead ≠ s.virtq.usedIdx
  laid : s.virtq.Laid
  known : φ.known s.view

/-- Between the loop's accesses nothing is in the driver's hands. -/
def RxPhase.idle (k : RxView → Prop) : RxPhase := ⟨none, none, 0, false, k⟩
def RxPhase.ready (k : RxView → Prop) : RxPhase := ⟨none, none, 0, true, k⟩
def RxPhase.latched (u : VirtqUsedElem) (k : RxView → Prop) : RxPhase := ⟨some u.id, some u, 1, false, k⟩
def RxPhase.processing (d : ℕ) (k : RxView → Prop) : RxPhase := ⟨some d, none, 1, false, k⟩
def RxPhase.offeredBack (k : RxView → Prop) : RxPhase := ⟨none, none, 1, false, k⟩

/-- `avail.idx` is 256 ahead of `last_used_idx`. -/
def fullRing (w : RxView) : Prop := gap w.lastUsedIdx w.availIdx = 256

variable {φ : RxPhase} {s s' : RxSys}

lemma RxDevice.view (h : RxDevice s s') : s'.view = s.view := by
  cases h with
  | ring h =>
      rcases h.avail with ⟨h₁, h₂, h₃⟩
      simp [RxSys.view, RxSys.virtq, RxSys.queue, h₁, h₂, h₃]
  | fill => rfl

lemma RxAt.stable (φ : RxPhase) : rx.Stable (RxAt φ) := by
  intro s s' henv h
  have hknown : φ.known s'.view := by
    rw [RxDevice.view henv]
    exact h.known
  cases henv with
  | @ring v d hstep =>
      exact ⟨hstep.shared h.shared, h.cur, h.nextRead, h.size, h.lastLt,
        fun hr => hstep.usedIdx_ne h.shared (h.fresh hr), hstep.laid h.laid, hknown⟩
  | fill => exact ⟨h.shared, h.cur, h.nextRead, h.size, h.lastLt, h.fresh, h.laid, hknown⟩

lemma RxAt.sound (h : RxAt φ s) : s.Sound := by
  refine ⟨h.shared.perm, ?_⟩
  rw [h.shared.made_eq, List.append_assoc]
  exact List.prefix_append ..

/-- Sending a character is nothing to the queue. -/
lemma RxAt.putc (h : RxAt φ s) (c : Char) : RxAt φ (rx.exec (.putc c) s).2 :=
  ⟨h.shared, h.cur, h.nextRead, h.size, h.lastLt, h.fresh, h.laid, h.known⟩

lemma RxAt.mono {k : RxView → Prop} (h : RxAt φ s) (hk : φ.known s.view → k s.view) :
    RxAt { φ with known := k } s :=
  ⟨h.shared, h.cur, h.nextRead, h.size, h.lastLt, h.fresh, h.laid, hk h.known⟩

/-! ## Moves of the driver -/

variable {k k' : RxView → Prop} {u : VirtqUsedElem} {d : ℕ}

lemma RxAt.nextRead_slot (h : RxAt φ s) (hahead : φ.ahead = 1) :
    (s.nextRead + (2 ^ 16 - 1)) % descQueueSize = s.queue.lastUsedIdx % descQueueSize := by
  have hlt := h.lastLt
  rw [h.nextRead, hahead, descQueueSize_eq]
  omega

/-- The index the driver has read and `used.idx` differ. -/
lemma RxAt.ready_of_ne {l : ℕ} (h : RxAt (.idle fun w => k w ∧ w.lastUsedIdx = l) s) (hne : l ≠ s.virtq.usedIdx) :
    RxAt (.ready k) s := by
  refine ⟨h.shared, h.cur, h.nextRead, h.size, h.lastLt, fun _ => ?_, h.laid, h.known.1⟩
  have hread : s.nextRead = l := by
    rw [h.nextRead, ← show s.queue.lastUsedIdx = l from h.known.2]
    exact Nat.mod_eq_of_lt h.lastLt
  rw [hread]
  exact hne

/-- Reading the id of the next used element takes its descriptor up. -/
lemma RxAt.usedId (h : RxAt (.ready k) s) :
    RxAt (.latched (s.virtq.usedRing (s.queue.lastUsedIdx % descQueueSize)) k)
      (rx.exec (.usedId (s.queue.lastUsedIdx % descQueueSize)) s).2 := by
  have hread : s.nextRead = s.queue.lastUsedIdx := by
    rw [h.nextRead]
    exact Nat.mod_eq_of_lt h.lastLt
  have hshared := h.shared.consume (h.fresh rfl)
  have hcur : s.cur = none := h.cur
  rw [hread, hcur] at hshared
  refine ⟨?_, rfl, rfl, h.size, h.lastLt, fun hr => absurd hr (by simp [RxPhase.latched]), h.laid, h.known⟩
  have hlog : s.processed ++ (RxPhase.ready k).latch.toList = s.processed := List.append_nil _
  rw [hlog] at hshared
  exact hshared

/-- Reading its length completes the element. -/
lemma RxAt.usedLen (h : RxAt (.latched u k) s) :
    RxAt (.processing u.id k) (rx.exec (.usedLen (s.queue.lastUsedIdx % descQueueSize)) s).2 := by
  have helem : s.virtq.usedRing (s.queue.lastUsedIdx % descQueueSize) = u := by
    rw [← h.nextRead_slot rfl]
    exact (h.shared.latched u rfl).2
  have hcur : s.cur = some u.id := h.cur
  refine ⟨?_, h.cur, h.nextRead, h.size, h.lastLt, fun hr => absurd hr (by simp [RxPhase.processing]), h.laid,
    h.known⟩
  show Shared s.virtq s.dev s.nextRead s.cur.toList none (s.processed ++ [⟨s.cur.getD 0,
    (s.virtq.usedRing (s.queue.lastUsedIdx % descQueueSize)).len⟩] ++ [])
  rw [helem, hcur, List.append_nil]
  have hshared := h.shared.unlatch
  rw [hcur] at hshared
  exact hshared

lemma RxAt.mem_cur (h : RxAt (.processing d k) s) : d ∈ s.cur.toList := by
  rw [show s.cur = some d from h.cur]
  simp

/-- The avail slot is written. -/
lemma RxAt.setAvailRing (h : RxAt (.processing d fullRing) s) :
    RxAt (.processing d fun w => fullRing w ∧ w.availRing (w.availIdx % descQueueSize) = d)
      (rx.exec (.setAvailRing (s.virtq.availIdx % descQueueSize) d) s).2 :=
  ⟨h.shared.write_slot h.mem_cur d, h.cur, h.nextRead, h.size, h.lastLt,
    fun hr => absurd hr (by simp [RxPhase.processing]), h.laid, h.known, Function.update_self ..⟩

/-- `avail.idx` is incremented: the descriptor is offered again. -/
lemma RxAt.setAvailIdx
    (h : RxAt (.processing d fun w => fullRing w ∧ w.availRing (w.availIdx % descQueueSize) = d) s) :
    RxAt (.offeredBack fun w => gap w.lastUsedIdx w.availIdx = 257)
      (rx.exec (.setAvailIdx ((s.virtq.availIdx + 1) % 2 ^ 16)) s).2 := by
  have hcur : s.cur = some d := h.cur
  have hshared := h.shared
  rw [hcur] at hshared
  have hlt := h.shared.availLt
  have hlast := h.lastLt
  have hfull : gap s.queue.lastUsedIdx s.virtq.availIdx = 256 := h.known.1
  refine ⟨hshared.offer h.known.2, rfl, h.nextRead, h.size, h.lastLt,
    fun hr => absurd hr (by simp [RxPhase.offeredBack]), h.laid, ?_⟩
  show gap s.queue.lastUsedIdx ((s.virtq.availIdx + 1) % 2 ^ 16) = 257
  unfold gap at hfull ⊢
  omega

/-- `last_used_idx` follows. -/
lemma RxAt.setLastUsedIdx (h : RxAt (.offeredBack fun w => gap w.lastUsedIdx w.availIdx = 257) s) :
    RxAt (.idle fullRing) (rx.exec (.setLastUsedIdx ((s.queue.lastUsedIdx + 1) % 2 ^ 16)) s).2 := by
  have hgap : gap s.queue.lastUsedIdx s.virtq.availIdx = 257 := h.known
  have hlast := h.lastLt
  have hlt := h.shared.availLt
  refine ⟨h.shared, h.cur, ?_, h.size, Nat.mod_lt _ (by norm_num),
    fun hr => absurd hr (by simp [RxPhase.idle]), h.laid, ?_⟩
  · show s.nextRead = ((s.queue.lastUsedIdx + 1) % 2 ^ 16 + 0) % 2 ^ 16
    rw [h.nextRead, Nat.add_zero, Nat.mod_mod]
    rfl
  · show gap ((s.queue.lastUsedIdx + 1) % 2 ^ 16) s.virtq.availIdx = 256
    unfold gap at hgap ⊢
    omega

/-! ## `virt_mmio_net_poll_rx` -/

/-- What holds whenever the driver is about to make an access. -/
def rxOk (o : Op) (s : RxSys) : Prop := s.Sound ∧ s.Allowed o

/-- What holds when a call has returned, and each time round its loop. -/
def rxDone (_ : PollRx) (s : RxSys) : Prop := RxAt (.idle fullRing) s

abbrev RxWp (p : Driver PollRx) (s : RxSys) : Prop := wp rx rxOk rxDone p s

/-- Printing keeps the phase. -/
lemma rxWp_print {p : Driver PUnit} {f : PUnit → Driver PollRx}
    (hp : Only (fun o => ∃ c, o = .putc c) p) (h : RxAt φ s)
    (hf : ∀ t, RxAt φ t → RxWp (f ⟨⟩) t) : RxWp (p >>= f) s := by
  refine wp_bind (wp_of_only (RxAt.stable φ) ?_ (fun _ t ht => hf t ht) hp h)
  rintro o ⟨c, rfl⟩ t ht
  exact ⟨⟨ht.sound, trivial⟩, ht.putc c⟩

lemma rxWp_puts {str : String} {f : PUnit → Driver PollRx} (h : RxAt φ s)
    (hf : ∀ t, RxAt φ t → RxWp (f ⟨⟩) t) : RxWp (uartPuts str >>= f) s :=
  rxWp_print (only_uartPuts (fun c => ⟨c, rfl⟩) str) h hf

lemma rxWp_b2x {b : ℕ} {f : PUnit → Driver PollRx} (h : RxAt φ s)
    (hf : ∀ t, RxAt φ t → RxWp (f ⟨⟩) t) : RxWp (uartB2x b >>= f) s :=
  rxWp_print (only_uartB2x (fun c => ⟨c, rfl⟩) b) h hf

lemma rxWp_putc {c : Char} {f : PUnit → Driver PollRx} (h : RxAt φ s)
    (hf : ∀ t, RxAt φ t → RxWp (f ⟨⟩) t) : RxWp (uartPutc c >>= f) s :=
  rxWp_print (only_uartPutc (fun c => ⟨c, rfl⟩) c) h hf

/-- An access that the device cannot be disturbed by, in a known phase. -/
lemma rxWp_op {o : Op} {f : o.Resp → Driver PollRx} (h : RxAt φ s)
    (hok : ∀ t, RxAt φ t → t.Allowed o)
    (hf : ∀ t, RxAt φ t → RxWp (f (rx.exec o t).1) (rx.exec o t).2) : RxWp (.op o f) s :=
  wp_op (RxAt.stable φ) h fun t ht => ⟨⟨ht.sound, hok t ht⟩, fun _ => hf t ht⟩

/-- Reading a field that only the driver writes: the value read stays the field's value. -/
lemma rxWp_view {o : Op} {f : o.Resp → Driver PollRx} (g : RxView → o.Resp)
    (hg : ∀ t, rx.exec o t = (g t.view, t)) (hok : ∀ t : RxSys, t.Allowed o) (h : RxAt φ s)
    (hf : ∀ r t, RxAt { φ with known := fun w => φ.known w ∧ g w = r } t → RxWp (f r) t) :
    RxWp (.op o f) s := by
  refine rxWp_op h (fun t _ => hok t) fun t ht => ?_
  rw [hg]
  exact hf _ t (ht.mono fun hk => ⟨hk, rfl⟩)

/-- Reading the frame stays in the buffer. -/
lemma only_printFrame_buffer (a : ℕ) : Only (fun o => (∃ c, o = .putc c) ∨ ∃ i < queueBufSize, o = .byte (a + i))
    (printFrame (a + sizeofVirtioNetHdr)) := by
  refine only_printFrame (fun c => .inl ⟨c, rfl⟩) fun i hi => .inr ⟨12 + i, ?_, ?_⟩
  · simp only [queueBufSize_eq]
    omega
  · rw [sizeofVirtioNetHdr, Nat.add_assoc]

/-- The frame is read while its descriptor is being processed. -/
lemma rxWp_printFrame {a : ℕ} {f : PUnit → Driver PollRx}
    (h : RxAt (.processing d fun w => fullRing w ∧ (w.desc d).addr = a) s)
    (hf : ∀ t, RxAt (.processing d fullRing) t → RxWp (f ⟨⟩) t) :
    RxWp (printFrame (a + sizeofVirtioNetHdr) >>= f) s := by
  have honly := only_printFrame_buffer a
  refine wp_bind (wp_of_only (RxAt.stable _) ?_ (fun _ t ht => hf t (ht.mono And.left)) honly h)
  rintro o (⟨c, rfl⟩ | ⟨i, hi, rfl⟩) t ht
  · exact ⟨⟨ht.sound, trivial⟩, ht.putc c⟩
  · have haddr : (t.virtq.desc d).addr = a := ht.known.2
    have hin : t.virtq.InBuffer d (a + i) := by
      rw [Virtq.InBuffer, haddr]
      omega
    have hd : d < descQueueSize := ht.shared.mem_lt ht.mem_cur
    exact ⟨⟨ht.sound, d, ht.cur, hin, fun d' hd' hin' => ht.laid.inBuffer_unique hd' hd hin' hin⟩, ht⟩

/-- **The recycle step.** -/
lemma rxWp_recycle {f : PUnit → Driver PollRx} (h : RxAt (.processing d fullRing) s)
    (hf : ∀ t, RxAt (.idle fullRing) t → RxWp (f ⟨⟩) t) : RxWp (recycle d >>= f) s := by
  simp only [recycle, availIdx, size, setAvailRing, setAvailIdx, lastUsedIdx, setLastUsedIdx,
    virtMmioNotify, op_bind, ret_bind]
  refine rxWp_view RxView.availIdx (fun _ => rfl) (fun _ => trivial) h fun a t₁ h₁ => ?_
  refine rxWp_view RxView.size (fun _ => rfl) (fun _ => trivial) h₁ fun n t₂ h₂ => ?_
  have hd : d % 2 ^ 16 = d := Nat.mod_eq_of_lt ((h₂.shared.mem_lt h₂.mem_cur).trans (by norm_num))
  have hn : n = descQueueSize := h₂.known.2.symm.trans h₂.size
  rw [hd, hn]
  refine rxWp_op h₂ (fun t ht j hj => ?_) fun t₃ h₃ => ?_
  · rw [← show t.virtq.availIdx = a from ht.known.1.2]
    exact ht.shared.slot_taken ht.mem_cur hj
  rw [← show t₃.virtq.availIdx = a from h₃.known.1.2]
  have h₃' : RxAt (.processing d fullRing) t₃ := h₃.mono fun hk => hk.1.1
  refine rxWp_view RxView.availIdx (fun _ => rfl) (fun _ => trivial) h₃'.setAvailRing
    fun b t₄ h₄ => ?_
  refine rxWp_op h₄ (fun _ _ => trivial) fun t₅ h₅ => ?_
  rw [← show t₅.virtq.availIdx = b from h₅.known.2]
  have h₅' := (h₅.mono And.left).setAvailIdx
  refine rxWp_view RxView.lastUsedIdx (fun _ => rfl) (fun _ => trivial) h₅' fun l t₆ h₆ => ?_
  refine rxWp_op h₆ (fun _ _ => trivial) fun t₇ h₇ => ?_
  rw [← show t₇.queue.lastUsedIdx = l from h₇.known.2]
  have h₇' := (h₇.mono And.left).setLastUsedIdx
  refine rxWp_op h₇' (fun _ _ => trivial) fun t₈ h₈ => hf _ ?_
  exact ⟨h₈.shared, h₈.cur, h₈.nextRead, h₈.size, h₈.lastLt, h₈.fresh, h₈.laid, h₈.known⟩

/-- **One round of the loop.** -/
lemma rxWp_pollRxLoop (length : ℕ) (h : RxAt (.idle fullRing) s) :
    RxWp (pollRxLoop length) s := by
  simp only [pollRxLoop, lastUsedIdx, usedIdx, size, usedId, usedLen, descAddr, op_bind, ret_bind,
    pure_eq]
  refine rxWp_view RxView.lastUsedIdx (fun _ => rfl) (fun _ => trivial) h fun l t₁ h₁ => ?_
  refine rxWp_op h₁ (fun _ _ => trivial) fun t₂ h₂ => ?_
  split_ifs with hne
  swap
  · exact wp_ret (RxAt.stable _) (h₂.mono And.left)
  refine rxWp_puts (h₂.ready_of_ne hne) fun t₃ h₃ => rxWp_op h₃ (fun _ _ => trivial) fun t₄ h₄ => ?_
  refine rxWp_b2x h₄ fun t₅ h₅ => rxWp_putc h₅ fun t₆ h₆ => ?_
  refine rxWp_view RxView.lastUsedIdx (fun _ => rfl) (fun _ => trivial) h₆ fun m t₇ h₇ => ?_
  refine rxWp_view RxView.size (fun _ => rfl) (fun _ => trivial) h₇ fun n t₈ h₈ => ?_
  obtain rfl : n = descQueueSize := h₈.known.2.symm.trans h₈.size
  -- the id of the element is read, then its length
  refine rxWp_op h₈ (fun _ _ => trivial) fun t₉ h₉ => ?_
  have hm₉ : t₉.queue.lastUsedIdx = m := h₉.known.1.2
  have h₉' := RxAt.usedId h₉
  rw [hm₉] at h₉'
  generalize hu : t₉.virtq.usedRing (m % descQueueSize) = u at h₉'
  have hid : (rx.exec (.usedId (m % descQueueSize)) t₉).1 = u.id := congrArg VirtqUsedElem.id hu
  rw [hid]
  refine rxWp_op h₉' (fun _ _ => trivial) fun t₁₀ h₁₀ => ?_
  have h₁₀' := h₁₀.usedLen
  rw [show t₁₀.queue.lastUsedIdx = m from h₁₀.known.1.2] at h₁₀'
  refine rxWp_op h₁₀' (fun _ _ => trivial) fun t₁₁ h₁₁ => ?_
  have hlt : ¬ u.id ≥ (rx.exec .size t₁₁).1 := by
    rw [show (rx.exec .size t₁₁).1 = 256 from h₁₁.size]
    exact (h₁₁.shared.mem_lt h₁₁.mem_cur).not_ge
  rw [if_neg hlt]
  refine rxWp_view (fun w => (w.desc u.id).addr) (fun _ => rfl) (fun _ => trivial) h₁₁
    fun a t₁₂ h₁₂ => ?_
  refine rxWp_printFrame (h₁₂.mono fun hk => ⟨hk.1.1.1, hk.2⟩) fun t₁₃ h₁₃ => ?_
  refine rxWp_recycle h₁₃ fun t₁₄ h₁₄ => ?_
  refine rxWp_puts h₁₄ fun t₁₅ h₁₅ => rxWp_b2x h₁₅ fun t₁₆ h₁₆ => rxWp_putc h₁₆ fun t₁₇ h₁₇ => ?_
  exact rxWp_puts h₁₇ fun t₁₈ h₁₈ => wp_ret (RxAt.stable _) h₁₈

lemma rxWp_virtMmioNetPollRx (length : ℕ) (h : RxAt (.idle fullRing) s) :
    RxWp (virtMmioNetPollRx length) s := by
  unfold virtMmioNetPollRx
  exact rxWp_puts h fun _ ht => wp_ret (RxAt.stable _) ht

/-! ## Runs -/

/-- After initialisation every descriptor is offered. -/
lemma RxStart.idle (h : RxStart s) : RxAt (.idle fullRing) s := by
  cases h with
  | @mk limit net net' l owned hs hinit =>
      rcases virtMmioNetVirtqInit_spec hs hinit with ⟨⟨hused, hidx, hring, hsize, hlast, hlaid⟩, -, -⟩
      have hgap : gap Device.reset.next (net'.queues .rx).virtq.availIdx = 256 := by
        rw [hidx]
        decide
      have hdone : completed (net'.queues .rx).virtq 0 = [] := by
        rw [completed, hused]
        rfl
      have hoff : offered (net'.queues .rx).virtq Device.reset = List.range 256 := by
        rw [offered, hgap]
        refine (List.map_congr_left fun j hj => ?_).trans (List.map_id _)
        have hj' := List.mem_range.mp hj
        have hslot : (Device.reset.next + j) % descQueueSize = j := by
          simp only [Device.reset, descQueueSize_eq]
          omega
        rw [hslot]
        exact hring j hj'
      have hshared : Shared (net'.queues .rx).virtq Device.reset 0 [] none [] := by
        refine ⟨?_, ?_, ?_, by decide, by decide, by decide, ?_, ?_, ?_, ?_⟩
        · rw [hoff, hdone]
          simp [Device.reset]
        · rw [hidx]
          decide
        · rw [hused]
          decide
        · rw [show gap Device.reset.next Device.reset.seen = 0 by decide]
          exact Nat.zero_le _
        · rintro u ⟨⟩
        · rintro u ⟨⟩
        · rw [hdone]
          rfl
      have hlt : (net'.queues .rx).lastUsedIdx < 2 ^ 16 := by
        rw [hlast]
        decide
      have hfull : gap (net'.queues .rx).lastUsedIdx (net'.queues .rx).virtq.availIdx = 256 := by
        rw [hlast]
        exact hgap
      refine ⟨hshared, rfl, ?_, hsize, hlt, by rintro ⟨⟩, hlaid, hfull⟩
      show 0 = ((net'.queues .rx).lastUsedIdx + 0) % 2 ^ 16
      rw [hlast]
      rfl

/-- **Ownership of the RX queue.**  In every run of polls against a conforming device, of any length:
each descriptor is in exactly one place and the driver has read a prefix of the device's completions;
between polls `avail.idx` is 256 ahead of `last_used_idx`; an avail slot is overwritten only after the
device has taken it, and a buffer is read only while its descriptor is being processed. -/
theorem rx_ownership (s₀ s : RxSys) (p : Driver PollRx) (ls : List Turn) (hstart : RxStart s₀)
    (hrun : Run (rx.Step RxCall) (.ret .returned, s₀) ls (p, s)) :
    s.places.Perm (List.range descQueueSize) ∧ s.places.Nodup ∧ s.processed <+: s.dev.made ∧
    (p = .ret .returned → (s.virtq.availIdx + 2 ^ 16 - s.queue.lastUsedIdx) % 2 ^ 16 = 256) ∧
    ∀ o k, p = .op o k → s.Allowed o := by
  have hcall : ∀ a p t, RxCall a p → rxDone a t → RxWp p t := by
    rintro a p t (⟨length⟩ | ⟨length⟩) ht
    · exact rxWp_virtMmioNetPollRx length ht
    · exact rxWp_pollRxLoop length ht
  have hat := Run.wp hcall hrun (wp_ret (RxAt.stable _) hstart.idle)
  have hsound : s.Sound := by
    cases p with
    | ret a => exact RxAt.sound hat
    | op o k => exact hat.1
  refine ⟨hsound.1, hsound.1.nodup_iff.mpr List.nodup_range, hsound.2, ?_, ?_⟩
  · rintro rfl
    exact RxAt.known hat
  · rintro o k rfl
    exact hat.2

/-- A poll begins and the device takes its first descriptor. -/
theorem rx_ownership_first_take :
    ∃ s₀ s p, RxStart s₀ ∧ Run (rx.Step RxCall) (.ret .returned, s₀)
        [.call, .environment, .environment] (p, s) ∧
      s.dev.held = [0] ∧ s.places.Perm (List.range descQueueSize) := by
  rcases queueLayout_init with ⟨limit, net, hinit⟩
  have hsplit : (NetState.boot (queueLayout.boot (fun _ => 0) true)).heap.Split _ _ :=
    queueLayout.boot_split (fun _ => 0) true
  rcases virtMmioNetVirtqInit_spec hsplit hinit with ⟨⟨-, hidx, hring, -⟩, -⟩
  have hstart : RxStart ⟨net, .reset, none, 0, []⟩ := .mk hsplit hinit
  have hsee : RxDevice ⟨net, .reset, none, 0, []⟩ _ := .ring (.readAvail ..)
  have htake : RxDevice _ _ := .ring (s := ⟨net.setVirtq .rx (net.queues .rx).virtq,
    { Device.reset with seen := (net.queues .rx).virtq.availIdx }, none, 0, []⟩) (.take _ _ (by
      show 0 ≠ (net.queues .rx).virtq.availIdx
      rw [hidx]
      decide))
  have hrun : Run (rx.Step RxCall) (.ret .returned, ⟨net, .reset, none, 0, []⟩)
      [.call, .environment, .environment] _ :=
    .cons (.call _ (.call 0)) (.cons (.env _ hsee) (.cons (.env _ htake) (.nil _)))
  refine ⟨_, _, _, hstart, hrun, ?_, (rx_ownership _ _ _ _ hstart hrun).1⟩
  exact congrArg (fun d => [d]) (hring 0 (by decide))

end NetStack
