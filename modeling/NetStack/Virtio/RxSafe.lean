import NetStack.Virtio.Rx

/-!
# The RX queue against an arbitrary device

Here the device is not trusted: between any two accesses of the driver it may put anything into
`used` and into the buffers.  What keeps `virt_mmio_net_poll_rx` in bounds is the driver's own
half of the queue, `RxView`, which the device cannot write: `RxSafeAt b w₀ k` says that this half is
as `virt_mmio_net_virtq_init` left it up to `avail` and `last_used_idx`, that a poll which has read an
invalid id has not moved from `w₀`, and that `k` is known about it.

The id of a completion is the one value of the device's choice that becomes an index.  It is fetched
once, compared with `size`, and the copy that was compared is the one that is used (`Checked`).
-/

namespace NetStack

open ByteMem Concurrent Transition

/-! ## The system -/

/-- The driver, and the id it has read last. -/
structure RxAny where
  net : NetState
  id : Option ℕ

namespace RxAny

abbrev queue (s : RxAny) : VirtioNetQueue := s.net.queues .rx

abbrev virtq (s : RxAny) : Virtq := s.queue.virtq

def record (s : RxAny) : (o : Op) → o.Resp → RxAny
  | .usedId _, id => { s with id := some id }
  | _, _ => s

def exec (o : Op) (s : RxAny) : o.Resp × RxAny :=
  let r := o.exec .rx s.net
  (r.1, { s.record o r.1 with net := r.2 })

/-- What the driver may do.  Every index is in bounds, so is every value put into `avail`; memory is
read in the buffer of the descriptor whose id has been checked, and neither memory nor a descriptor
is written. -/
def Allowed (o : Op) (s : RxAny) : Prop :=
  match o with
  | .usedId i | .usedLen i | .descAddr i => i < descQueueSize
  | .setAvailRing i v => i < descQueueSize ∧ v < descQueueSize
  | .byte a => ∃ d < descQueueSize, s.id = some d ∧ s.queue.buffers + d * queueBufSize ≤ a ∧
      a < s.queue.buffers + d * queueBufSize + queueBufSize
  | .inUse _ | .setInUse _ _ | .setDescLen _ _ | .setDescFlags _ _ | .setByte _ _ => False
  | _ => True

def view (s : RxAny) : RxView :=
  ⟨s.queue.lastUsedIdx, s.queue.size, s.virtq.availIdx, s.virtq.availRing, s.virtq.desc⟩

/-- The buffers are at `b` and the descriptors point to them. -/
structure Intact (b : ℕ) (s : RxAny) : Prop where
  buffers : s.queue.buffers = b
  size : s.queue.size = descQueueSize
  desc : ∀ i < descQueueSize, (s.virtq.desc i).addr = b + i * queueBufSize ∧
    (s.virtq.desc i).len = queueBufSize ∧ (s.virtq.desc i).flags = virtqDescFWrite

end RxAny

/-- The driver against an arbitrary device. -/
def rxAny : Interference Op Op.Resp RxAny := ⟨RxAny.exec, fun s s' => Havoc s.net s'.net ∧ s'.id = s.id⟩

/-- The system right after a successful `virt_mmio_net_virtq_init`. -/
inductive RxAnyStart : RxAny → Prop
  | mk {limit : ℕ} {s s' : NetState} {l owned : List ℕ} (hs : s.heap.Split l owned)
      (h : virtMmioNetVirtqInit limit s = some (s', true)) : RxAnyStart ⟨s', none⟩

/-- Another round of the loop of one call. -/
inductive RxAgain : PollRx → Driver PollRx → Prop
  | again (length : ℕ) : RxAgain (.again length) (pollRxLoop length)

/-! ## The invariant -/

variable {b d : ℕ} {w₀ : RxView} {k : RxView → Option ℕ → Prop} {s s' : RxAny}

structure RxSafeAt (b : ℕ) (w₀ : RxView) (k : RxView → Option ℕ → Prop) (s : RxAny) : Prop where
  intact : s.Intact b
  kept : ∀ d, s.id = some d → descQueueSize ≤ d → s.view = w₀
  known : k s.view s.id

lemma RxAny.intact_stable (b : ℕ) : rxAny.Stable (RxAny.Intact b) := by
  rintro s s' ⟨henv, -⟩ hs
  rcases henv.queue .rx with ⟨idx, ring, heq⟩
  refine ⟨?_, ?_, ?_⟩
  · rw [RxAny.queue, heq]
    exact hs.buffers
  · rw [RxAny.queue, heq]
    exact hs.size
  · rw [RxAny.virtq, RxAny.queue, heq]
    exact hs.desc

lemma RxAny.view_eq (henv : rxAny.env s s') : s'.view = s.view ∧ s'.id = s.id := by
  rcases henv.1.queue .rx with ⟨idx, ring, heq⟩
  refine ⟨?_, henv.2⟩
  simp only [RxAny.view, RxAny.virtq, RxAny.queue, heq]

lemma RxSafeAt.stable (b : ℕ) (w₀ : RxView) (k : RxView → Option ℕ → Prop) : rxAny.Stable (RxSafeAt b w₀ k) := by
  intro s s' henv h
  rcases RxAny.view_eq henv with ⟨hview, hid⟩
  refine ⟨RxAny.intact_stable b _ _ henv h.intact, ?_, ?_⟩
  · rw [hview, hid]
    exact h.kept
  · rw [hview, hid]
    exact h.known

lemma RxSafeAt.mono {k' : RxView → Option ℕ → Prop} (h : RxSafeAt b w₀ k s) (hk : k s.view s.id → k' s.view s.id) :
    RxSafeAt b w₀ k' s := ⟨h.intact, h.kept, hk h.known⟩

/-- What holds whenever the driver is about to make an access. -/
def rxSafeOk (b : ℕ) (w₀ : RxView) (o : Op) (s : RxAny) : Prop :=
  s.Intact b ∧ s.Allowed o ∧ ∀ d, s.id = some d → descQueueSize ≤ d → s.view = w₀

/-- What holds when a poll that began in `w₀` has returned, and each time round its loop. -/
def rxSafeDone (b : ℕ) (w₀ : RxView) : PollRx → RxAny → Prop
  | .returned => RxSafeAt b w₀ fun _ _ => True
  | .again _ => RxSafeAt b w₀ fun w _ => w = w₀

abbrev RxSafeWp (b : ℕ) (w₀ : RxView) (p : Driver PollRx) (s : RxAny) : Prop :=
  wp rxAny (rxSafeOk b w₀) (rxSafeDone b w₀) p s

lemma rxSafeWp_op {o : Op} {f : o.Resp → Driver PollRx} (h : RxSafeAt b w₀ k s)
    (hok : ∀ t, RxSafeAt b w₀ k t → t.Allowed o)
    (hf : ∀ t, RxSafeAt b w₀ k t → RxSafeWp b w₀ (f (rxAny.exec o t).1) (rxAny.exec o t).2) :
    RxSafeWp b w₀ (.op o f) s :=
  wp_op (RxSafeAt.stable b w₀ k) h fun t ht => ⟨⟨ht.intact, hok t ht, ht.kept⟩, fun _ => hf t ht⟩

/-- Reading a field that only the driver writes: the value read stays the field's value. -/
lemma rxSafeWp_view {o : Op} {f : o.Resp → Driver PollRx} (g : RxView → o.Resp)
    (hg : ∀ t, rxAny.exec o t = (g t.view, t)) (hok : ∀ t : RxAny, t.Allowed o) (h : RxSafeAt b w₀ k s)
    (hf : ∀ r t, RxSafeAt b w₀ (fun w id => k w id ∧ g w = r) t → RxSafeWp b w₀ (f r) t) :
    RxSafeWp b w₀ (.op o f) s := by
  refine rxSafeWp_op h (fun t _ => hok t) fun t ht => ?_
  rw [hg]
  exact hf _ t (ht.mono fun hk => ⟨hk, rfl⟩)

/-- Printing, which may look at the frame, changes nothing. -/
lemma rxSafeWp_print {A : Op → Prop} {p : Driver PUnit} {f : PUnit → Driver PollRx} (hp : Only A p)
    (hA : ∀ o, A o → (∃ c, o = .putc c) ∨ ∃ a, o = .byte a)
    (hok : ∀ o t, A o → RxSafeAt b w₀ k t → t.Allowed o) (h : RxSafeAt b w₀ k s)
    (hf : ∀ t, RxSafeAt b w₀ k t → RxSafeWp b w₀ (f ⟨⟩) t) : RxSafeWp b w₀ (p >>= f) s := by
  refine wp_bind (wp_of_only (RxSafeAt.stable b w₀ k) ?_ (fun _ t ht => hf t ht) hp h)
  intro o ho t ht
  refine ⟨⟨ht.intact, hok o t ho ht, ht.kept⟩, ?_⟩
  rcases hA o ho with ⟨c, rfl⟩ | ⟨a, rfl⟩
  · exact ⟨⟨ht.intact.buffers, ht.intact.size, ht.intact.desc⟩, ht.kept, ht.known⟩
  · exact ht

lemma rxSafeWp_text {p : Driver PUnit} {f : PUnit → Driver PollRx} (hp : Only (fun o => ∃ c, o = .putc c) p)
    (h : RxSafeAt b w₀ k s) (hf : ∀ t, RxSafeAt b w₀ k t → RxSafeWp b w₀ (f ⟨⟩) t) : RxSafeWp b w₀ (p >>= f) s := by
  refine rxSafeWp_print hp (fun o ho => .inl ho) ?_ h hf
  rintro o t ⟨c, rfl⟩ -
  trivial

lemma rxSafeWp_puts {str : String} {f : PUnit → Driver PollRx} (h : RxSafeAt b w₀ k s)
    (hf : ∀ t, RxSafeAt b w₀ k t → RxSafeWp b w₀ (f ⟨⟩) t) : RxSafeWp b w₀ (uartPuts str >>= f) s :=
  rxSafeWp_text (only_uartPuts (fun c => ⟨c, rfl⟩) str) h hf

lemma rxSafeWp_b2x {n : ℕ} {f : PUnit → Driver PollRx} (h : RxSafeAt b w₀ k s)
    (hf : ∀ t, RxSafeAt b w₀ k t → RxSafeWp b w₀ (f ⟨⟩) t) : RxSafeWp b w₀ (uartB2x n >>= f) s :=
  rxSafeWp_text (only_uartB2x (fun c => ⟨c, rfl⟩) n) h hf

lemma rxSafeWp_putc {c : Char} {f : PUnit → Driver PollRx} (h : RxSafeAt b w₀ k s)
    (hf : ∀ t, RxSafeAt b w₀ k t → RxSafeWp b w₀ (f ⟨⟩) t) : RxSafeWp b w₀ (uartPutc c >>= f) s :=
  rxSafeWp_text (only_uartPutc (fun c => ⟨c, rfl⟩) c) h hf

/-! ## `virt_mmio_net_poll_rx` -/

/-- The id read last was `d`, and it passed the check. -/
def Checked (d : ℕ) (_ : RxView) (id : Option ℕ) : Prop := id = some d ∧ d < descQueueSize

/-- Once the check is passed, the driver may write its half of the queue: `avail` and
`last_used_idx`, that is. -/
lemma RxSafeAt.written {k' : RxView → Option ℕ → Prop} (h : RxSafeAt b w₀ k s) (hd : s.id = some d)
    (hlt : d < descQueueSize) (hbuf : s'.queue.buffers = s.queue.buffers) (hsize : s'.queue.size = s.queue.size)
    (hdesc : s'.virtq.desc = s.virtq.desc) (hid : s'.id = s.id) (hk : k' s'.view s'.id) : RxSafeAt b w₀ k' s' := by
  refine ⟨⟨hbuf.trans h.intact.buffers, hsize.trans h.intact.size, ?_⟩, fun d' hd' hge => ?_, hk⟩
  · rw [hdesc]
    exact h.intact.desc
  · have heq : d' = d := Option.some.inj (hd'.symm.trans (hid.trans hd))
    omega

/-- The frame is read in the buffer of the checked descriptor. -/
lemma rxSafeWp_printFrame {f : PUnit → Driver PollRx} (h : RxSafeAt b w₀ (Checked d) s)
    (hf : ∀ t, RxSafeAt b w₀ (Checked d) t → RxSafeWp b w₀ (f ⟨⟩) t) :
    RxSafeWp b w₀ (printFrame (b + d * queueBufSize + sizeofVirtioNetHdr) >>= f) s := by
  have honly : Only (fun o => (∃ c, o = .putc c) ∨ ∃ i < queueBufSize, o = .byte (b + d * queueBufSize + i))
      (printFrame (b + d * queueBufSize + sizeofVirtioNetHdr)) := by
    refine only_printFrame (fun c => .inl ⟨c, rfl⟩) fun i hi => .inr ⟨12 + i, ?_, ?_⟩
    · simp only [queueBufSize_eq]
      omega
    · rw [sizeofVirtioNetHdr, Nat.add_assoc]
  refine rxSafeWp_print honly ?_ ?_ h hf
  · rintro o (ho | ⟨i, -, rfl⟩)
    · exact .inl ho
    · exact .inr ⟨_, rfl⟩
  · rintro o t (⟨c, rfl⟩ | ⟨i, hi, rfl⟩) ht
    · trivial
    · refine ⟨d, ht.known.2, ht.known.1, ?_⟩
      rw [ht.intact.buffers]
      omega

/-- **The recycle step.** -/
lemma rxSafeWp_recycle {f : PUnit → Driver PollRx} (h : RxSafeAt b w₀ (Checked d) s)
    (hf : ∀ t, RxSafeAt b w₀ (Checked d) t → RxSafeWp b w₀ (f ⟨⟩) t) : RxSafeWp b w₀ (recycle d >>= f) s := by
  simp only [recycle, availIdx, size, setAvailRing, setAvailIdx, lastUsedIdx, setLastUsedIdx,
    virtMmioNotify, op_bind, ret_bind]
  refine rxSafeWp_view RxView.availIdx (fun _ => rfl) (fun _ => trivial) h fun a t₁ h₁ => ?_
  refine rxSafeWp_view RxView.size (fun _ => rfl) (fun _ => trivial) h₁ fun n t₂ h₂ => ?_
  obtain rfl : n = descQueueSize := h₂.known.2.symm.trans h₂.intact.size
  refine rxSafeWp_op h₂ (fun t ht => ⟨Nat.mod_lt _ (by decide), ?_⟩) fun t₃ h₃ => ?_
  · exact (Nat.mod_le d _).trans_lt ht.known.1.1.2
  have hcheck : Checked d t₃.view t₃.id := h₃.known.1.1
  have h₃' : RxSafeAt b w₀ (Checked d) (rxAny.exec (.setAvailRing (a % descQueueSize) (d % 2 ^ 16)) t₃).2 :=
    h₃.written hcheck.1 hcheck.2 rfl rfl rfl rfl hcheck
  refine rxSafeWp_view RxView.availIdx (fun _ => rfl) (fun _ => trivial) h₃' fun c t₄ h₄ => ?_
  refine rxSafeWp_op h₄ (fun _ _ => trivial) fun t₅ h₅ => ?_
  have hcheck₅ : Checked d t₅.view t₅.id := h₅.known.1
  have h₅' : RxSafeAt b w₀ (Checked d) (rxAny.exec (.setAvailIdx ((c + 1) % 2 ^ 16)) t₅).2 :=
    h₅.written hcheck₅.1 hcheck₅.2 rfl rfl rfl rfl hcheck₅
  refine rxSafeWp_view RxView.lastUsedIdx (fun _ => rfl) (fun _ => trivial) h₅' fun l t₆ h₆ => ?_
  refine rxSafeWp_op h₆ (fun _ _ => trivial) fun t₇ h₇ => ?_
  have hcheck₇ : Checked d t₇.view t₇.id := h₇.known.1
  have h₇' : RxSafeAt b w₀ (Checked d) (rxAny.exec (.setLastUsedIdx ((l + 1) % 2 ^ 16)) t₇).2 :=
    h₇.written hcheck₇.1 hcheck₇.2 rfl rfl rfl rfl hcheck₇
  refine rxSafeWp_op h₇' (fun _ _ => trivial) fun t₈ h₈ => hf _ ?_
  exact h₈.written h₈.known.1 h₈.known.2 rfl rfl rfl rfl h₈.known

/-- **One round of the loop** of a poll that began in `w₀`. -/
lemma rxSafeWp_pollRxLoop (length : ℕ) (h : RxSafeAt b w₀ (fun w _ => w = w₀) s) :
    RxSafeWp b w₀ (pollRxLoop length) s := by
  simp only [pollRxLoop, lastUsedIdx, usedIdx, size, usedId, usedLen, descAddr, op_bind, ret_bind, pure_eq]
  refine rxSafeWp_op h (fun _ _ => trivial) fun t₁ h₁ => ?_
  refine rxSafeWp_op h₁ (fun _ _ => trivial) fun t₂ h₂ => ?_
  split_ifs with hne
  swap
  · exact wp_ret (RxSafeAt.stable _ _ _) h₂
  refine rxSafeWp_puts h₂ fun t₃ h₃ => rxSafeWp_op h₃ (fun _ _ => trivial) fun t₄ h₄ => ?_
  refine rxSafeWp_b2x h₄ fun t₅ h₅ => rxSafeWp_putc h₅ fun t₆ h₆ => ?_
  refine rxSafeWp_op h₆ (fun _ _ => trivial) fun t₇ h₇ => ?_
  refine rxSafeWp_view RxView.size (fun _ => rfl) (fun _ => trivial) h₇ fun n t₈ h₈ => ?_
  obtain rfl : n = descQueueSize := h₈.known.2.symm.trans h₈.intact.size
  have hslot : (rxAny.exec .lastUsedIdx t₇).1 % descQueueSize < descQueueSize := Nat.mod_lt _ (by decide)
  refine rxSafeWp_op h₈ (fun _ _ => hslot) fun t₉ h₉ => ?_
  -- from here on the id is the driver's copy
  generalize hid : (rxAny.exec (.usedId ((rxAny.exec .lastUsedIdx t₇).1 % descQueueSize)) t₉).1 = d
  have h₉' : RxSafeAt b w₀ (fun w id => w = w₀ ∧ id = some d)
      (rxAny.exec (.usedId ((rxAny.exec .lastUsedIdx t₇).1 % descQueueSize)) t₉).2 :=
    ⟨⟨h₉.intact.buffers, h₉.intact.size, h₉.intact.desc⟩, fun _ _ _ => h₉.known.1, h₉.known.1, congrArg some hid⟩
  refine rxSafeWp_op h₉' (fun _ _ => hslot) fun t₁₀ h₁₀ => ?_
  refine rxSafeWp_view RxView.size (fun _ => rfl) (fun _ => trivial) h₁₀ fun m t₁₁ h₁₁ => ?_
  obtain rfl : m = descQueueSize := h₁₁.known.2.symm.trans h₁₁.intact.size
  by_cases hge : d ≥ descQueueSize
  · rw [if_pos hge]
    exact rxSafeWp_puts h₁₁ fun t₁₂ h₁₂ => wp_ret (RxSafeAt.stable _ _ _) (h₁₂.mono fun _ => trivial)
  rw [if_neg hge]
  have hlt : d < descQueueSize := not_le.mp hge
  have h₁₁' : RxSafeAt b w₀ (Checked d) t₁₁ := h₁₁.mono fun hk => ⟨hk.1.2, hlt⟩
  refine rxSafeWp_op h₁₁' (fun _ _ => hlt) fun t₁₂ h₁₂ => ?_
  rw [show (rxAny.exec (.descAddr d) t₁₂).1 = b + d * queueBufSize from (h₁₂.intact.desc d hlt).1]
  refine rxSafeWp_printFrame h₁₂ fun t₁₃ h₁₃ => rxSafeWp_recycle h₁₃ fun t₁₄ h₁₄ => ?_
  refine rxSafeWp_puts h₁₄ fun t₁₅ h₁₅ => rxSafeWp_b2x h₁₅ fun t₁₆ h₁₆ => rxSafeWp_putc h₁₆ fun t₁₇ h₁₇ => ?_
  exact rxSafeWp_puts h₁₇ fun t₁₈ h₁₈ => wp_ret (RxSafeAt.stable _ _ _) (h₁₈.mono fun _ => trivial)

lemma rxSafeWp_virtMmioNetPollRx (length : ℕ) (h : RxSafeAt b w₀ (fun w _ => w = w₀) s) :
    RxSafeWp b w₀ (virtMmioNetPollRx length) s := by
  unfold virtMmioNetPollRx
  exact rxSafeWp_puts h fun _ ht => wp_ret (RxSafeAt.stable _ _ _) ht

/-! ## A poll that has read an id returns -/

/-- The id of a completion is read. -/
def ReadsId (o : Op) : Prop := ∃ i, o = .usedId i

lemma only_notReadsId {p : Driver PUnit} (hp : Only (fun o => ∃ c, o = .putc c) p) : Only (fun o => ¬ ReadsId o) p := by
  refine hp.mono ?_
  rintro o ⟨c, rfl⟩ ⟨i, hi⟩
  cases hi

lemma pollRxLoop_endsAfter (length : ℕ) : EndsAfter ReadsId (· = .returned) (pollRxLoop length) := by
  have hputs : ∀ str, Only (fun o => ¬ ReadsId o) (uartPuts str) :=
    fun str => only_notReadsId (only_uartPuts (fun c => ⟨c, rfl⟩) str)
  have hb2x : ∀ n, Only (fun o => ¬ ReadsId o) (uartB2x n) :=
    fun n => only_notReadsId (only_uartB2x (fun c => ⟨c, rfl⟩) n)
  have hputc : ∀ c, Only (fun o => ¬ ReadsId o) (uartPutc c) :=
    fun c => only_notReadsId (only_uartPutc (fun c => ⟨c, rfl⟩) c)
  have hret : Ends (· = PollRx.returned) (.ret .returned : Driver PollRx) := rfl
  have hno : ∀ {o : Op}, (∀ i, o ≠ .usedId i) → ¬ ReadsId o := fun ho ⟨i, hi⟩ => ho i hi
  simp only [pollRxLoop, lastUsedIdx, usedIdx, size, usedId, usedLen, descAddr, op_bind, ret_bind, pure_eq]
  refine .op (hno (by simp)) fun l => .op (hno (by simp)) fun u => ?_
  by_cases hne : l ≠ u
  swap
  · rw [if_neg hne]
    trivial
  rw [if_pos hne]
  refine .bind (fun _ => .op (hno (by simp)) fun v => ?_) (hputs _)
  refine .bind (fun _ => .bind (fun _ => ?_) (hputc _)) (hb2x _)
  refine .op (hno (by simp)) fun m => .op (hno (by simp)) fun n => Ends.after fun d len r => ?_
  beta_reduce
  by_cases hge : d ≥ r
  · rw [if_pos hge]
    exact .bind (fun _ => hret) _
  · rw [if_neg hge]
    exact fun a => .bind (fun _ => .bind (fun _ => .bind (fun _ => .bind (fun _ => .bind (fun _ =>
      .bind (fun _ => hret) _) _) _) _) _) _

/-- In one call: an id has been read only if the call is sure to return. -/
lemma run_ends {length : ℕ} {p : Driver PollRx} {ls : List Turn}
    (hrun : Run (rxAny.Step RxAgain) (virtMmioNetPollRx length, { s with id := none }) ls (p, s')) :
    EndsAfter ReadsId (· = .returned) p ∧ ∀ d, s'.id = some d → Ends (· = .returned) p := by
  have hstart : EndsAfter ReadsId (· = .returned) (virtMmioNetPollRx length) := by
    unfold virtMmioNetPollRx
    refine .bind (fun _ => ?_) (only_notReadsId (only_uartPuts (fun c => ⟨c, rfl⟩) _))
    trivial
  refine hrun.invariant (P := fun c => EndsAfter ReadsId (· = .returned) c.1 ∧
    ∀ d, c.2.id = some d → Ends (· = .returned) c.1) ?_ ⟨hstart, fun d hd => by simp at hd⟩
  rintro ⟨p, s⟩ t ⟨p', s'⟩ hstep ⟨hafter, hends⟩
  cases hstep with
  | op o k =>
      refine ⟨(hafter _).1, fun d hd => ?_⟩
      by_cases ho : ReadsId o
      · exact (hafter _).2 ho
      · refine hends d ?_ _
        rw [← hd]
        cases o <;> first | rfl | exact absurd ⟨_, rfl⟩ ho
  | call s hcall =>
      cases hcall with
      | again n =>
          refine ⟨pollRxLoop_endsAfter n, fun d hd => ?_⟩
          exact absurd (hends d hd) (by simp [Ends])
  | env p henv =>
      refine ⟨hafter, fun d hd => hends d ?_⟩
      rw [← (RxAny.view_eq henv).2]
      exact hd

/-! ## Runs -/

lemma RxAnyStart.intact (h : RxAnyStart s) : s.Intact s.queue.buffers := by
  cases h with
  | @mk limit net net' l owned hs hinit =>
      rcases virtMmioNetVirtqInit_inv hs hinit with ⟨r₁, b₁, r₂, b₂, hi⟩
      refine ⟨rfl, hi.rx.size, fun i hlt => ?_⟩
      rw [RxAny.queue, hi.rx.buffers]
      exact hi.rx.desc i hlt

/-- **RX safety against an arbitrary device.**  In every run of polls from initialisation on, whatever
the device does to `used` and to the buffers and whenever it does it: the descriptors stay as they
were, every access of the driver is in bounds, and a poll that reads an invalid id is sure to return
and has not touched the driver's half of the queue. -/
theorem rx_safe (s₀ s : RxAny) (p : Driver PollRx) (ls : List Turn) (hstart : RxAnyStart s₀)
    (hrun : Run (rxAny.Step RxCall) (.ret .returned, s₀) ls (p, s)) :
    s.Intact s₀.queue.buffers ∧ (∀ o k, p = .op o k → s.Allowed o) ∧
    (p = .ret .returned → ∀ length q t ls',
      Run (rxAny.Step RxAgain) (virtMmioNetPollRx length, { s with id := none }) ls' (q, t) →
      ∀ d, t.id = some d → descQueueSize ≤ d → t.view = s.view ∧ Ends (· = .returned) q) := by
  let ok (o : Op) (t : RxAny) : Prop := t.Intact s₀.queue.buffers ∧ t.Allowed o
  let done (_ : PollRx) (t : RxAny) : Prop := t.Intact s₀.queue.buffers
  have hcall : ∀ a p t, RxCall a p → done a t → wp rxAny ok done p t := by
    intro a p t hc ht
    have hsafe : RxSafeAt s₀.queue.buffers t.view (fun w _ => w = t.view) t := ⟨ht, fun _ _ _ => rfl, rfl⟩
    have hweak : RxSafeWp s₀.queue.buffers t.view p t → wp rxAny ok done p t := by
      refine wp_mono (fun o u hu => ⟨hu.1, hu.2.1⟩) fun a u hu => ?_
      cases a with
      | returned => exact RxSafeAt.intact hu
      | again n => exact RxSafeAt.intact hu
    cases hc with
    | call length => exact hweak (rxSafeWp_virtMmioNetPollRx length hsafe)
    | again length => exact hweak (rxSafeWp_pollRxLoop length hsafe)
  have hat := Run.wp hcall hrun (wp_ret (RxAny.intact_stable _) hstart.intact)
  have hintact : s.Intact s₀.queue.buffers := by
    cases p with
    | ret a => exact hat
    | op o k => exact hat.1
  refine ⟨hintact, ?_, ?_⟩
  · rintro o k rfl
    exact hat.2
  · rintro rfl length q t ls' hpoll d hd hge
    refine ⟨?_, (run_ends hpoll).2 d hd⟩
    have hagain : ∀ a p t, RxAgain a p → rxSafeDone s₀.queue.buffers s.view a t →
        RxSafeWp s₀.queue.buffers s.view p t := by
      rintro a p t ⟨n⟩ ht
      exact rxSafeWp_pollRxLoop n ht
    have hbegin : RxSafeAt s₀.queue.buffers s.view (fun w _ => w = s.view) { s with id := none } :=
      ⟨⟨hintact.buffers, hintact.size, hintact.desc⟩, fun _ _ _ => rfl, rfl⟩
    have hend := Run.wp hagain hpoll (rxSafeWp_virtMmioNetPollRx length hbegin)
    cases q with
    | ret a =>
        cases a with
        | returned => exact RxSafeAt.kept hend d hd hge
        | again n => exact RxSafeAt.kept hend d hd hge
    | op o k => exact hend.2.2 d hd hge

/-- Printing, alone. -/
lemma print_rxAny {p : Driver PUnit} (hp : Only (fun o => ∃ c, o = .putc c) p) (s : RxAny) :
    ∃ out, p.run rxAny.exec s = (⟨⟩, { s with net := { s.net with out := out } }) := by
  obtain ⟨out, hout⟩ : ∃ out, (p.run rxAny.exec s).2 = { s with net := { s.net with out := out } } := by
    refine hp.run (P := fun t => ∃ out, t = { s with net := { s.net with out := out } }) ?_ ⟨s.net.out, rfl⟩
    rintro o ⟨c, rfl⟩ t ⟨out, rfl⟩
    exact ⟨out ++ [c], rfl⟩
  exact ⟨out, Prod.ext rfl hout⟩

/-- A round that meets an invalid id, alone. -/
lemma pollRxLoop_invalid (length : ℕ) (hnew : s.queue.lastUsedIdx ≠ s.virtq.usedIdx)
    (hid : (s.virtq.usedRing (s.queue.lastUsedIdx % s.queue.size)).id = d) (hd : s.queue.size ≤ d) :
    ∃ out, (pollRxLoop length).run rxAny.exec s = (.returned, ⟨{ s.net with out := out }, some d⟩) := by
  have hputc : ∀ c, ∃ c', Op.putc c = .putc c' := fun c => ⟨c, rfl⟩
  have hexec : ∀ o t, rxAny.exec o t = RxAny.exec o t := fun _ _ => rfl
  have hnew' : (s.net.queues .rx).lastUsedIdx ≠ (s.net.queues .rx).virtq.usedIdx := hnew
  simp only [pollRxLoop, lastUsedIdx, usedIdx, size, usedId, usedLen, descAddr, uartPutc, op_bind, ret_bind, pure_eq]
  simp only [Prog.run, hexec, RxAny.exec, RxAny.record, Op.exec]
  rw [if_pos hnew']
  obtain ⟨out₁, h₁⟩ := print_rxAny (only_uartPuts hputc "Device updated used index to: ") s
  rw [run_bind, h₁]
  simp only [Prog.run, hexec, RxAny.exec, RxAny.record, Op.exec]
  obtain ⟨out₂, h₂⟩ := print_rxAny (only_uartB2x hputc (s.net.queues .rx).virtq.usedIdx)
    { s with net := { s.net with out := out₁ } }
  rw [run_bind, h₂]
  simp only [Prog.run, hexec, RxAny.exec, RxAny.record, Op.exec]
  obtain ⟨out₃, h₃⟩ := print_rxAny (only_uartPuts hputc "Device returned an invalid RX descriptor.\n")
    ⟨{ s.net with out := out₂ ++ ['\n'] }, some d⟩
  have hid' : ((s.net.queues .rx).virtq.usedRing ((s.net.queues .rx).lastUsedIdx % (s.net.queues .rx).size)).id = d := hid
  rw [hid', if_pos (show d ≥ (s.net.queues .rx).size from hd), run_bind, h₃]
  exact ⟨out₃, rfl⟩

/-- The device fills `used` with invalid ids before the first poll, which reads one of them and returns. -/
theorem rx_safe_invalid_ids : ∃ s₀ s t ls, RxAnyStart s₀ ∧
    Run (rxAny.Step RxCall) (.ret .returned, s₀) [.environment] (.ret .returned, s) ∧
    Run (rxAny.Step RxAgain) (virtMmioNetPollRx 2048, { s with id := none }) ls (.ret .returned, t) ∧
    t.id = some (2 ^ 32 - 1) ∧ t.view = s.view ∧ s.Intact s₀.queue.buffers := by
  rcases queueLayout_init with ⟨limit, net, hinit⟩
  have hsplit : (NetState.boot (queueLayout.boot (fun _ => 0) true)).heap.Split _ _ :=
    queueLayout.boot_split (fun _ => 0) true
  have hstart : RxAnyStart ⟨net, none⟩ := .mk hsplit hinit
  obtain ⟨⟨-, -, -, hsize, hlast, -⟩, -⟩ := virtMmioNetVirtqInit_spec hsplit hinit
  let used : NetState :=
    net.setVirtq .rx { (net.queues .rx).virtq with usedIdx := 1, usedRing := fun _ => ⟨2 ^ 32 - 1, 2 ^ 32 - 1⟩ }
  have hqueue : used.queues .rx = _ := NetState.setVirtq_queues ..
  have hfill : rxAny.env ⟨net, none⟩ ⟨used, none⟩ := ⟨.used net .rx 1 fun _ => ⟨2 ^ 32 - 1, 2 ^ 32 - 1⟩, rfl⟩
  have hrun : Run (rxAny.Step RxCall) (.ret .returned, ⟨net, none⟩) [.environment] _ := .cons (.env _ hfill) (.nil _)
  have hpoll : rxAny.Can RxAgain (fun p t => p = .ret .returned ∧ t.id = some (2 ^ 32 - 1))
      (virtMmioNetPollRx 2048) ⟨used, none⟩ := by
    obtain ⟨out, hputs⟩ := print_rxAny (only_uartPuts (fun c => ⟨c, rfl⟩)
      "Polling for received data via Virtio Network Device...\n") ⟨used, none⟩
    have hid : ∀ i, ((used.queues .rx).virtq.usedRing i).id = 2 ^ 32 - 1 := fun i => by rw [hqueue]
    have hsize' : (used.queues .rx).size = 256 := (congrArg VirtioNetQueue.size hqueue).trans hsize
    have hnew : (used.queues .rx).lastUsedIdx ≠ (used.queues .rx).virtq.usedIdx := by
      rw [hqueue, hlast]
      exact zero_ne_one
    obtain ⟨out', hloop⟩ := pollRxLoop_invalid (s := ⟨{ used with out := out }, none⟩) 2048 hnew (hid _)
      (hsize'.trans_le (by decide))
    refine .bind ?_
    rw [hputs]
    refine .call (.again 2048) (.alone ?_)
    rw [hloop]
    exact .now ⟨rfl, rfl⟩
  obtain ⟨ls, ⟨_, t⟩, hpoll, rfl, hid⟩ := hpoll
  have hsafe := rx_safe _ _ _ _ hstart hrun
  exact ⟨_, _, t, ls, hstart, hrun, hpoll, hid, (hsafe.2.2 rfl _ _ _ _ hpoll _ hid (by decide)).1, hsafe.1⟩

end NetStack
