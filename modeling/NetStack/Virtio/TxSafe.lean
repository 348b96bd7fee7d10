import NetStack.Virtio.Tx

/-!
# The TX queue against an arbitrary device

The device may put anything into `used` between any two accesses of the driver.  The completion step
of `virt_mmio_net_tx` fetches the id of a used element twice, once to compare it with `size` and once
to index `in_use`; `checked` is the slot of an element between its two fetches.

`Refetched` is what has to be asked of the device: an id that has passed the check is valid when it is
fetched again.  Then every access is in bounds (`tx_safe`); where it is not, the driver writes past
the end of `in_use` (`tx_double_fetch`).
-/

namespace NetStack

open ByteMem Concurrent Transition

/-! ## The system -/

/-- The driver, the descriptor it has last found free, and the slot of the used element whose id it
has checked and will fetch again. -/
structure TxAny where
  net : NetState
  chosen : Option ℕ
  checked : Option ℕ

namespace TxAny

abbrev queue (s : TxAny) : VirtioNetQueue := s.net.queues .tx

abbrev virtq (s : TxAny) : Virtq := s.queue.virtq

def record (s : TxAny) : (o : Op) → o.Resp → TxAny
  | .inUse i, v => { s with chosen := if v = 0 then some i else none }
  | .usedId i, id => { s with checked := if s.checked = none ∧ id < descQueueSize then some i else none }
  | _, _ => s

def exec (o : Op) (s : TxAny) : o.Resp × TxAny :=
  let r := o.exec .tx s.net
  (r.1, { s.record o r.1 with net := r.2 })

/-- What the driver may do.  Every index is in bounds, so is every value put into `avail` or
`next_desc`, and memory is written in the buffer of the chosen descriptor. -/
def Allowed (o : Op) (s : TxAny) : Prop :=
  match o with
  | .inUse i | .setInUse i _ | .descAddr i | .setDescLen i _ | .setDescFlags i _ | .usedId i | .usedLen i =>
      i < descQueueSize
  | .setAvailRing i v => i < descQueueSize ∧ v < descQueueSize
  | .setNextDesc v => v < descQueueSize
  | .setByte a _ => ∃ d < descQueueSize, s.chosen = some d ∧ s.queue.buffers + d * queueBufSize ≤ a ∧
      a < s.queue.buffers + d * queueBufSize + queueBufSize
  | _ => True

/-- `next_desc` is in bounds, and so is the access the driver is about to make. -/
def Safe (p : Driver PUnit) (s : TxAny) : Prop :=
  s.queue.nextDesc < descQueueSize ∧ ∀ o k, p = .op o k → s.Allowed o

end TxAny

/-- The driver against an arbitrary device. -/
def txAny : Interference Op Op.Resp TxAny :=
  ⟨TxAny.exec, fun s s' => Havoc s.net s'.net ∧ s'.chosen = s.chosen ∧ s'.checked = s.checked⟩

/-- An id that is about to be fetched for the second time is still valid. -/
def Refetched (o : Op) (s : TxAny) : Prop :=
  match o with
  | .usedId i => s.checked = some i → (s.virtq.usedRing i).id < descQueueSize
  | _ => True

/-- The system right after the first successful `virt_mmio_net_virtq_init`. -/
inductive TxAnyStart : TxAny → Prop
  | mk {limit : ℕ} {s s' : NetState} {l owned : List ℕ} (hs : s.heap.Split l owned)
      (huse : ∀ d, (s.queues .tx).inUse d = 0)
      (h : virtMmioNetVirtqInit limit s = some (s', true)) : TxAnyStart ⟨s', none, none⟩

/-! ## The invariant -/

variable {b d : ℕ} {k k' : TxView → Option ℕ → Option ℕ → Prop} {s s' : TxAny}

def TxAny.view (s : TxAny) : TxView :=
  ⟨s.queue.lastUsedIdx, s.queue.nextDesc, s.queue.size, s.queue.inUse, s.virtq.availIdx,
    s.virtq.availRing, s.virtq.desc⟩

/-- The buffers are at `b`, the driver's fields are in range, and `k` is known. -/
structure TxSafeAt (b : ℕ) (k : TxView → Option ℕ → Option ℕ → Prop) (s : TxAny) : Prop where
  buffers : s.queue.buffers = b
  size : s.queue.size = descQueueSize
  nextDesc : s.queue.nextDesc < descQueueSize
  addr : ∀ i < descQueueSize, (s.virtq.desc i).addr = b + i * queueBufSize
  known : k s.view s.chosen s.checked

lemma TxSafeAt.stable (b : ℕ) (k : TxView → Option ℕ → Option ℕ → Prop) : txAny.Stable (TxSafeAt b k) := by
  rintro s s' ⟨henv, hchosen, hchecked⟩ h
  rcases henv.queue .tx with ⟨idx, ring, heq⟩
  refine ⟨?_, ?_, ?_, ?_, ?_⟩
  · rw [TxAny.queue, heq]
    exact h.buffers
  · rw [TxAny.queue, heq]
    exact h.size
  · rw [TxAny.queue, heq]
    exact h.nextDesc
  · rw [TxAny.virtq, TxAny.queue, heq]
    exact h.addr
  · have hview : s'.view = s.view := by simp only [TxAny.view, TxAny.virtq, TxAny.queue, heq]
    rw [hview, hchosen, hchecked]
    exact h.known

lemma TxSafeAt.mono (h : TxSafeAt b k s) (hk : k s.view s.chosen s.checked → k' s.view s.chosen s.checked) :
    TxSafeAt b k' s := ⟨h.buffers, h.size, h.nextDesc, h.addr, hk h.known⟩

/-- Between the calls of the driver. -/
def txIdle (_ : TxView) (_ checked : Option ℕ) : Prop := checked = none

/-- What holds whenever the driver is about to make an access. -/
def txSafeOk (o : Op) (s : TxAny) : Prop := s.queue.nextDesc < descQueueSize ∧ s.Allowed o

abbrev TxSafeWp (A : Op → TxAny → Prop) (b : ℕ) (p : Driver PUnit) (s : TxAny) : Prop :=
  wpUnder txAny A txSafeOk (fun _ => TxSafeAt b txIdle) p s

variable {A : Op → TxAny → Prop}

lemma txSafeWp_op {o : Op} {f : o.Resp → Driver PUnit} (h : TxSafeAt b k s)
    (hok : ∀ t, TxSafeAt b k t → t.Allowed o)
    (hf : ∀ t, TxSafeAt b k t → TxSafeWp A b (f (TxAny.exec o t).1) (TxAny.exec o t).2) : TxSafeWp A b (.op o f) s :=
  wp_op (TxSafeAt.stable b k) h fun t ht => ⟨⟨ht.nextDesc, hok t ht⟩, fun _ => hf t ht⟩

lemma txSafeWp_size {f : ℕ → Driver PUnit} (h : TxSafeAt b k s)
    (hf : ∀ t, TxSafeAt b k t → TxSafeWp A b (f descQueueSize) t) : TxSafeWp A b (.op .size f) s := by
  refine txSafeWp_op h (fun _ _ => trivial) fun t ht => ?_
  rw [show (TxAny.exec .size t).1 = descQueueSize from ht.size]
  exact hf t ht

lemma TxSafeAt.putc (h : TxSafeAt b k s) (c : Char) : TxSafeAt b k (TxAny.exec (.putc c) s).2 :=
  ⟨h.buffers, h.size, h.nextDesc, h.addr, h.known⟩

lemma txSafeWp_puts {str : String} {f : PUnit → Driver PUnit} (h : TxSafeAt b k s)
    (hf : ∀ t, TxSafeAt b k t → TxSafeWp A b (f ⟨⟩) t) : TxSafeWp A b (uartPuts str >>= f) s := by
  have honly : Only (fun o => ∃ c, o = .putc c) (uartPuts str) := only_uartPuts (fun c => ⟨c, rfl⟩) str
  refine wp_bind (wp_of_only (TxSafeAt.stable b k) ?_ (fun _ t ht => hf t ht) honly h)
  rintro o ⟨c, rfl⟩ t ht
  exact ⟨⟨ht.nextDesc, trivial⟩, ht.putc c⟩

/-- A message is the last thing a failing call does. -/
lemma txSafeWp_puts_end {str : String} (h : TxSafeAt b txIdle s) : TxSafeWp A b (uartPuts str) s := by
  have honly : Only (fun o => ∃ c, o = .putc c) (uartPuts str) := only_uartPuts (fun c => ⟨c, rfl⟩) str
  refine wp_of_only (TxSafeAt.stable b txIdle) ?_ (fun _ _ ht => ht) honly h
  rintro o ⟨c, rfl⟩ t ht
  exact ⟨⟨ht.nextDesc, trivial⟩, ht.putc c⟩

/-! ## `virt_mmio_net_send` -/

/-- `d` has been found free. -/
def txChosen (d : ℕ) (_ : TxView) (chosen checked : Option ℕ) : Prop := chosen = some d ∧ checked = none

/-- The search stays in `in_use`. -/
lemma txSafeWp_searchDesc {f : ℕ → Driver PUnit}
    (hf : ∀ d t, d < descQueueSize → TxSafeAt b txIdle t → TxSafeWp A b (f d) t) :
    ∀ (n : ℕ) {d : ℕ} {s : TxAny}, d < descQueueSize → TxSafeAt b txIdle s → TxSafeWp A b (searchDesc n d >>= f) s
  | 0, d, s, hd, h => hf d s hd h
  | n + 1, d, s, hd, h => by
      simp only [searchDesc, inUse, size, op_bind, ret_bind]
      refine txSafeWp_op h (fun _ _ => hd) fun t ht => ?_
      have ht' : TxSafeAt b txIdle (TxAny.exec (.inUse d) t).2 :=
        ⟨ht.buffers, ht.size, ht.nextDesc, ht.addr, ht.known⟩
      split_ifs
      · exact hf d _ hd ht'
      · simp only [op_bind]
        exact txSafeWp_size ht' fun u hu => txSafeWp_searchDesc hf n (Nat.mod_lt _ (by decide)) hu

/-- The packet is copied into the buffer of the chosen descriptor. -/
lemma txSafeWp_memCopy {f : PUnit → Driver PUnit} {data length : ℕ} (hd : d < descQueueSize) (hlen : length ≤ queueBufSize)
    (h : TxSafeAt b (txChosen d) s) (hf : ∀ t, TxSafeAt b (txChosen d) t → TxSafeWp A b (f ⟨⟩) t) :
    TxSafeWp A b (memCopy (b + d * queueBufSize) data length >>= f) s := by
  have honly : Only (fun o => (∃ a, o = .byte a) ∨ ∃ i < queueBufSize, ∃ v, o = .setByte (b + d * queueBufSize + i) v)
      (memCopy (b + d * queueBufSize) data length) := by
    refine Only.forM fun i hi => ⟨.inl ⟨_, rfl⟩, fun v => ⟨.inr ⟨i, ?_, v, rfl⟩, fun _ => trivial⟩⟩
    exact (List.mem_range.mp hi).trans_le hlen
  refine wp_bind (wp_of_only (TxSafeAt.stable _ _) ?_ (fun _ t ht => hf t ht) honly h)
  rintro o (⟨a, rfl⟩ | ⟨i, hi, v, rfl⟩) t ht
  · exact ⟨⟨ht.nextDesc, trivial⟩, ht⟩
  · refine ⟨⟨ht.nextDesc, d, hd, ht.known.1, ?_⟩, ⟨ht.buffers, ht.size, ht.nextDesc, ht.addr, ht.known⟩⟩
    rw [ht.buffers]
    omega

/-- Fields the driver writes besides `next_desc`: the invariant does not depend on them. -/
lemma TxSafeAt.written (h : TxSafeAt b k s) (hbuf : s'.queue.buffers = s.queue.buffers)
    (hsize : s'.queue.size = s.queue.size) (hnext : s'.queue.nextDesc < descQueueSize)
    (haddr : ∀ i, (s'.virtq.desc i).addr = (s.virtq.desc i).addr) (hk : k' s'.view s'.chosen s'.checked) :
    TxSafeAt b k' s' :=
  ⟨hbuf.trans h.buffers, hsize.trans h.size, hnext, fun i hi => (haddr i).trans (h.addr i hi), hk⟩

/-- Changing one field of a descriptor other than its address. -/
lemma addr_update (desc : ℕ → VirtqDesc) (d : ℕ) (e : VirtqDesc) (he : e.addr = (desc d).addr) (i : ℕ) :
    (Function.update desc d e i).addr = (desc i).addr := by
  by_cases hi : i = d
  · subst hi
    rw [Function.update_self, he]
  · rw [Function.update_of_ne hi]

/-- What follows the copying of the packet. -/
lemma txSafeWp_virtMmioNetSend (data length : ℕ) (h : TxSafeAt b txIdle s) :
    TxSafeWp A b (virtMmioNetSend data length) s := by
  simp only [virtMmioNetSend, nextDesc, size, inUse, descAddr, setDescLen, setDescFlags, availIdx,
    setAvailRing, setInUse, setNextDesc, setAvailIdx, virtMmioNotify, op_bind, ret_bind]
  refine txSafeWp_puts h fun t₁ h₁ => ?_
  split_ifs with hlong
  · exact txSafeWp_puts_end h₁
  have hlen : length ≤ queueBufSize := not_lt.mp hlong
  refine txSafeWp_op h₁ (fun _ _ => trivial) fun t₂ h₂ => txSafeWp_size h₂ fun t₃ h₃ => ?_
  refine txSafeWp_searchDesc (fun d t₄ hd h₄ => ?_) _ h₂.nextDesc h₃
  refine txSafeWp_op h₄ (fun _ _ => hd) fun t₅ h₅ => ?_
  have h₅' : TxSafeAt b txIdle (TxAny.exec (.inUse d) t₅).2 :=
    ⟨h₅.buffers, h₅.size, h₅.nextDesc, h₅.addr, h₅.known⟩
  split_ifs with huse
  · exact txSafeWp_puts_end h₅'
  have hzero : t₅.queue.inUse d = 0 := not_not.mp huse
  have hchosen : TxSafeAt b (txChosen d) (TxAny.exec (.inUse d) t₅).2 :=
    h₅'.mono fun hk => ⟨if_pos hzero, hk⟩
  refine txSafeWp_op hchosen (fun _ _ => hd) fun t₆ h₆ => ?_
  rw [show (TxAny.exec (.descAddr d) t₆).1 = b + d * queueBufSize from h₆.addr d hd]
  refine txSafeWp_memCopy hd hlen h₆ fun t₇ h₇ => ?_
  refine txSafeWp_op h₇ (fun _ _ => hd) fun t₈ h₈ => ?_
  have h₈' : TxSafeAt b (txChosen d) (TxAny.exec (.setDescLen d length) t₈).2 :=
    h₈.written rfl rfl h₈.nextDesc (addr_update _ d _ rfl) h₈.known
  refine txSafeWp_op h₈' (fun _ _ => hd) fun t₉ h₉ => ?_
  have h₉' : TxSafeAt b (txChosen d) (TxAny.exec (.setDescFlags d 0) t₉).2 :=
    h₉.written rfl rfl h₉.nextDesc (addr_update _ d _ rfl) h₉.known
  refine txSafeWp_op h₉' (fun _ _ => trivial) fun t₁₀ h₁₀ => txSafeWp_size h₁₀ fun t₁₁ h₁₁ => ?_
  refine txSafeWp_op h₁₁ (fun _ _ => ⟨Nat.mod_lt _ (by decide), hd⟩) fun t₁₂ h₁₂ => ?_
  have h₁₂' : ∀ a, TxSafeAt b (txChosen d) (TxAny.exec (.setAvailRing a d) t₁₂).2 :=
    fun a => h₁₂.written rfl rfl h₁₂.nextDesc (fun _ => rfl) h₁₂.known
  refine txSafeWp_op (h₁₂' _) (fun _ _ => hd) fun t₁₃ h₁₃ => ?_
  have h₁₃' : TxSafeAt b (txChosen d) (TxAny.exec (.setInUse d 1) t₁₃).2 :=
    h₁₃.written rfl rfl h₁₃.nextDesc (fun _ => rfl) h₁₃.known
  have hnext : (d + 1) % descQueueSize < descQueueSize := Nat.mod_lt _ (by decide)
  refine txSafeWp_size h₁₃' fun t₁₄ h₁₄ => txSafeWp_op h₁₄ (fun _ _ => hnext) fun t₁₅ h₁₅ => ?_
  have h₁₅' : TxSafeAt b (txChosen d) (TxAny.exec (.setNextDesc ((d + 1) % descQueueSize)) t₁₅).2 :=
    h₁₅.written rfl rfl hnext (fun _ => rfl) h₁₅.known
  refine txSafeWp_op h₁₅' (fun _ _ => trivial) fun t₁₆ h₁₆ => ?_
  refine txSafeWp_op h₁₆ (fun _ _ => trivial) fun t₁₇ h₁₇ => ?_
  have h₁₇' : ∀ a, TxSafeAt b txIdle (TxAny.exec (.setAvailIdx a) t₁₇).2 :=
    fun a => h₁₇.written rfl rfl h₁₇.nextDesc (fun _ => rfl) h₁₇.known.2
  refine txSafeWp_op (h₁₇' _) (fun _ _ => trivial) fun t₁₈ h₁₈ => wp_ret (TxSafeAt.stable _ _) ?_
  exact h₁₈.written rfl rfl h₁₈.nextDesc (fun _ => rfl) h₁₈.known

/-! ## The completion step of `virt_mmio_net_tx` -/

/-- The first fetch: it is recorded whether the id passes the check. -/
lemma TxSafeAt.usedId (i : ℕ) (h : TxSafeAt b txIdle s) :
    TxSafeAt b (fun _ _ c => c = if (s.virtq.usedRing i).id < descQueueSize then some i else none)
      (TxAny.exec (.usedId i) s).2 := by
  have hnone : s.checked = none := h.known
  refine ⟨h.buffers, h.size, h.nextDesc, h.addr, ?_⟩
  by_cases hlt : (s.virtq.usedRing i).id < descQueueSize
  · rw [if_pos hlt]
    exact if_pos ⟨hnone, hlt⟩
  · rw [if_neg hlt]
    exact if_neg fun hc => hlt hc.2

/-- The second fetch. -/
lemma TxSafeAt.usedId_again {i : ℕ} (h : TxSafeAt b (fun _ _ c => c = some i) s) :
    TxSafeAt b txIdle (TxAny.exec (.usedId i) s).2 := by
  have hsome : s.checked = some i := h.known
  refine ⟨h.buffers, h.size, h.nextDesc, h.addr, ?_⟩
  simp [txIdle, TxAny.exec, TxAny.record, hsome]

/-- `last_used_idx` follows. -/
lemma txSafeWp_done {f : PUnit → Driver PUnit} (h : TxSafeAt b txIdle s)
    (hf : ∀ t, TxSafeAt b txIdle t → TxSafeWp A b (f ⟨⟩) t) :
    TxSafeWp A b (.op .lastUsedIdx fun l => .op (.setLastUsedIdx ((l + 1) % 2 ^ 16)) f) s := by
  refine txSafeWp_op h (fun _ _ => trivial) fun t₁ h₁ => txSafeWp_op h₁ (fun _ _ => trivial) fun t₂ h₂ => hf _ ?_
  exact h₂.written rfl rfl h₂.nextDesc (fun _ => rfl) h₂.known

/-- **One round of the completion loop.**  Between the two fetches the element is `checked`. -/
lemma txSafeWp_reclaimTx (h : TxSafeAt b txIdle s) : TxSafeWp Refetched b (reclaimTx >>= fun _ => pure ⟨⟩) s := by
  simp only [reclaimTx, lastUsedIdx, usedIdx, size, usedId, setInUse, setLastUsedIdx, op_bind, ret_bind, pure_eq]
  refine txSafeWp_op h (fun _ _ => trivial) fun t₁ h₁ => txSafeWp_op h₁ (fun _ _ => trivial) fun t₂ h₂ => ?_
  split_ifs with hne
  swap
  · exact wp_ret (TxSafeAt.stable _ _) h₂
  rw [bind_bind]
  refine txSafeWp_puts h₂ fun t₃ h₃ => ?_
  simp only [op_bind]
  refine txSafeWp_op h₃ (fun _ _ => trivial) fun t₄ h₄ => txSafeWp_size h₄ fun t₅ h₅ => ?_
  generalize hi : (TxAny.exec .lastUsedIdx t₄).1 % descQueueSize = i
  have hslot : i < descQueueSize := hi ▸ Nat.mod_lt _ (by decide)
  refine txSafeWp_op h₅ (fun _ _ => hslot) fun t₆ h₆ => ?_
  have hret : ∀ t, TxSafeAt b txIdle t → TxSafeWp Refetched b (.ret ⟨⟩) t := fun t ht => wp_ret (TxSafeAt.stable _ _) ht
  have h₆' := h₆.usedId i
  by_cases hlt : (t₆.virtq.usedRing i).id < descQueueSize
  · rw [if_pos hlt] at h₆'
    refine txSafeWp_size h₆' fun t₇ h₇ => ?_
    have hid : (TxAny.exec (.usedId i) t₆).1 < descQueueSize := hlt
    rw [if_pos hid]
    -- the device has had time to change the id
    refine wp_op (TxSafeAt.stable _ _) h₇ fun t₈ h₈ => ⟨⟨h₈.nextDesc, hslot⟩, fun hvalid => ?_⟩
    have hid' : (TxAny.exec (.usedId i) t₈).1 < descQueueSize := hvalid h₈.known
    refine txSafeWp_op h₈.usedId_again (fun _ _ => hid') fun t₉ h₉ => ?_
    exact txSafeWp_done (h₉.written rfl rfl h₉.nextDesc (fun _ => rfl) h₉.known) hret
  · rw [if_neg hlt] at h₆'
    refine txSafeWp_size h₆' fun t₇ h₇ => ?_
    have hid : ¬ (TxAny.exec (.usedId i) t₆).1 < descQueueSize := hlt
    rw [if_neg hid]
    exact txSafeWp_done h₇ hret

/-! ## Runs -/

lemma Initialised.txIdle {net net' : NetState} {owned : List ℕ} {r₁ b₁ r₂ b₂ : ℕ}
    (hi : Initialised net net' owned r₁ b₁ r₂ b₂) : TxSafeAt (net'.queues .tx).buffers txIdle ⟨net', none, none⟩ := by
  refine ⟨rfl, hi.tx.size, ?_, fun i hlt => ?_, rfl⟩
  · rw [TxAny.queue, hi.tx.nextDesc]
    decide
  · rw [hi.tx.buffers]
    exact (hi.tx.desc i hlt).1

lemma TxAnyStart.idle (h : TxAnyStart s) : TxSafeAt s.queue.buffers txIdle s := by
  cases h with
  | mk hs huse hinit =>
      rcases virtMmioNetVirtqInit_inv hs hinit with ⟨r₁, b₁, r₂, b₂, hi⟩
      exact hi.txIdle

/-- **TX safety.**  In every run of sends and completion steps from initialisation on, whatever the
device does to `used`, as long as each id that the driver has checked is valid when it is fetched
again: `next_desc` and every access of the driver are in bounds. -/
theorem tx_safe (s₀ s : TxAny) (p : Driver PUnit) (ls : List Turn) (hstart : TxAnyStart s₀)
    (hrun : Run (txAny.StepUnder Refetched TxCall) (.ret ⟨⟩, s₀) ls (p, s)) : TxAny.Safe p s := by
  have hcall : ∀ a p t, TxCall a p → TxSafeAt s₀.queue.buffers txIdle t → TxSafeWp Refetched s₀.queue.buffers p t := by
    intro a p t hc ht
    cases hc with
    | send data length => exact txSafeWp_virtMmioNetSend data length ht
    | reclaim => exact txSafeWp_reclaimTx ht
  have hat := Run.wpUnder hcall hrun (wp_ret (TxSafeAt.stable _ _) hstart.idle)
  cases p with
  | ret a => exact ⟨TxSafeAt.nextDesc hat, by rintro o k ⟨⟩⟩
  | op o k =>
      refine ⟨hat.1, ?_⟩
      rintro o' k' ⟨⟩
      exact hat.2

/-- The driver does not write the used ring. -/
lemma Op.exec_usedRing (q : QueueIndex) (o : Op) (s : NetState) :
    ((o.exec q s).2.queues q).virtq.usedRing = (s.queues q).virtq.usedRing := by
  cases o <;> simp [Op.exec, NetState.setVirtq, NetState.setQueue]

/-- Alone, a piece of the driver does to its data what it does against a conforming device. -/
lemma run_tx {α : Type} (p : Driver α) (s : TxAny) {t : TxSys} (h : t.net = s.net) :
    (p.run txAny.exec s).2.net = (p.run tx.exec t).2.net := by
  have hany : p.run (Op.exec .tx) s.net = ((p.run txAny.exec s).1, (p.run txAny.exec s).2.net) :=
    run_map (f := TxAny.net) (fun _ _ => rfl) p s
  have htx : p.run (Op.exec .tx) t.net = ((p.run tx.exec t).1, (p.run tx.exec t).2.net) :=
    run_map (f := TxSys.net) (fun _ _ => rfl) p t
  rw [h, hany] at htx
  exact congrArg Prod.snd htx

/-- The device completes descriptor 2, which the driver has never sent: both fetches find a valid id, and the round
goes through. -/
theorem tx_safe_unsent : ∃ s₀ s ls, TxAnyStart s₀ ∧ Run (txAny.StepUnder Refetched TxCall) (.ret ⟨⟩, s₀) ls (.ret ⟨⟩, s) ∧
    s.virtq.availIdx = 0 ∧ s.virtq.usedIdx = 1 ∧ (s.virtq.usedRing 0).id = 2 ∧ s.queue.lastUsedIdx = 1 ∧
    TxAny.Safe (.ret ⟨⟩) s := by
  rcases queueLayout_init with ⟨limit, net, hinit⟩
  have hsplit : (NetState.boot (queueLayout.boot (fun _ => 0) true)).heap.Split _ _ :=
    queueLayout.boot_split (fun _ => 0) true
  have hstart : TxAnyStart ⟨net, none, none⟩ := .mk hsplit (fun _ => rfl) hinit
  obtain ⟨-, hfresh, -⟩ := virtMmioNetVirtqInit_spec hsplit hinit
  let used : NetState := net.setVirtq .tx { (net.queues .tx).virtq with usedIdx := 1, usedRing := fun _ => ⟨2, 0⟩ }
  have hqueue : used.queues .tx = _ := NetState.setVirtq_queues ..
  have henv : txAny.env ⟨net, none, none⟩ ⟨used, none, none⟩ := ⟨.used net .tx 1 fun _ => ⟨2, 0⟩, rfl, rfl⟩
  -- the ring keeps its valid ids for the whole round
  have hkeep : ∀ o (t : TxAny), t.virtq.usedRing = (fun _ => ⟨2, 0⟩) →
      Refetched o t ∧ (txAny.exec o t).2.virtq.usedRing = fun _ => ⟨2, 0⟩ := by
    intro o t ht
    refine ⟨?_, (Op.exec_usedRing .tx o t.net).trans ht⟩
    cases o <;> simp [Refetched, ht]
  obtain ⟨ls, hround⟩ : ∃ ls, Run (txAny.StepUnder Refetched TxCall) _ ls _ :=
    Run.alone hkeep (reclaimTx >>= fun _ => pure ⟨⟩) (s := ⟨used, none, none⟩)
      (congrArg (fun q : VirtioNetQueue => q.virtq.usedRing) hqueue)
  have hrun : Run (txAny.StepUnder Refetched TxCall) (.ret ⟨⟩, ⟨net, none, none⟩) _ _ :=
    .cons ⟨.env _ henv, by simp⟩ (.cons ⟨.call _ .reclaim, by simp⟩ hround)
  have hsafe := tx_safe _ _ _ _ hstart hrun
  have hnew : (used.queues .tx).lastUsedIdx ≠ (used.queues .tx).virtq.usedIdx := by
    rw [hqueue, hfresh.lastUsedIdx]
    exact zero_ne_one
  have hid : ((used.queues .tx).virtq.usedRing ((used.queues .tx).lastUsedIdx % 256)).id = 2 := by rw [hqueue]
  obtain ⟨net', hreclaim, hqueue'⟩ := reclaimTx_tx (s := ⟨used, .reset, none, 0, []⟩)
    ((congrArg VirtioNetQueue.size hqueue).trans hfresh.size) rfl hnew hid (by decide)
  have hend := run_tx (reclaimTx >>= fun _ => pure ⟨⟩ : Driver PUnit) ⟨used, none, none⟩ (t := ⟨used, .reset, none, 0, []⟩) rfl
  rw [run_bind tx.exec, hreclaim] at hend
  refine ⟨_, _, _, hstart, hrun, ?_⟩
  simp only [TxAny.virtq, TxAny.queue]
  rw [hend]
  simp only [Prog.run, pure_eq, hqueue', TxSys.queue, hqueue, hfresh.lastUsedIdx, hfresh.availIdx]
  exact ⟨trivial, trivial, trivial, rfl, hsafe⟩

/-- Text on its way to the UART is nothing to the queues. -/
lemma uartPuts_run (str : String) (s : TxAny) : ((uartPuts str).run txAny.exec s).2.net.queues = s.net.queues := by
  have honly : Only (fun o => ∃ c, o = .putc c) (uartPuts str) := only_uartPuts (fun c => ⟨c, rfl⟩) str
  refine honly.run (P := fun t : TxAny => t.net.queues = s.net.queues) ?_ rfl
  rintro o ⟨c, rfl⟩ t ht
  exact ht

/-- The driver gets to its second fetch. -/
lemma can_reclaimTx {P : Driver PUnit → TxAny → Prop} (hnew : s.queue.lastUsedIdx ≠ s.virtq.usedIdx)
    (hpass : ∀ i, (s.virtq.usedRing i).id < s.queue.size)
    (h : ∀ (t : TxAny) (i : ℕ) (k : PUnit → Driver PUnit), t.net.queues = s.net.queues →
      txAny.Can TxCall P (.op (.usedId i) fun id => .op (.setInUse id 0) k) t) :
    txAny.Can TxCall P (reclaimTx >>= fun _ => pure ⟨⟩) s := by
  simp only [reclaimTx, lastUsedIdx, usedIdx, size, usedId, setInUse, setLastUsedIdx, op_bind, ret_bind, pure_eq]
  refine .op (.op (.cond hnew ?_))
  rw [bind_bind]
  refine .bind ?_
  simp only [op_bind]
  have hkeep := uartPuts_run "Device processed TX descriptor.\n" s
  have hvalid : ∀ i, (((uartPuts "Device processed TX descriptor.\n").run txAny.exec s).2.virtq.usedRing i).id <
      ((uartPuts "Device processed TX descriptor.\n").run txAny.exec s).2.queue.size := by
    intro i
    rw [TxAny.virtq, TxAny.queue, hkeep]
    exact hpass i
  refine .op (.op (.op (.op (.cond (hvalid _) ?_))))
  simp only [op_bind, ret_bind]
  exact h _ _ (fun _ => .op .lastUsedIdx fun l => .op (.setLastUsedIdx ((l + 1) % 2 ^ 16)) fun _ => .ret ⟨⟩) hkeep

/-- **The double fetch.**  The device completes descriptor 0 and, once the driver has compared its id
with `size`, puts 256 in its place: the driver is about to write past the end of `in_use`. -/
theorem tx_double_fetch :
    ∃ s₀ s p ls, TxAnyStart s₀ ∧ Run (txAny.Step TxCall) (.ret ⟨⟩, s₀) ls (p, s) ∧
      (∃ k, p = .op (.setInUse 256 0) k) ∧ ¬ TxAny.Safe p s := by
  rcases queueLayout_init with ⟨limit, net, hinit⟩
  have hsplit : (NetState.boot (queueLayout.boot (fun _ => 0) true)).heap.Split _ _ :=
    queueLayout.boot_split (fun _ => 0) true
  have hstart : TxAnyStart ⟨net, none, none⟩ := .mk hsplit (fun _ => rfl) hinit
  rcases virtMmioNetVirtqInit_inv hsplit hinit with ⟨r₁, b₁, r₂, b₂, hi⟩
  have hcan : txAny.Can TxCall (fun p _ => ∃ k, p = .op (.setInUse 256 0) k) (.ret ⟨⟩)
      ⟨net, none, none⟩ := by
    have hdone : txAny.env ⟨net, none, none⟩ ⟨_, none, none⟩ := ⟨.used net .tx 1 fun _ => ⟨0, 0⟩, rfl, rfl⟩
    refine .env hdone (.call .reclaim (can_reclaimTx ?_ (fun i => ?_) fun t i k _ => ?_))
    · show (net.queues .tx).lastUsedIdx ≠ 1
      rw [hi.tx.lastUsedIdx]
      decide
    · show 0 < (net.queues .tx).size
      rw [hi.tx.size]
      decide
    · have hchange : txAny.env t ⟨_, t.chosen, t.checked⟩ := ⟨.used t.net .tx 1 fun _ => ⟨256, 0⟩, rfl, rfl⟩
      exact .env hchange (.op (.now ⟨_, rfl⟩))
  rcases hcan with ⟨ls, ⟨p, s⟩, hrun, k, rfl⟩
  refine ⟨_, s, _, ls, hstart, hrun, ⟨k, rfl⟩, fun hsafe => ?_⟩
  exact absurd (hsafe.2 _ _ rfl) (by simp [TxAny.Allowed])

end NetStack
