import NetStack.Virtio.Packet

/-!
# What `virt_mmio_net_tx` waits for

A whole call of `virt_mmio_net_tx`, begun in any state of the TX queue that sends, earlier calls and the device can
lead to.  The call builds its packet, hands it to `virt_mmio_net_send` and waits for the used ring to move.

Two things go wrong in between.  `virt_mmio_net_send` may publish nothing, and the wait looks at the next used
element whoever it belongs to: the call reports its own packet only on a queue with nothing outstanding
(`tx_reports_own_packet`).  And it is not the packet that is sent but the payload it was built from
(`tx_never_sends_packet`).
-/

namespace NetStack

open ByteMem LinkedChain Concurrent Transition Relation

/-! ## Reachable states -/

/-- The heap as `mem_alloc` leaves it. -/
def TxSys.withHeap (s : TxSys) (h : Heap) : TxSys := { s with net := { s.net with heap := h } }

/-- A call that touches the TX queue, from entry to return, a move of the device, or anything that leaves the TX
queue alone. -/
inductive TxNetStep : TxSys → TxSys → Prop
  | send {s s' : TxSys} {data length : ℕ} {ls : List Turn}
      (hrun : Run (tx.Step fun _ _ => False) (virtMmioNetSend data length, s) ls (.ret ⟨⟩, s')) : TxNetStep s s'
  | tx {limit : ℕ} {s s' : TxSys} {data length packet : ℕ} {h' : Heap} {ls : List Turn}
      (h : memAlloc limit s.net.heap (txSize length) = some (h', packet)) (hp : packet ≠ 0)
      (hrun : Run (tx.Step TxAgain) (virtMmioNetTx packet data length, s.withHeap h') ls
        (.ret true, s')) : TxNetStep s s'
  | device {s s' : TxSys} (h : TxDevice s s') : TxNetStep s s'
  | others {s : TxSys} {net : NetState} (h : net.queues .tx = s.net.queues .tx) : TxNetStep s { s with net := net }

/-- A state of the TX queue some time after the first initialisation. -/
def TxReachable (s : TxSys) : Prop := ∃ s₀, TxStart s₀ ∧ ReflTransGen TxNetStep s₀ s

/-- What a call of `virt_mmio_net_tx` in `s` can get to once it has memory for its packet; without, it returns `-1` at
once. -/
inductive TxRuns (s : TxSys) (data length : ℕ) (p : Driver Bool) (s' : TxSys) : Prop
  | mk {packet : ℕ} {h' : Heap} {ls : List Turn} (halloc : MemAllocReturns s.net.heap (txSize length) (h', packet))
      (hp : packet ≠ 0)
      (hrun : Run (tx.Step TxAgain) (virtMmioNetTx packet data length, s.withHeap h') ls (p, s'))

/-- `mem_alloc` has a block for the packet. -/
def TxGetsMemory (s : TxSys) (length : ℕ) : Prop :=
  ∃ packet h', MemAllocReturns s.net.heap (txSize length) (h', packet) ∧ packet ≠ 0

/-! ## The invariant -/

variable {φ : TxPhase} {s s' : TxSys} {k : TxView → Prop} {a d n data length : ℕ} {use : ℕ → ℕ}

/-- Only the TX queue matters. -/
lemma TxAt.of_tx (h : TxAt φ s) {net : NetState} (hq : net.queues .tx = s.net.queues .tx) :
    TxAt φ { s with net := net } := by
  have hview : TxSys.view { s with net := net } = s.view := by simp only [TxSys.view, TxSys.virtq, TxSys.queue, hq]
  obtain ⟨hshared, hcur, hread, hsize, hlast, hdesc, hbit, hfresh, hlaid, hknown⟩ := h
  rw [← hview] at hknown
  simp only [TxSys.virtq, TxSys.queue, TxSys.free, ← hq] at hshared hread hsize hlast hdesc hbit hfresh hlaid
  exact ⟨hshared, hcur, hread, hsize, hlast, hdesc, hbit, hfresh, hlaid, hknown⟩

/-- The driver's fields when the packet has been allocated. -/
lemma TxAt.withHeap (h : TxAt (.idle k) s) (h' : Heap) :
    TxAt (.idle (sending s.virtq.availIdx s.queue.inUse)) (s.withHeap h') := by
  have hheap : TxAt (.idle k) (s.withHeap h') := h.of_tx rfl
  exact hheap.mono fun _ => ⟨rfl, rfl⟩

/-- A piece of the driver, with nothing asked of its accesses. -/
abbrev TxFree (Q : Bool → TxSys → Prop) (p : Driver Bool) (s : TxSys) : Prop := wp tx (fun _ _ => True) Q p s

lemma TxAt.memOp (h : TxAt φ s) {o : Op} (ho : MemOp o) : TxAt φ (tx.exec o s).2 := by
  rcases ho with ⟨b, rfl⟩ | ⟨b, v, rfl⟩
  · exact h
  · exact h.setByte b v

/-- **`virt_mmio_net_tx` up to its loop.**  The packet may be written over anything but the queues. -/
lemma txFree_virtMmioNetTx (packet data length : ℕ) (h : TxAt (.idle (sending a use)) s) :
    TxFree (fun b t => b = false ∧ TxAt (.idle (sent a use length)) t) (virtMmioNetTx packet data length) s := by
  rw [virtMmioNetTx_eq]
  refine wp_bind (wp_of_only (TxAt.stable _) (fun o ho t ht => ⟨trivial, TxAt.memOp ht ho⟩) (fun _ t ht => ?_)
    (only_buildTxPacket ..) h)
  refine wp_bind (wp_mono (fun _ _ _ => trivial) (fun _ t' ht' => ?_) (txPost_virtMmioNetSend data length ht))
  refine wp_bind (wp_mono (fun _ _ _ => trivial) (fun _ t₂ ht₂ => ?_) (txWp_puts_end ht'))
  exact wp_ret (fun _ _ henv hq => ⟨hq.1, TxAt.stable _ _ _ henv hq.2⟩) ⟨rfl, ht₂⟩

/-- Between calls the queue is idle. -/
lemma TxReachable.idle (h : TxReachable s) : TxAt (.idle fun _ => True) s := by
  obtain ⟨s₀, hstart, hsteps⟩ := h
  induction hsteps with
  | refl => exact hstart.idle
  | tail _ hstep ih =>
      cases hstep with
      | send hrun => exact Run.wp (fun _ _ _ hr _ => absurd hr not_false) hrun (txWp_virtMmioNetSend _ _ ih)
      | @tx _ _ _ data length packet h' _ _ _ hrun =>
          have hcall : ∀ b p u, TxAgain b p → TxAt (.idle fun _ => True) u →
              TxFree (fun _ => TxAt (.idle fun _ => True)) p u := by
            rintro b p u ⟨⟩ hu
            exact wp_mono (fun _ _ _ => trivial) (fun _ _ hv => hv) (txPost_reclaimTx hu)
          exact Run.wp hcall hrun (wp_mono (fun _ _ hok => hok) (fun _ _ hu => hu.2.mono fun _ => trivial)
            (txFree_virtMmioNetTx packet data length (ih.withHeap h')))
      | device henv => exact TxAt.stable _ _ _ henv ih
      | others hq => exact ih.of_tx hq

/-! ## The wait -/

/-- At least `n` completions have been released. -/
def Released (n : ℕ) (s : TxSys) : Prop := n ≤ s.reclaimed.length

lemma Released.stable (n : ℕ) : tx.Stable (Released n) := by
  rintro t t' ⟨-⟩ ht
  exact ht

lemma Released.exec (h : Released n s) (o : Op) : Released n (tx.exec o s).2 := by
  cases o with
  | usedId i =>
      simp only [tx, TxSys.exec, TxSys.record, Released]
      split_ifs
      · exact h
      · rw [List.length_append]
        exact Nat.le_add_right_of_le h
  | _ => exact h

/-- The completion a round has taken up is one of those after the first `n`. -/
lemma TxAt.latched_mem {u : VirtqUsedElem} (h : TxAt (.latched u k) s) (hn : Released n s) :
    u ∈ s.dev.made.drop n := by
  rcases h.shared with ⟨log, hshared, hlog⟩
  have hlen : n ≤ log.length := by
    rw [← List.length_map (f := (·.id)), hlog]
    exact hn
  rw [hshared.made_eq, List.append_assoc, List.drop_append_of_le_length hlen]
  exact List.mem_append_right _ (List.mem_append_left _ (List.mem_singleton_self u))

/-- And its descriptor is in use. -/
lemma TxAt.latched_inUse {u : VirtqUsedElem} (h : TxAt (.latched u k) s) : u.id < 256 ∧ s.queue.inUse u.id ≠ 0 := by
  rcases h.shared with ⟨log, hshared, -⟩
  have hlt : u.id < 256 := hshared.mem_lt List.mem_cons_self
  refine ⟨hlt, fun hzero => ?_⟩
  have hnd := (List.nodup_append.mp h.nodup).2.1
  exact (List.nodup_cons.mp hnd).1 (TxSys.mem_free.mpr ⟨hlt, hzero⟩)

/-- The accesses of a round after it has taken a completion up. -/
def AfterLatch (o : Op) : Prop :=
  o = .size ∨ o = .lastUsedIdx ∨ (∃ i, o = .usedId i) ∨ (∃ i, o = .setInUse i 0) ∨ ∃ v, o = .setLastUsedIdx v

/-- What a round has established: `D` if it has taken a completion up, nothing new if it has not. -/
def roundDone (D : TxSys → Prop) (k : TxView → Prop) (n : ℕ) : Bool → TxSys → Prop
  | true, t => D t
  | false, t => TxAt (.idle k) t ∧ Released n t

/-- **A round of the loop.** -/
lemma txFree_reclaimTx {D : TxSys → Prop} (hD : tx.Stable D) (hop : ∀ o, AfterLatch o → ∀ t, D t → D (tx.exec o t).2)
    (hlatch : ∀ t u, TxAt (.latched u k) t → Released n t → D t) (h : TxAt (.idle k) s) (hn : Released n s) :
    TxFree (roundDone D k n) reclaimTx s := by
  have hat : ∀ φ, tx.Stable fun t => TxAt φ t ∧ Released n t :=
    fun φ _ _ henv ht => ⟨TxAt.stable φ _ _ henv ht.1, Released.stable n _ _ henv ht.2⟩
  have hstep : ∀ {o : Op} {f : o.Resp → Driver Bool} {t : TxSys}, AfterLatch o → D t →
      (∀ r t', D t' → TxFree (roundDone D k n) (f r) t') → TxFree (roundDone D k n) (.op o f) t :=
    fun ho ht hf => wp_op hD ht fun t' ht' => ⟨trivial, fun _ => hf _ _ (hop _ ho _ ht')⟩
  have hend : ∀ t, D t → TxFree (roundDone D k n) (.ret true) t := fun t ht => wp_ret hD ht
  simp only [reclaimTx, lastUsedIdx, usedIdx, size, usedId, setInUse, setLastUsedIdx, op_bind, ret_bind, pure_eq]
  refine wp_op (hat _) ⟨h, hn⟩ fun t₁ h₁ => ⟨trivial, fun _ => ?_⟩
  generalize hl : (tx.exec .lastUsedIdx t₁).1 = l
  have h₁' : TxAt (.idle fun w => k w ∧ w.lastUsedIdx = l) t₁ := h₁.1.mono fun hk => ⟨hk, hl⟩
  refine wp_op (hat _) ⟨h₁', h₁.2⟩ fun t₂ h₂ => ⟨trivial, fun _ => ?_⟩
  split_ifs with hne
  swap
  · exact wp_ret (hat _) ⟨h₂.1.mono And.left, h₂.2⟩
  have honly : Only (fun o => ∃ c, o = .putc c) (uartPuts "Device processed TX descriptor.\n") :=
    only_uartPuts (fun c => ⟨c, rfl⟩) _
  refine wp_bind (wp_of_only (hat _) ?_ (fun _ t₃ h₃ => ?_) honly ⟨h₂.1.ready_of_ne hne, h₂.2⟩)
  · rintro o ⟨c, rfl⟩ t ht
    exact ⟨trivial, ht.1.putc c, ht.2.exec _⟩
  refine wp_op (hat _) h₃ fun t₄ h₄ => ⟨trivial, fun _ => ?_⟩
  generalize hm : (tx.exec .lastUsedIdx t₄).1 = m
  have h₄' : TxAt (.ready fun w => k w ∧ w.lastUsedIdx = m) t₄ := h₄.1.mono fun hk => ⟨hk, hm⟩
  refine wp_op (hat _) ⟨h₄', h₄.2⟩ fun t₅ h₅ => ⟨trivial, fun _ => ?_⟩
  rw [show (tx.exec .size t₅).1 = descQueueSize from h₅.1.size]
  -- the completion is taken up here, and whatever is read again `D` holds from now on
  refine wp_op (hat _) h₅ fun t₆ h₆ => ⟨trivial, fun _ => ?_⟩
  have hslot : t₆.queue.lastUsedIdx = m := h₆.1.known.2
  have htaken := (TxAt.usedId_first h₆.1).2
  rw [hslot] at htaken
  have hd := hlatch _ _ (htaken.mono And.left) (h₆.2.exec _)
  refine hstep (.inl rfl) hd fun r t₇ h₇ => ?_
  split_ifs
  · refine hstep (.inr (.inr (.inl ⟨_, rfl⟩))) h₇ fun i t₈ h₈ => ?_
    refine hstep (.inr (.inr (.inr (.inl ⟨_, rfl⟩)))) h₈ fun _ t₉ h₉ => ?_
    exact hstep (.inr (.inl rfl)) h₉ fun x t h => hstep (.inr (.inr (.inr (.inr ⟨_, rfl⟩)))) h fun _ t' h' => hend t' h'
  · exact hstep (.inr (.inl rfl)) h₇ fun x t h => hstep (.inr (.inr (.inr (.inr ⟨_, rfl⟩)))) h fun _ t' h' => hend t' h'

/-- **What a call has established** when it waits and when it returns. -/
lemma TxRuns.done {D : TxSys → Prop} {b : Bool} (hruns : TxRuns s data length (.ret b) s') (hD : tx.Stable D)
    (hop : ∀ o, AfterLatch o → ∀ t, D t → D (tx.exec o t).2)
    (hlatch : ∀ t u, TxAt (.latched u (sent s.virtq.availIdx s.queue.inUse length)) t → Released n t → D t)
    (h : TxAt (.idle k) s) (hn : Released n s) :
    roundDone D (sent s.virtq.availIdx s.queue.inUse length) n b s' := by
  obtain ⟨-, -, hrun⟩ := hruns
  rename_i packet h' ls
  have hcall : ∀ b p t, TxAgain b p → roundDone D (sent s.virtq.availIdx s.queue.inUse length) n b t →
      TxFree (roundDone D (sent s.virtq.availIdx s.queue.inUse length) n) p t := by
    rintro b p t ⟨⟩ ht
    exact txFree_reclaimTx hD hop hlatch ht.1 ht.2
  have hstart : TxFree (roundDone D (sent s.virtq.availIdx s.queue.inUse length) n) (virtMmioNetTx packet data length)
      (s.withHeap h') := by
    refine wp_mono (fun _ _ hok => hok) ?_ (wp_and (Released.stable n) (fun o t _ ht => ht.exec o)
      (txFree_virtMmioNetTx packet data length (h.withHeap h')) hn)
    rintro b t ⟨⟨rfl, ht⟩, hn⟩
    exact ⟨ht, hn⟩
  exact Run.wp hcall hrun hstart

/-! ## Whose packet -/

/-- A descriptor has been published in the slot of `a`, and the device has returned it among its completions from the
`n`-th on. -/
def Returned (a n : ℕ) (s : TxSys) : Prop :=
  s.virtq.availIdx = (a + 1) % 2 ^ 16 ∧ ∃ u ∈ s.dev.made.drop n, u.id = s.virtq.availRing (a % descQueueSize)

/-- A call begun in `s` has got to `p`: it waits for a descriptor it has published, and it has returned because that
descriptor has been. -/
structure OwnPacket (s : TxSys) (p : Driver Bool) (s' : TxSys) : Prop where
  waits : p = .ret false → s'.virtq.availIdx = (s.virtq.availIdx + 1) % 2 ^ 16
  returned : p = .ret true → Returned s.virtq.availIdx s.dev.made.length s'

lemma Returned.stable (a n : ℕ) : tx.Stable (Returned a n) := by
  rintro t t' ⟨hstep⟩ ⟨hidx, u, hu, hid⟩
  obtain ⟨havail, hring, -⟩ := hstep.avail
  refine ⟨?_, u, ?_, ?_⟩
  · rw [TxSys.virtq, TxSys.queue, NetState.setVirtq_queues, havail]
    exact hidx
  · cases hstep with
    | publish _ _ v hp =>
        rw [List.drop_append]
        exact List.mem_append_left _ hu
    | _ => exact hu
  · rw [TxSys.virtq, TxSys.queue, NetState.setVirtq_queues, hring]
    exact hid

lemma Returned.afterLatch {o : Op} (ho : AfterLatch o) (h : Returned a n s) : Returned a n (tx.exec o s).2 := by
  rcases ho with rfl | rfl | ⟨i, rfl⟩ | ⟨i, rfl⟩ | ⟨v, rfl⟩
  · exact h
  · exact h
  · simp only [tx, TxSys.exec, TxSys.record]
    split_ifs
    · exact h
    · exact h
  · exact h
  · exact h

/-- On a queue with nothing outstanding all completions have been released. -/
lemma TxAt.all_released (h : TxAt (.idle k) s) (hfree : ∀ d < 256, s.queue.inUse d = 0) :
    Released s.dev.made.length s := by
  rcases h.shared with ⟨log, hshared, hlog⟩
  have hall : s.free = List.range descQueueSize := by
    refine List.filter_eq_self.mpr fun d hd => ?_
    rw [decide_eq_true_eq]
    exact hfree d (List.mem_range.mp hd)
  have hcount := hshared.count
  have hlen : ((TxPhase.idle k).extra ++ s.free).length = 256 := by
    rw [TxPhase.idle, List.nil_append, hall, List.length_range, descQueueSize_eq]
  have hnone : completed s.virtq s.nextRead = [] := by
    rw [completed, show gap s.nextRead s.virtq.usedIdx = 0 by omega]
    rfl
  have hmade := hshared.made_eq
  rw [hnone, List.append_nil] at hmade
  rw [Released, hmade, ← hlog, List.length_map]
  exact (congrArg List.length (List.append_nil log)).le

/-- With every descriptor free a send publishes. -/
lemma sent.published {w : TxView} (h : sent a use length w) (hlen : length ≤ 2048) (hfree : ∀ d < 256, use d = 0) :
    w.availIdx = (a + 1) % 2 ^ 16 ∧ ∀ d < 256, w.inUse d ≠ 0 → d = w.availRing (a % descQueueSize) := by
  rcases h with ⟨-, hlong | ⟨d, hd, huse⟩⟩ | ⟨hidx, -, d, -, -, hmarks, hring, -⟩
  · exact absurd hlen (not_le.mpr hlong)
  · exact absurd (hfree d hd) huse
  · refine ⟨hidx, fun e he hused => ?_⟩
    rw [hmarks] at hused
    by_contra hne
    rw [hring] at hne
    rw [Function.update_of_ne hne] at hused
    exact hused (hfree e he)

/-- **The condition is enough.** -/
lemma ownPacket_of_fresh (h : TxAt (.idle k) s) (hlen : length ≤ 2048) (hfree : ∀ d < 256, s.queue.inUse d = 0)
    {p : Driver Bool} (hruns : TxRuns s data length p s') : OwnPacket s p s' := by
  have hdone : ∀ b, p = .ret b → roundDone (Returned s.virtq.availIdx s.dev.made.length)
      (sent s.virtq.availIdx s.queue.inUse length) s.dev.made.length b s' := by
    rintro b rfl
    refine hruns.done (Returned.stable _ _) (fun o ho t ht => Returned.afterLatch ho ht) (fun t u ht hn => ?_) h
      (h.all_released hfree)
    obtain ⟨hidx, hown⟩ := sent.published ht.known hlen hfree
    exact ⟨hidx, u, ht.latched_mem hn, hown u.id ht.latched_inUse.1 ht.latched_inUse.2⟩
  constructor
  · intro hp
    exact (sent.published (hdone false hp).1.known hlen hfree).1
  · intro hp
    exact hdone true hp

/-! ### Somebody else's completion -/

/-- The device can see to it that a completion is there to be read, and none of those made from now on is of `d`. -/
def OtherFirst (d : ℕ) (s : TxSys) : Prop := ∃ t, ReflTransGen tx.env s t ∧ t.nextRead ≠ t.virtq.usedIdx ∧
  ∀ u ∈ t.dev.made.drop s.dev.made.length, u.id ≠ d

/-- One access of the device. -/
lemma exists_env {v : Virtq} {dev : Device} (h : DeviceStep (s.virtq, s.dev) (v, dev)) :
    ∃ t, tx.env s t ∧ t.virtq = v ∧ t.dev = dev ∧ t.nextRead = s.nextRead :=
  ⟨_, .ring h, congrArg VirtioNetQueue.virtq (NetState.setVirtq_queues ..), rfl, rfl⟩

lemma OtherFirst.head {t : TxSys} (h : OtherFirst d t) (henv : tx.env s t) (hmade : t.dev.made = s.dev.made) :
    OtherFirst d s := by
  obtain ⟨t', hsteps, hread, hother⟩ := h
  exact ⟨t', .head henv hsteps, hread, hmade ▸ hother⟩

/-- An element it has written and not published. -/
lemma OtherFirst.of_pending (h : TxAt φ s) (hread : s.nextRead = s.virtq.usedIdx) {u : VirtqUsedElem}
    (hp : s.dev.pending = some u) (hu : u.id ≠ d) : OtherFirst d s := by
  rcases h.shared with ⟨log, hshared, -⟩
  have hlt := hshared.usedLt
  obtain ⟨t, henv, hv, hdev, hnr⟩ := exists_env (.publish s.virtq s.dev u hp)
  refine ⟨t, .single henv, ?_, fun w hw => ?_⟩
  · rw [hv, hnr, hread]
    show s.virtq.usedIdx ≠ (s.virtq.usedIdx + 1) % 2 ^ 16
    omega
  · rw [hdev, List.drop_left, List.mem_singleton] at hw
    rw [hw]
    exact hu

/-- A descriptor it holds. -/
lemma OtherFirst.of_held (h : TxAt φ s) (hread : s.nextRead = s.virtq.usedIdx) (hheld : s.dev.held ≠ [])
    (hd : d ∉ s.dev.held) : OtherFirst d s := by
  rcases h.shared with ⟨log, hshared, -⟩
  cases hp : s.dev.pending with
  | some u => exact .of_pending h hread hp fun hu => hd (hu ▸ (hshared.pend u hp).1)
  | none =>
      obtain ⟨x, hx⟩ := List.exists_mem_of_ne_nil _ hheld
      obtain ⟨t, henv, hv, hdev, hnr⟩ := exists_env (.writeUsed s.virtq s.dev ⟨x, 0⟩ hx hp)
      have hread' : t.nextRead = t.virtq.usedIdx := by
        rw [hv, hnr]
        exact hread
      have hp' : t.dev.pending = some ⟨x, 0⟩ := by rw [hdev]
      refine OtherFirst.head (.of_pending (TxAt.stable φ _ _ henv h) hread' hp' fun hxd => ?_) henv (by rw [hdev])
      exact hd (hxd ▸ hx)

/-- The oldest entry of `avail`. -/
lemma OtherFirst.of_offered (h : TxAt φ s) (hread : s.nextRead = s.virtq.usedIdx) (hheld : s.dev.held = [])
    {x : ℕ} {l : List ℕ} (hoff : offered s.virtq s.dev = x :: l) (hx : x ≠ d) : OtherFirst d s := by
  have hnext : s.dev.next ≠ s.virtq.availIdx := by
    intro heq
    rw [offered, heq, gap, Nat.add_sub_cancel_left, Nat.mod_self] at hoff
    exact absurd hoff (List.cons_ne_nil _ _).symm
  have hfirst : s.virtq.availRing (s.dev.next % descQueueSize) = x := by
    have hpos := congrArg List.length hoff
    rw [offered, Ring.length_window, List.length_cons] at hpos
    rw [offered, hpos, Ring.window_cons] at hoff
    exact (List.cons.inj hoff).1
  obtain ⟨t₁, henv₁, hv₁, hdev₁, hnr₁⟩ := exists_env (.readAvail s.virtq s.dev)
  have hne : t₁.dev.next ≠ t₁.dev.seen := by
    rw [hdev₁]
    exact hnext
  obtain ⟨t₂, henv₂, hv₂, hdev₂, hnr₂⟩ := exists_env (.take t₁.virtq t₁.dev hne)
  have h₂ := TxAt.stable φ _ _ henv₂ (TxAt.stable φ _ _ henv₁ h)
  have hread₂ : t₂.nextRead = t₂.virtq.usedIdx := by
    rw [hnr₂, hnr₁, hv₂, hv₁]
    exact hread
  have hheld₂ : t₂.dev.held = [x] := by
    rw [hdev₂, hdev₁, hv₁, hheld, hfirst]
    rfl
  have hmade₁ : t₁.dev.made = s.dev.made := by rw [hdev₁]
  have hmade₂ : t₂.dev.made = t₁.dev.made := by rw [hdev₂]
  refine OtherFirst.head (OtherFirst.head (.of_held h₂ hread₂ ?_ ?_) henv₂ hmade₂) henv₁ hmade₁
  · rw [hheld₂]
    exact List.cons_ne_nil _ _
  · rw [hheld₂, List.mem_singleton]
    exact hx.symm

/-- **Another outstanding descriptor comes first**, if `d` is the last that is offered. -/
lemma TxAt.otherFirst (h : TxAt φ s) {e : ℕ} (he : e ∈ s.outstanding) (hne : e ≠ d) (hd : d ∉ s.dev.held)
    {l : List ℕ} (hlast : offered s.virtq s.dev = l ++ [d]) : OtherFirst d s := by
  by_cases hread : s.nextRead = s.virtq.usedIdx
  swap
  · refine ⟨s, .refl, hread, fun u hu => ?_⟩
    rw [List.drop_length] at hu
    exact absurd hu List.not_mem_nil
  by_cases hheld : s.dev.held = []
  swap
  · exact .of_held h hread hheld hd
  -- nothing is completed or held, so `e` is offered before `d`
  have hnone : completed s.virtq s.nextRead = [] := by
    rw [completed, hread, gap, Nat.add_sub_cancel_left, Nat.mod_self]
    rfl
  have hmem : e ∈ l := by
    rw [TxSys.outstanding, hnone, hheld, hlast] at he
    simpa [hne] using he
  have hnd : (l ++ [d]).Nodup := by
    have hout := (List.nodup_append.mp h.nodup).1
    rw [TxSys.outstanding, List.append_assoc] at hout
    exact hlast ▸ (List.nodup_append.mp hout).1
  obtain ⟨x, l', rfl⟩ := List.exists_cons_of_ne_nil (List.ne_nil_of_mem hmem)
  refine .of_offered h hread hheld hlast fun hx => ?_
  exact (List.nodup_cons.mp hnd).1 (List.mem_append_right _ (List.mem_singleton.mpr hx))

/-! ### A call left alone -/

lemma dev_exec (o : Op) (s : TxSys) : (tx.exec o s).2.dev = s.dev := by
  cases o with
  | usedId i =>
      simp only [tx, TxSys.exec, TxSys.record]
      split_ifs
      · rfl
      · rfl
  | _ => rfl

lemma dev_run : ∀ (p : Driver Bool) (s : TxSys), (p.run tx.exec s).2.dev = s.dev
  | .ret _, _ => rfl
  | .op o k, s => (dev_run (k _) (tx.exec o s).2).trans (dev_exec o s)

/-- A round that finds a completion ends the call. -/
lemma reclaimTx_run (h : s.queue.lastUsedIdx ≠ s.virtq.usedIdx) : (reclaimTx.run tx.exec s).1 = true := by
  simp only [reclaimTx, lastUsedIdx, usedIdx, size, usedId, setInUse, setLastUsedIdx, op_bind, ret_bind, pure_eq,
    Prog.run]
  have hnew : (tx.exec .lastUsedIdx s).1 ≠ (tx.exec .usedIdx (tx.exec .lastUsedIdx s).2).1 := h
  rw [if_pos hnew]
  refine Ends.run (R := fun b => b = true) _ (Ends.bind (fun _ => ?_) _)
  intro l m id r
  beta_reduce
  split_ifs
  · exact fun _ _ _ _ => rfl
  · exact fun _ _ => rfl

/-- **The call gets to its loop.** -/
lemma TxGetsMemory.waits (hmem : TxGetsMemory s length) (h : TxAt (.idle k) s) (data : ℕ) :
    ∃ t, TxRuns s data length (.ret false) t ∧ t.dev = s.dev ∧
      TxAt (.idle (sent s.virtq.availIdx s.queue.inUse length)) t ∧
      ∀ P : Driver Bool → TxSys → Prop, tx.Can TxAgain P (.ret false) t →
        ∃ p t', TxRuns s data length p t' ∧ P p t' := by
  obtain ⟨packet, h', halloc, hp⟩ := hmem
  have hpost := wp_run (txFree_virtMmioNetTx packet data length (h.withHeap h'))
  have hdev := dev_run (virtMmioNetTx packet data length) (s.withHeap h')
  have hcan : ∀ P : Driver Bool → TxSys → Prop,
      tx.Can TxAgain P (.ret ((virtMmioNetTx packet data length).run tx.exec (s.withHeap h')).1)
        ((virtMmioNetTx packet data length).run tx.exec (s.withHeap h')).2 →
          ∃ p t', TxRuns s data length p t' ∧ P p t' := by
    intro P hP
    obtain ⟨ls, c, hrun, hc⟩ := hP.alone
    exact ⟨c.1, c.2, .mk halloc hp hrun, hc⟩
  generalize (virtMmioNetTx packet data length).run tx.exec (s.withHeap h') = r at hpost hdev hcan
  obtain ⟨b, t⟩ := r
  obtain ⟨rfl, ht⟩ : b = false ∧ _ := hpost
  obtain ⟨p, t', hruns, rfl, rfl⟩ := hcan (fun p u => p = .ret false ∧ u = t) (.now ⟨rfl, rfl⟩)
  exact ⟨t', hruns, hdev, ht, hcan⟩

/-- The slot of `a` is not touched by a round. -/
lemma availRing_reclaimTx (h : TxAt (.idle fun w => w.availRing (a % descQueueSize) = d) s)
    (hnew : s.nextRead ≠ s.virtq.usedIdx) :
    (reclaimTx.run tx.exec s).1 = true ∧ (reclaimTx.run tx.exec s).2.virtq.availRing (a % descQueueSize) = d := by
  have hstable : tx.Stable fun t => t.virtq.availRing (a % descQueueSize) = d := by
    intro t t' henv ht
    have hview := congrArg TxView.availRing henv.view
    exact (congrFun hview _).trans ht
  have hkeep : ∀ o, AfterLatch o → ∀ t : TxSys, t.virtq.availRing (a % descQueueSize) = d →
      (tx.exec o t).2.virtq.availRing (a % descQueueSize) = d := by
    rintro o (rfl | rfl | ⟨i, rfl⟩ | ⟨i, rfl⟩ | ⟨v, rfl⟩) t ht <;> exact ht
  have hlatch : ∀ t u, TxAt (.latched u fun w => w.availRing (a % descQueueSize) = d) t → Released 0 t →
      t.virtq.availRing (a % descQueueSize) = d := fun t u ht _ => ht.known
  have hdone := wp_run (txFree_reclaimTx hstable hkeep hlatch h (Nat.zero_le _))
  have hread : s.nextRead = s.queue.lastUsedIdx := by
    rw [h.nextRead]
    exact Nat.mod_eq_of_lt h.lastLt
  have htrue := reclaimTx_run (hread ▸ hnew)
  rw [htrue] at hdone
  exact ⟨htrue, hdone⟩

/-- **And it is needed.**  With something else outstanding the call can return on that. -/
lemma not_ownPacket (h : TxAt (.idle k) s) (hmem : TxGetsMemory s length) (data : ℕ)
    (hbad : 2048 < length ∨ ∃ d < 256, s.queue.inUse d ≠ 0) :
    ∃ p s', TxRuns s data length p s' ∧ ¬ OwnPacket s p s' := by
  obtain ⟨t, hruns, hdev, ht, hcan⟩ := hmem.waits h data
  rcases h.shared with ⟨log, hshared, -⟩
  have halt := hshared.availLt
  rcases ht.known with ⟨hidx, -⟩ | ⟨hidx, hlen, d, hd, huse, hmarks, hring, -⟩
  · refine ⟨_, t, hruns, fun hown => ?_⟩
    have hpub := hown.waits rfl
    have hsame : t.virtq.availIdx = s.virtq.availIdx := hidx
    omega
  obtain ⟨e, he, hused⟩ := hbad.resolve_left (not_lt.mpr hlen)
  have hne : e ≠ d := by
    rintro rfl
    exact hused huse
  have hone : t.queue.inUse e = 1 := by
    refine (congrFun hmarks e).trans ?_
    rw [Function.update_of_ne hne]
    exact (h.bit e he).resolve_left hused
  have hheld : d ∉ t.dev.held := by
    rw [hdev]
    intro hin
    exact h.notMem_outstanding (TxSys.mem_free.mpr ⟨hd, huse⟩)
      (List.mem_append_left _ (List.mem_append_right _ hin))
  have hnext : t.dev.next < 2 ^ 16 := by
    rw [hdev]
    exact hshared.nextLt
  have hroom : gap t.dev.next s.virtq.availIdx ≤ 256 := by
    have hcount := hshared.count
    rw [hdev]
    omega
  have hlast := offered_last hnext halt hroom hidx hring
  obtain ⟨t', hsteps, hnew, hother⟩ := ht.otherFirst ((ht.inUse_iff he).mp hone) hne hheld hlast
  have ht' : TxAt (.idle fun w => w.availRing (s.virtq.availIdx % descQueueSize) = d) t' := by
    refine (TxAt.stable _).star hsteps (ht.mono fun _ => ?_)
    exact hring
  obtain ⟨htrue, hslot⟩ := availRing_reclaimTx ht' hnew
  have hdev' := dev_run reclaimTx t'
  refine hcan (fun p u => ¬ OwnPacket s p u) (.envs hsteps (.call .again (.alone (.now fun hown => ?_))))
  obtain ⟨-, u, hu, hid⟩ := hown.returned (congrArg Prog.ret htrue)
  rw [hdev', ← hdev] at hu
  exact hother u hu (hid.trans hslot)

/-- **Whose completion `virt_mmio_net_tx` reports.**  In every reachable state of the TX queue and for every payload:
the call waits only for a descriptor it has published and returns `0` only on the completion of that descriptor, in
every run against a conforming device, if and only if it gets no memory, or the payload fits a buffer and no
descriptor is in use. -/
theorem tx_reports_own_packet (s : TxSys) (hs : TxReachable s) (data length : ℕ) :
    (∀ p s', TxRuns s data length p s' → OwnPacket s p s') ↔
      (TxGetsMemory s length → length ≤ queueBufSize ∧ ∀ d < descQueueSize, s.queue.inUse d = 0) := by
  constructor
  · intro hall hmem
    by_contra hnot
    have hbad : 2048 < length ∨ ∃ d < 256, s.queue.inUse d ≠ 0 := by
      by_contra hno
      push Not at hno
      exact hnot hno
    obtain ⟨p, s', hruns, hown⟩ := not_ownPacket hs.idle hmem data hbad
    exact hown (hall p s' hruns)
  · intro hcond p s' hruns
    obtain ⟨hlen, hfree⟩ : length ≤ 2048 ∧ ∀ d < 256, s.queue.inUse d = 0 := by
      obtain ⟨halloc, hp, -⟩ := hruns
      exact hcond ⟨_, _, halloc, hp⟩
    exact ownPacket_of_fresh hs.idle hlen hfree hruns

/-- A TX queue that has just been set up, with memory for a packet of one page. -/
lemma exists_txStart : ∃ s, TxStart s ∧ (∀ d, s.queue.inUse d = 0) ∧
    ∀ length, 0 < txSize length → pageCount (txSize length) = 1 → TxGetsMemory s length := by
  rcases doubleLayout_init with ⟨limit, net, a, owned, hinit, hsplit⟩
  have hboot : (NetState.boot (doubleLayout.boot (fun _ => 0) true)).heap.Split _ _ :=
    doubleLayout.boot_split (fun _ => 0) true
  have hzero : ∀ d, ((NetState.boot (doubleLayout.boot (fun _ => 0) true)).queues .tx).inUse d = 0 := fun _ => rfl
  generalize NetState.boot (doubleLayout.boot (fun _ => 0) true) = start at hinit hboot hzero
  refine ⟨⟨net, .reset, none, 0, []⟩, .mk hboot hzero hinit, fun d => ?_, fun length hpos hone => ?_⟩
  · rw [TxSys.queue, (virtMmioNetVirtqInit_spec hboot hinit).2.2]
    exact hzero d
  · have hcount : net.heap.freePageCount = 260 := by
      rw [hsplit.free.count]
      simp [blockPages]
    have hfree : 0 < net.heap.freePageCount := by omega
    refine ⟨_, _, ⟨0, memAlloc_one hpos hone hfree 0⟩, fun hnil => ?_⟩
    have hchain := hsplit.free.chain
    rw [hnil] at hchain
    have hempty := congrArg List.length (hchain.unique (isChain_nil.mpr rfl))
    simp [blockPages] at hempty

lemma TxStart.reachable (h : TxStart s) : TxReachable s := ⟨s, h, .refl⟩

/-- A payload of 60 bytes on a fresh queue. -/
theorem tx_reports_own_packet_fresh : ∃ s, TxReachable s ∧ TxGetsMemory s 60 ∧
    ∀ p s', TxRuns s 0x80004000 60 p s' → OwnPacket s p s' := by
  obtain ⟨s, hstart, hzero, hmem⟩ := exists_txStart
  refine ⟨s, hstart.reachable, hmem 60 (by decide) (by decide), ?_⟩
  exact (tx_reports_own_packet s hstart.reachable 0x80004000 60).mpr fun _ => ⟨by decide, fun d _ => hzero d⟩

/-- **Waiting for nothing.**  A payload of 2049 bytes is not sent, and the call waits all the same. -/
theorem tx_waits_for_nothing : ∃ s s', TxReachable s ∧ TxRuns s 0x80004000 2049 (.ret false) s' ∧
    s'.virtq.availIdx = s.virtq.availIdx ∧ ¬ OwnPacket s (.ret false) s' := by
  obtain ⟨s, hstart, -, hmem⟩ := exists_txStart
  obtain ⟨t, hruns, -, ht, -⟩ := (hmem 2049 (by decide) (by decide)).waits hstart.idle 0x80004000
  have hidx : t.virtq.availIdx = s.virtq.availIdx := by
    rcases ht.known with ⟨hsame, -⟩ | ⟨-, hlen, -⟩
    · exact hsame
    · exact absurd hlen (by decide)
  refine ⟨s, t, hstart.reachable, hruns, hidx, fun hown => ?_⟩
  have hpub := hown.waits rfl
  omega

/-! ## What is sent -/

/-- The descriptor published by a call that began in `s` holds the packet: its length is that of the packet, and its
buffer has the virtio header, all zero, the Ethernet header, the ARP reply and the payload. -/
structure PacketSent (s s' : TxSys) (data length : ℕ) : Prop where
  published : s'.virtq.availIdx = (s.virtq.availIdx + 1) % 2 ^ 16
  sent : ∃ desc, desc = s'.virtq.desc (s'.virtq.availRing (s.virtq.availIdx % descQueueSize)) ∧
    desc.len = 54 + length ∧ (∀ i < sizeofVirtioNetHdr, s'.net.heap.mem (desc.addr + i) = 0) ∧
    ethHdrAt s'.net.heap.mem (desc.addr + 12) = ⟨broadcastMac, ownMac, ntohs ethPIp⟩ ∧
    ArpReplyAt s'.net.heap.mem (desc.addr + 26) ownMac (ntohl myIp) broadcastMac 0 ∧
    ∀ i < length, s'.net.heap.mem (desc.addr + 54 + i) = s.net.heap.mem (data + i)

/-- What has been published has the length of the payload. -/
lemma not_packetSent (h : sent s.virtq.availIdx s.queue.inUse length s'.view) (data : ℕ) :
    ¬ PacketSent s s' data length := by
  rintro ⟨hpub, desc, rfl, hlen, -⟩
  rcases h with ⟨hidx, -⟩ | ⟨-, -, d, -, -, -, hring, hpayload⟩
  · have hsame : s'.virtq.availIdx = s.virtq.availIdx := hidx
    have hmoved : (s.virtq.availIdx + 1) % 2 ^ 16 ≠ s.virtq.availIdx := by omega
    exact hmoved (hpub.symm.trans hsame)
  · have hslot : s'.virtq.availRing (s.virtq.availIdx % descQueueSize) = d := hring
    have hshort : (s'.virtq.desc d).len = length := hpayload
    rw [hslot, hshort] at hlen
    omega

/-- **The packet is never sent.**  In every reachable state and for every payload: the call gets to its wait, and
wherever it waits, what it has published is not the packet it has built. -/
theorem tx_never_sends_packet (s : TxSys) (hs : TxReachable s) (data length : ℕ) (hmem : TxGetsMemory s length) :
    (∃ s', TxRuns s data length (.ret false) s') ∧
      ∀ s', TxRuns s data length (.ret false) s' → ¬ PacketSent s s' data length := by
  have hidle := hs.idle
  refine ⟨?_, fun s' hruns => ?_⟩
  · obtain ⟨t, hruns, -⟩ := hmem.waits hidle data
    exact ⟨t, hruns⟩
  · have hdone := TxRuns.done (n := 0) (D := fun _ => True) hruns (fun _ _ _ _ => trivial) (fun _ _ _ _ => trivial)
      (fun _ _ _ _ => trivial) hidle (Nat.zero_le _)
    exact not_packetSent hdone.1.known data

/-- A payload of four bytes on a fresh queue. -/
theorem tx_never_sends_packet_fresh : ∃ s s', TxReachable s ∧ TxRuns s 0x80004000 4 (.ret false) s' ∧
    ¬ PacketSent s s' 0x80004000 4 := by
  obtain ⟨s, hstart, -, hmem⟩ := exists_txStart
  obtain ⟨⟨s', hruns⟩, hnever⟩ :=
    tx_never_sends_packet s hstart.reachable 0x80004000 4 (hmem 4 (by decide) (by decide))
  exact ⟨s, s', hstart.reachable, hruns, hnever s' hruns⟩

/-- **Four bytes go out**, not the 58 of the packet. -/
theorem tx_sends_payload : ∃ s s', TxReachable s ∧ (∀ d < descQueueSize, s.queue.inUse d = 0) ∧
    TxRuns s 0x80004000 4 (.ret false) s' ∧ s'.virtq.availIdx = (s.virtq.availIdx + 1) % 2 ^ 16 ∧
    (s'.virtq.desc (s'.virtq.availRing (s.virtq.availIdx % descQueueSize))).len = 4 ∧
    ¬ PacketSent s s' 0x80004000 4 := by
  obtain ⟨s, hstart, hzero, hmem⟩ := exists_txStart
  obtain ⟨t, hruns, -, ht, -⟩ := (hmem 4 (by decide) (by decide)).waits hstart.idle 0x80004000
  refine ⟨s, t, hstart.reachable, fun d _ => hzero d, hruns, ?_, ?_, not_packetSent ht.known _⟩
  · exact (sent.published ht.known (by decide) fun d _ => hzero d).1
  · rcases ht.known with ⟨-, hlong | ⟨d, -, huse⟩⟩ | ⟨-, -, d, -, -, -, hring, hlen⟩
    · exact absurd hlong (by decide)
    · exact absurd (hzero d) huse
    · have hslot : t.virtq.availRing (s.virtq.availIdx % descQueueSize) = d := hring
      rw [hslot]
      exact hlen

end NetStack
