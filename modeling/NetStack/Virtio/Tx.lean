import NetStack.Virtio.Device
import NetStack.Virtio.Init
import NetStack.Virtio.Output

/-!
# Ownership of the TX queue

`virt_mmio_net_send` and the completion step of `virt_mmio_net_tx`, in any order, against a conforming
device.  The driver's record of what is outstanding is `in_use`; the descriptors in its hands are those
marked free, and, inside a call, at most one more.  `TxAt φ` is the invariant at the phase `φ` of a
call: idle, chosen (a free descriptor has been found), marked (it is in its avail slot and marked in
use), and for a completion ready, latched (its id has been read once) and released.
-/

namespace NetStack

open ByteMem Concurrent Transition

/-! ## The system -/

/-- The driver, the device, and the driver's place in a completion step. -/
structure TxSys where
  net : NetState
  dev : Device
  cur : Option ℕ
  nextRead : ℕ
  reclaimed : List ℕ

namespace TxSys

abbrev queue (s : TxSys) : VirtioNetQueue := s.net.queues .tx

abbrev virtq (s : TxSys) : Virtq := s.queue.virtq

/-- A completion step reads the id of its used element twice: the first time to check it, which takes
the element up, the second time to release the descriptor.  Incrementing `last_used_idx` ends it. -/
def record (s : TxSys) : (o : Op) → o.Resp → TxSys
  | .usedId _, id =>
      if s.cur = none then
        { s with cur := some id, nextRead := (s.queue.lastUsedIdx + 1) % 2 ^ 16 }
      else { s with reclaimed := s.reclaimed ++ [id] }
  | .setLastUsedIdx _, _ => { s with cur := none }
  | _, _ => s

def exec (o : Op) (s : TxSys) : o.Resp × TxSys :=
  let r := o.exec .tx s.net
  (r.1, { s.record o r.1 with net := r.2 })

/-- Published in `avail`, with a used element that has not been taken up yet. -/
def outstanding (s : TxSys) : List ℕ :=
  offered s.virtq s.dev ++ s.dev.held ++ (completed s.virtq s.nextRead).map (·.id)

/-- The descriptors marked free. -/
def free (s : TxSys) : List ℕ :=
  (List.range descQueueSize).filter fun d => s.queue.inUse d = 0

/-- No descriptor is outstanding twice, and the driver has released a prefix of the device's
completions. -/
def Sound (s : TxSys) : Prop :=
  s.outstanding.Nodup ∧ s.reclaimed <+: s.dev.made.map (·.id)

/-- What the driver may do: write the buffer or the descriptor of a descriptor that is not
outstanding, overwrite an avail slot the device has taken, and look at the oldest completion it has
not released. -/
def Allowed (o : Op) (s : TxSys) : Prop :=
  match o with
  | .setByte a _ => ∀ d ∈ s.outstanding, ¬ s.virtq.InBuffer d a
  | .setDescLen i _ => i ∉ s.outstanding
  | .setDescFlags i _ => i ∉ s.outstanding
  | .setAvailRing i _ => ∀ j < gap s.dev.next s.virtq.availIdx, (s.dev.next + j) % descQueueSize ≠ i
  | .usedId i => s.dev.made[s.reclaimed.length]? = some (s.virtq.usedRing i)
  | _ => True

end TxSys

/-- The device's steps.  It only reads the buffers. -/
inductive TxDevice : TxSys → TxSys → Prop
  | ring {s : TxSys} {v : Virtq} {d : Device} (h : DeviceStep (s.virtq, s.dev) (v, d)) :
      TxDevice s { s with net := s.net.setVirtq .tx v, dev := d }

/-- The driver against the device. -/
def tx : Interference Op Op.Resp TxSys := ⟨TxSys.exec, TxDevice⟩

/-- A call of `virt_mmio_net_send`, or a round of the completion loop of `virt_mmio_net_tx`. -/
inductive TxCall : PUnit → Driver PUnit → Prop
  | send (data length : ℕ) : TxCall ⟨⟩ (virtMmioNetSend data length)
  | reclaim : TxCall ⟨⟩ (reclaimTx >>= fun _ => pure ⟨⟩)

/-- The system right after the first successful `virt_mmio_net_virtq_init`: `in_use` is still as
`.bss` has it. -/
inductive TxStart : TxSys → Prop
  | mk {limit : ℕ} {s s' : NetState} {l owned : List ℕ} (hs : s.heap.Split l owned)
      (huse : ∀ d, (s.queues .tx).inUse d = 0)
      (h : virtMmioNetVirtqInit limit s = some (s', true)) :
      TxStart ⟨s', .reset, none, 0, []⟩

/-! ## Phases -/

/-- The part of the queue that only the driver writes. -/
structure TxView where
  lastUsedIdx : ℕ
  nextDesc : ℕ
  size : ℕ
  inUse : ℕ → ℕ
  availIdx : ℕ
  availRing : ℕ → ℕ
  desc : ℕ → VirtqDesc

def TxSys.view (s : TxSys) : TxView :=
  ⟨s.queue.lastUsedIdx, s.queue.nextDesc, s.queue.size, s.queue.inUse, s.virtq.availIdx,
    s.virtq.availRing, s.virtq.desc⟩

/-- A point of a call: the descriptors in the driver's hands that are not marked free, the used
element that must not be overwritten, the element taken up but not released, how far the driver's
reading is ahead of `last_used_idx`, whether a completion is known to be there, and what is known
about the driver's own fields. -/
structure TxPhase where
  extra : List ℕ
  latch : Option VirtqUsedElem
  pend : List VirtqUsedElem
  ahead : ℕ
  fresh : Bool
  known : TxView → Prop

def TxPhase.idle (k : TxView → Prop) : TxPhase := ⟨[], none, [], 0, false, k⟩
def TxPhase.marked (d : ℕ) (k : TxView → Prop) : TxPhase := ⟨[d], none, [], 0, false, k⟩
def TxPhase.ready (k : TxView → Prop) : TxPhase := ⟨[], none, [], 0, true, k⟩
def TxPhase.latched (u : VirtqUsedElem) (k : TxView → Prop) : TxPhase :=
  ⟨[u.id], some u, [u], 1, false, k⟩
def TxPhase.taken (d : ℕ) (k : TxView → Prop) : TxPhase := ⟨[d], none, [], 1, false, k⟩
def TxPhase.released (k : TxView → Prop) : TxPhase := ⟨[], none, [], 1, false, k⟩

/-- **The invariant at a phase.** -/
structure TxAt (φ : TxPhase) (s : TxSys) : Prop where
  shared : ∃ log, Shared s.virtq s.dev s.nextRead (φ.extra ++ s.free) φ.latch (log ++ φ.pend) ∧
    log.map (·.id) = s.reclaimed
  cur : s.cur = none ↔ φ.ahead = 0
  nextRead : s.nextRead = (s.queue.lastUsedIdx + φ.ahead) % 2 ^ 16
  size : s.queue.size = 256
  lastLt : s.queue.lastUsedIdx < 2 ^ 16
  nextDescLt : s.queue.nextDesc < 256
  bit : ∀ d < 256, s.queue.inUse d = 0 ∨ s.queue.inUse d = 1
  fresh : φ.fresh = true → s.nextRead ≠ s.virtq.usedIdx
  laid : s.virtq.Laid
  known : φ.known s.view

variable {φ : TxPhase} {s s' : TxSys} {k : TxView → Prop} {d : ℕ} {u : VirtqUsedElem}

lemma TxDevice.view (h : TxDevice s s') : s'.view = s.view := by
  cases h with
  | ring h =>
      rcases h.avail with ⟨h₁, h₂, h₃⟩
      simp [TxSys.view, TxSys.virtq, TxSys.queue, h₁, h₂, h₃]

lemma TxAt.stable (φ : TxPhase) : tx.Stable (TxAt φ) := by
  intro s s' henv h
  have hknown : φ.known s'.view := by
    rw [TxDevice.view henv]
    exact h.known
  rcases h.shared with ⟨log, hshared, hlog⟩
  cases henv with
  | ring hstep =>
      exact ⟨⟨log, hstep.shared hshared, hlog⟩, h.cur, h.nextRead, h.size, h.lastLt, h.nextDescLt,
        h.bit, fun hr => hstep.usedIdx_ne hshared (h.fresh hr), hstep.laid h.laid, hknown⟩

/-- Outstanding descriptors are pairwise different and none of the driver's. -/
lemma TxAt.nodup (h : TxAt φ s) : (s.outstanding ++ (φ.extra ++ s.free)).Nodup := by
  rcases h.shared with ⟨log, hshared, -⟩
  exact hshared.perm.nodup_iff.mpr List.nodup_range

lemma TxAt.sound (h : TxAt φ s) : s.Sound := by
  rcases h.shared with ⟨log, hshared, hlog⟩
  refine ⟨(List.nodup_append.mp h.nodup).1, ?_⟩
  rw [hshared.made_eq, ← hlog, List.append_assoc, List.map_append]
  exact List.prefix_append ..

/-- A descriptor in the driver's hands is not outstanding. -/
lemma TxAt.notMem_outstanding (h : TxAt φ s) (hd : d ∈ φ.extra ++ s.free) : d ∉ s.outstanding :=
  fun hout => (List.nodup_append.mp h.nodup).2.2 d hout d hd rfl

lemma TxAt.outstanding_lt (h : TxAt φ s) (hd : d ∈ s.outstanding) : d < descQueueSize := by
  rcases h.shared with ⟨log, hshared, -⟩
  exact List.mem_range.mp (hshared.perm.subset (List.mem_append_left _ hd))

lemma TxSys.mem_free : d ∈ s.free ↔ d < 256 ∧ s.queue.inUse d = 0 := by
  simp [TxSys.free]

lemma TxAt.putc (h : TxAt φ s) (c : Char) : TxAt φ (tx.exec (.putc c) s).2 :=
  ⟨h.shared, h.cur, h.nextRead, h.size, h.lastLt, h.nextDescLt, h.bit, h.fresh, h.laid, h.known⟩

lemma TxAt.notify (h : TxAt φ s) (i : ℕ) : TxAt φ (tx.exec (.notify i) s).2 :=
  ⟨h.shared, h.cur, h.nextRead, h.size, h.lastLt, h.nextDescLt, h.bit, h.fresh, h.laid, h.known⟩

lemma TxAt.setByte (h : TxAt φ s) (a : ℕ) (v : UInt8) : TxAt φ (tx.exec (.setByte a v) s).2 :=
  ⟨h.shared, h.cur, h.nextRead, h.size, h.lastLt, h.nextDescLt, h.bit, h.fresh, h.laid, h.known⟩

lemma TxAt.mono {k : TxView → Prop} (h : TxAt φ s) (hk : φ.known s.view → k s.view) :
    TxAt { φ with known := k } s :=
  ⟨h.shared, h.cur, h.nextRead, h.size, h.lastLt, h.nextDescLt, h.bit, h.fresh, h.laid, hk h.known⟩

/-! What the accesses of a send do to the driver's fields. -/

lemma view_setDescLen (d v : ℕ) (s : TxSys) : (tx.exec (.setDescLen d v) s).2.view =
    { s.view with desc := Function.update s.view.desc d { s.view.desc d with len := v } } := by
  simp [TxSys.view, TxSys.virtq, TxSys.queue, tx, TxSys.exec, TxSys.record, Op.exec]

lemma view_setDescFlags (d v : ℕ) (s : TxSys) : (tx.exec (.setDescFlags d v) s).2.view =
    { s.view with desc := Function.update s.view.desc d { s.view.desc d with flags := v } } := by
  simp [TxSys.view, TxSys.virtq, TxSys.queue, tx, TxSys.exec, TxSys.record, Op.exec]

lemma view_setAvailRing (i v : ℕ) (s : TxSys) : (tx.exec (.setAvailRing i v) s).2.view =
    { s.view with availRing := Function.update s.view.availRing i v } := by
  simp [TxSys.view, TxSys.virtq, TxSys.queue, tx, TxSys.exec, TxSys.record, Op.exec]

lemma view_setInUse (i v : ℕ) (s : TxSys) : (tx.exec (.setInUse i v) s).2.view =
    { s.view with inUse := Function.update s.view.inUse i v } := by
  simp [TxSys.view, TxSys.virtq, TxSys.queue, tx, TxSys.exec, TxSys.record, Op.exec]

lemma view_setNextDesc (v : ℕ) (s : TxSys) : (tx.exec (.setNextDesc v) s).2.view = { s.view with nextDesc := v } := by
  simp [TxSys.view, TxSys.virtq, TxSys.queue, tx, TxSys.exec, TxSys.record, Op.exec]

lemma view_setAvailIdx (v : ℕ) (s : TxSys) : (tx.exec (.setAvailIdx v) s).2.view = { s.view with availIdx := v } := by
  simp [TxSys.view, TxSys.virtq, TxSys.queue, tx, TxSys.exec, TxSys.record, Op.exec]

lemma TxView.len_setFlags (desc : ℕ → VirtqDesc) (d e v : ℕ) :
    (Function.update desc d { desc d with flags := v } e).len = (desc e).len := by
  by_cases hed : e = d
  · rw [hed, Function.update_self]
  · rw [Function.update_of_ne hed]

/-! ## Moves of `virt_mmio_net_send` -/

/-- A descriptor's address survives a change of its other fields. -/
lemma Virtq.Laid.update {v : Virtq} (h : v.Laid) {i : ℕ} {e : VirtqDesc}
    (he : e.addr = (v.desc i).addr) : { v with desc := Function.update v.desc i e }.Laid := by
  rcases h with ⟨buffers, hb⟩
  refine ⟨buffers, fun j hj => ?_⟩
  show (Function.update v.desc i e j).addr = _
  by_cases hij : j = i
  · rw [hij, Function.update_self, he, ← hij]
    exact hb j hj
  · rw [Function.update_of_ne hij]
    exact hb j hj

lemma Shared.desc {v : Virtq} {dev : Device} {read : ℕ} {mine : List ℕ}
    {latch : Option VirtqUsedElem} {log : List VirtqUsedElem} (h : Shared v dev read mine latch log)
    (desc : ℕ → VirtqDesc) : Shared { v with desc := desc } dev read mine latch log :=
  ⟨h.perm, h.availLt, h.usedLt, h.nextLt, h.readLt, h.seenLt, h.seenLe, h.pend, h.latched,
    h.made_eq⟩

/-- The descriptor is marked free, and `k` does not speak of the descriptor table. -/
def chosen (d : ℕ) (w : TxView) : Prop := d < 256 ∧ w.inUse d = 0

lemma TxAt.mem_free (h : TxAt (.idle (chosen d)) s) : d ∈ s.free := TxSys.mem_free.mpr h.known

lemma TxAt.setDescLen (h : TxAt (.idle (chosen d)) s) (v : ℕ) :
    TxAt (.idle (chosen d)) (tx.exec (.setDescLen d v) s).2 := by
  rcases h.shared with ⟨log, hshared, hlog⟩
  exact ⟨⟨log, hshared.desc _, hlog⟩, h.cur, h.nextRead, h.size, h.lastLt, h.nextDescLt, h.bit,
    h.fresh, h.laid.update rfl, h.known⟩

lemma TxAt.setDescFlags (h : TxAt (.idle (chosen d)) s) (v : ℕ) :
    TxAt (.idle (chosen d)) (tx.exec (.setDescFlags d v) s).2 := by
  rcases h.shared with ⟨log, hshared, hlog⟩
  exact ⟨⟨log, hshared.desc _, hlog⟩, h.cur, h.nextRead, h.size, h.lastLt, h.nextDescLt, h.bit,
    h.fresh, h.laid.update rfl, h.known⟩

/-- `d` is in the slot `avail.idx` points to. -/
def placed (d : ℕ) (w : TxView) : Prop := w.availRing (w.availIdx % descQueueSize) = d

lemma TxAt.setAvailRing (h : TxAt (.idle (chosen d)) s) :
    TxAt (.idle fun w => chosen d w ∧ placed d w)
      (tx.exec (.setAvailRing (s.virtq.availIdx % descQueueSize) d) s).2 := by
  rcases h.shared with ⟨log, hshared, hlog⟩
  exact ⟨⟨log, hshared.write_slot h.mem_free d, hlog⟩, h.cur, h.nextRead, h.size, h.lastLt,
    h.nextDescLt, h.bit, h.fresh, h.laid, h.known, Function.update_self ..⟩

/-- What changing one mark does to the list of free descriptors. -/
lemma free_perm (inUse : ℕ → ℕ) (hd : d < 256) (hfree : inUse d = 0) :
    (d :: (List.range descQueueSize).filter fun e => Function.update inUse d 1 e = 0).Perm
      ((List.range descQueueSize).filter fun e => inUse e = 0) := by
  rw [List.perm_ext_iff_of_nodup]
  · intro e
    simp only [List.mem_cons, List.mem_filter, List.mem_range, decide_eq_true_eq,
      descQueueSize_eq]
    by_cases he : e = d
    · subst he
      simp [hd, hfree]
    · simp [he]
  · refine List.nodup_cons.mpr ⟨?_, List.nodup_range.filter _⟩
    simp
  · exact List.nodup_range.filter _

lemma bit_update {inUse : ℕ → ℕ} {v : ℕ} (hv : v = 0 ∨ v = 1)
    (h : ∀ e < 256, inUse e = 0 ∨ inUse e = 1) (e : ℕ) (he : e < 256) :
    Function.update inUse d v e = 0 ∨ Function.update inUse d v e = 1 := by
  by_cases hed : e = d
  · rw [hed, Function.update_self]
    exact hv
  · rw [Function.update_of_ne hed]
    exact h e he

/-- The descriptor is marked in use while it is still the driver's. -/
lemma TxAt.setInUse (h : TxAt (.idle fun w => chosen d w ∧ placed d w) s) :
    TxAt (.marked d (placed d)) (tx.exec (.setInUse d 1) s).2 := by
  rcases h.shared with ⟨log, hshared, hlog⟩
  rcases h.known with ⟨⟨hd, hfree⟩, hplaced⟩
  exact ⟨⟨log, hshared.of_perm (free_perm _ hd hfree), hlog⟩, h.cur, h.nextRead, h.size, h.lastLt,
    h.nextDescLt, bit_update (.inr rfl) h.bit, h.fresh, h.laid, hplaced⟩

lemma TxAt.setNextDesc (h : TxAt (.marked d (placed d)) s) {v : ℕ} (hv : v < 256) :
    TxAt (.marked d (placed d)) (tx.exec (.setNextDesc v) s).2 :=
  ⟨h.shared, h.cur, h.nextRead, h.size, h.lastLt, hv, h.bit, h.fresh, h.laid, h.known⟩

/-- `avail.idx` is incremented: the descriptor is outstanding. -/
lemma TxAt.setAvailIdx (h : TxAt (.marked d (placed d)) s) :
    TxAt (.idle fun _ => True) (tx.exec (.setAvailIdx ((s.virtq.availIdx + 1) % 2 ^ 16)) s).2 := by
  rcases h.shared with ⟨log, hshared, hlog⟩
  exact ⟨⟨log, hshared.offer h.known, hlog⟩, h.cur, h.nextRead, h.size, h.lastLt, h.nextDescLt,
    h.bit, fun hr => absurd hr (by simp [TxPhase.idle]), h.laid, trivial⟩

/-! ## Moves of the completion step -/

lemma TxAt.lastUsed_slot (h : TxAt φ s) (hahead : φ.ahead = 1) :
    (s.nextRead + (2 ^ 16 - 1)) % descQueueSize = s.queue.lastUsedIdx % descQueueSize := by
  have hlt := h.lastLt
  rw [h.nextRead, hahead, descQueueSize_eq]
  omega

lemma TxAt.ready_read (h : TxAt (.ready k) s) : s.nextRead = s.queue.lastUsedIdx := by
  rw [h.nextRead]
  exact Nat.mod_eq_of_lt h.lastLt

/-- The index the driver has read and `used.idx` differ. -/
lemma TxAt.ready_of_ne {l : ℕ} (h : TxAt (.idle fun w => k w ∧ w.lastUsedIdx = l) s) (hne : l ≠ s.virtq.usedIdx) :
    TxAt (.ready k) s := by
  refine ⟨h.shared, h.cur, h.nextRead, h.size, h.lastLt, h.nextDescLt, h.bit, fun _ => ?_, h.laid, h.known.1⟩
  have hread : s.nextRead = l := by
    rw [h.nextRead, ← show s.queue.lastUsedIdx = l from h.known.2]
    exact Nat.mod_eq_of_lt h.lastLt
  rw [hread]
  exact hne

/-- The first read of the id takes the element up. -/
lemma TxAt.usedId_first (h : TxAt (.ready k) s) :
    s.Allowed (.usedId (s.queue.lastUsedIdx % descQueueSize)) ∧
    TxAt (.latched (s.virtq.usedRing (s.queue.lastUsedIdx % descQueueSize)) k)
      (tx.exec (.usedId (s.queue.lastUsedIdx % descQueueSize)) s).2 := by
  rcases h.shared with ⟨log, hshared, hlog⟩
  have hne := h.fresh rfl
  have hcur : s.cur = none := h.cur.mpr rfl
  have hstep := hshared.consume hne
  have hlogs : log ++ (TxPhase.ready k).pend = log := List.append_nil _
  rw [hlogs] at hstep
  have hmade := hstep.made_eq
  rw [h.ready_read] at hstep hmade
  constructor
  · show s.dev.made[s.reclaimed.length]? = _
    rw [hmade, ← hlog]
    simp
  · have hexec : (tx.exec (.usedId (s.queue.lastUsedIdx % descQueueSize)) s).2 =
        { s with
          cur := some (s.virtq.usedRing (s.queue.lastUsedIdx % descQueueSize)).id
          nextRead := (s.queue.lastUsedIdx + 1) % 2 ^ 16 } := by
      simp [tx, TxSys.exec, TxSys.record, hcur, Op.exec]
    rw [hexec]
    exact ⟨⟨log, hstep, hlog⟩, by simp [TxPhase.latched], rfl, h.size, h.lastLt, h.nextDescLt,
      h.bit, fun hr => absurd hr (by simp [TxPhase.latched]), h.laid, h.known⟩

/-- The second read finds the same element. -/
lemma TxAt.usedId_second (h : TxAt (.latched u k) s) :
    s.virtq.usedRing (s.queue.lastUsedIdx % descQueueSize) = u ∧
    s.Allowed (.usedId (s.queue.lastUsedIdx % descQueueSize)) ∧
    TxAt (.taken u.id k) (tx.exec (.usedId (s.queue.lastUsedIdx % descQueueSize)) s).2 := by
  rcases h.shared with ⟨log, hshared, hlog⟩
  have helem : s.virtq.usedRing (s.queue.lastUsedIdx % descQueueSize) = u := by
    rw [← h.lastUsed_slot rfl]
    exact (hshared.latched u rfl).2
  have hcur : s.cur ≠ none := fun hc => absurd (h.cur.mp hc) (by simp [TxPhase.latched])
  refine ⟨helem, ?_, ?_⟩
  · show s.dev.made[s.reclaimed.length]? = _
    rw [hshared.made_eq, ← hlog, helem]
    simp [TxPhase.latched]
  · have hexec : (tx.exec (.usedId (s.queue.lastUsedIdx % descQueueSize)) s).2 =
        { s with reclaimed := s.reclaimed ++ [u.id] } := by
      simp only [tx, TxSys.exec, TxSys.record, hcur, if_false, Op.exec]
      rw [helem]
    rw [hexec]
    refine ⟨⟨log ++ [u], ?_, ?_⟩, h.cur, h.nextRead, h.size, h.lastLt, h.nextDescLt, h.bit,
      fun hr => absurd hr (by simp [TxPhase.taken]), h.laid, h.known⟩
    · have hnil : log ++ [u] ++ (TxPhase.taken u.id k).pend = log ++ [u] := List.append_nil _
      rw [hnil]
      exact hshared.unlatch
    · simp [hlog]

/-- The descriptor is marked free. -/
lemma TxAt.release (h : TxAt (.taken d fun _ => True) s) :
    TxAt (.released fun _ => True) (tx.exec (.setInUse d 0) s).2 := by
  rcases h.shared with ⟨log, hshared, hlog⟩
  have hd : d < 256 := hshared.mem_lt List.mem_cons_self
  have hnot : d ∉ s.free := by
    have hnd := (List.nodup_append.mp h.nodup).2.1
    exact (List.nodup_cons.mp hnd).1
  have hone : s.queue.inUse d = 1 := by
    rcases h.bit d hd with h0 | h1
    · exact absurd (TxSys.mem_free.mpr ⟨hd, h0⟩) hnot
    · exact h1
  -- marking it in use again gives the old list back
  have hperm := free_perm (Function.update s.queue.inUse d 0) hd (Function.update_self ..)
  rw [Function.update_idem, ← hone, Function.update_eq_self] at hperm
  exact ⟨⟨log, hshared.of_perm hperm.symm, hlog⟩, h.cur, h.nextRead, h.size, h.lastLt, h.nextDescLt,
    bit_update (.inl rfl) h.bit, fun hr => absurd hr (by simp [TxPhase.released]), h.laid, trivial⟩

/-- `last_used_idx` follows. -/
lemma TxAt.setLastUsedIdx (h : TxAt (.released k) s) :
    TxAt (.idle fun _ => True)
      (tx.exec (.setLastUsedIdx ((s.queue.lastUsedIdx + 1) % 2 ^ 16)) s).2 := by
  refine ⟨h.shared, by simp [TxPhase.idle, tx, TxSys.exec, TxSys.record], ?_, h.size,
    Nat.mod_lt _ (by norm_num), h.nextDescLt, h.bit,
    fun hr => absurd hr (by simp [TxPhase.idle]), h.laid, trivial⟩
  show s.nextRead = ((s.queue.lastUsedIdx + 1) % 2 ^ 16 + 0) % 2 ^ 16
  rw [h.nextRead, Nat.add_zero, Nat.mod_mod]
  rfl

/-! ## The programs -/

/-- What holds whenever the driver is about to make an access. -/
def txOk (o : Op) (s : TxSys) : Prop := s.Sound ∧ s.Allowed o

/-- What holds between the driver's operations. -/
def txDone (_ : PUnit) (s : TxSys) : Prop := TxAt (.idle fun _ => True) s

/-- The weakest precondition of a piece of the driver. -/
abbrev TxPost {α : Type} (Q : α → TxSys → Prop) (p : Driver α) (s : TxSys) : Prop := wp tx txOk Q p s

abbrev TxWp (p : Driver PUnit) (s : TxSys) : Prop := TxPost txDone p s

section Rules

variable {α : Type} {Q : α → TxSys → Prop}

lemma txWp_ret (h : TxAt (.idle fun _ => True) s) : TxWp (.ret ⟨⟩) s := wp_ret (TxAt.stable _) h

lemma txWp_op {o : Op} {f : o.Resp → Driver α} (h : TxAt φ s)
    (hok : ∀ t, TxAt φ t → t.Allowed o)
    (hf : ∀ t, TxAt φ t → TxPost Q (f (tx.exec o t).1) (tx.exec o t).2) : TxPost Q (.op o f) s :=
  wp_op (TxAt.stable φ) h fun t ht => ⟨⟨ht.sound, hok t ht⟩, fun _ => hf t ht⟩

/-- Reading a field that only the driver writes: the value read stays the field's value. -/
lemma txWp_view {o : Op} {f : o.Resp → Driver α} (g : TxView → o.Resp)
    (hg : ∀ t, tx.exec o t = (g t.view, t)) (hok : ∀ t : TxSys, t.Allowed o) (h : TxAt φ s)
    (hf : ∀ r t, TxAt { φ with known := fun w => φ.known w ∧ g w = r } t → TxPost Q (f r) t) :
    TxPost Q (.op o f) s := by
  refine txWp_op h (fun t _ => hok t) fun t ht => ?_
  rw [hg]
  exact hf _ t (ht.mono fun hk => ⟨hk, rfl⟩)

/-- Reading `tx->size`. -/
lemma txWp_size {f : ℕ → Driver α} (h : TxAt φ s)
    (hf : ∀ t, TxAt φ t → TxPost Q (f descQueueSize) t) : TxPost Q (.op .size f) s := by
  refine txWp_op h (fun _ _ => trivial) fun t ht => ?_
  rw [show (tx.exec .size t).1 = descQueueSize from ht.size]
  exact hf t ht

lemma txWp_print {p : Driver PUnit} {f : PUnit → Driver α}
    (hp : Only (fun o => ∃ c, o = .putc c) p) (h : TxAt φ s)
    (hf : ∀ t, TxAt φ t → TxPost Q (f ⟨⟩) t) : TxPost Q (p >>= f) s := by
  refine wp_bind (wp_of_only (TxAt.stable φ) ?_ (fun _ t ht => hf t ht) hp h)
  rintro o ⟨c, rfl⟩ t ht
  exact ⟨⟨ht.sound, trivial⟩, ht.putc c⟩

lemma txWp_puts {str : String} {f : PUnit → Driver α} (h : TxAt φ s)
    (hf : ∀ t, TxAt φ t → TxPost Q (f ⟨⟩) t) : TxPost Q (uartPuts str >>= f) s :=
  txWp_print (only_uartPuts (fun c => ⟨c, rfl⟩) str) h hf

/-- A message is the last thing a failing call does. -/
lemma txWp_puts_end {str : String} (h : TxAt φ s) : TxPost (fun _ => TxAt φ) (uartPuts str) s := by
  have honly : Only (fun o => ∃ c, o = .putc c) (uartPuts str) :=
    only_uartPuts (fun c => ⟨c, rfl⟩) str
  refine wp_of_only (TxAt.stable _) ?_ (fun _ _ ht => ht) honly h
  rintro o ⟨c, rfl⟩ t ht
  exact ⟨⟨ht.sound, trivial⟩, ht.putc c⟩

/-- The search ends at some descriptor. -/
lemma txWp_searchDesc {f : ℕ → Driver α} (hf : ∀ d t, d < 256 → TxAt (.idle k) t → TxPost Q (f d) t) :
    ∀ (n : ℕ) {d : ℕ} {s : TxSys}, d < 256 → TxAt (.idle k) s → TxPost Q (searchDesc n d >>= f) s
  | 0, d, s, hd, h => hf d s hd h
  | n + 1, d, s, hd, h => by
      simp only [searchDesc, inUse, size, op_bind, ret_bind]
      refine txWp_op h (fun _ _ => trivial) fun t ht => ?_
      split_ifs
      · exact hf d t hd ht
      · simp only [op_bind]
        refine txWp_size ht fun t' ht' => ?_
        exact txWp_searchDesc hf n (Nat.mod_lt _ (by decide)) ht'

/-- The packet is copied into a buffer that is not outstanding. -/
lemma txWp_memCopy {f : PUnit → Driver α} {a data length : ℕ} (hlen : length ≤ 2048)
    (h : TxAt (.idle fun w => (chosen d w ∧ k w) ∧ (w.desc d).addr = a) s)
    (hf : ∀ t, TxAt (.idle fun w => chosen d w ∧ k w) t → TxPost Q (f ⟨⟩) t) :
    TxPost Q (memCopy a data length >>= f) s := by
  have honly : Only (fun o => (∃ b, o = .byte b) ∨ ∃ i < 2048, ∃ v, o = .setByte (a + i) v)
      (memCopy a data length) := by
    refine Only.forM fun i hi => ⟨.inl ⟨_, rfl⟩, fun v => ⟨.inr ⟨i, ?_, v, rfl⟩, fun _ => trivial⟩⟩
    have hlt := List.mem_range.mp hi
    omega
  refine wp_bind (wp_of_only (TxAt.stable _) ?_ (fun _ t ht => hf t (ht.mono And.left)) honly h)
  rintro o (⟨b, rfl⟩ | ⟨i, hi, v, rfl⟩) t ht
  · exact ⟨⟨ht.sound, trivial⟩, ht⟩
  · have hchosen : TxAt (.idle (chosen d)) t := ht.mono fun hk => hk.1.1
    have haddr : (t.virtq.desc d).addr = a := ht.known.2
    have hin : t.virtq.InBuffer d (a + i) := by
      rw [Virtq.InBuffer, haddr, queueBufSize_eq]
      omega
    refine ⟨⟨ht.sound, fun e he hine => ?_⟩, ht.setByte _ _⟩
    have hed := ht.laid.inBuffer_unique (ht.outstanding_lt he) hchosen.known.1 hine hin
    exact hchosen.notMem_outstanding hchosen.mem_free (hed ▸ he)

end Rules

/-- The driver's fields at the start of a send. -/
def sending (a : ℕ) (use : ℕ → ℕ) (w : TxView) : Prop := w.availIdx = a ∧ w.inUse = use

/-- And at its end: nothing has been published, for want of room or of a descriptor, or a descriptor that was
free has been, with the length as its length. -/
def sent (a : ℕ) (use : ℕ → ℕ) (length : ℕ) (w : TxView) : Prop :=
  w.availIdx = a ∧ (2048 < length ∨ ∃ d < 256, use d ≠ 0) ∨
    w.availIdx = (a + 1) % 2 ^ 16 ∧ length ≤ 2048 ∧ ∃ d < 256, use d = 0 ∧ w.inUse = Function.update use d 1 ∧
      w.availRing (a % descQueueSize) = d ∧ (w.desc d).len = length

/-- **`virt_mmio_net_send`**, with what it leaves. -/
lemma txPost_virtMmioNetSend {a : ℕ} {use : ℕ → ℕ} (data length : ℕ) (h : TxAt (.idle (sending a use)) s) :
    TxPost (fun _ => TxAt (.idle (sent a use length))) (virtMmioNetSend data length) s := by
  unfold virtMmioNetSend
  refine txWp_puts h fun t₁ h₁ => ?_
  split_ifs with hlen
  · refine wp_mono (fun _ _ hok => hok) (fun _ t ht => ?_) (txWp_puts_end h₁)
    exact TxAt.mono ht fun hk => .inl ⟨hk.1, .inl hlen⟩
  simp only [nextDesc, size, inUse, descAddr, setDescLen, setDescFlags, availIdx, setAvailRing,
    setInUse, setNextDesc, setAvailIdx, virtMmioNotify, op_bind, ret_bind]
  refine txWp_op h₁ (fun _ _ => trivial) fun t₂ h₂ => txWp_size h₂ fun t₃ h₃ => ?_
  refine txWp_searchDesc (fun d t₄ hd h₄ => ?_) _ h₂.nextDescLt h₃
  refine txWp_view (fun w => w.inUse d) (fun _ => rfl) (fun _ => trivial) h₄ fun b t₅ h₅ => ?_
  split_ifs with hb
  · refine wp_mono (fun _ _ hok => hok) (fun _ t ht => ?_) (txWp_puts_end h₅)
    exact TxAt.mono ht fun hk => .inl ⟨hk.1.1, .inr ⟨d, hd, by rw [← hk.1.2, hk.2]; exact hb⟩⟩
  have huse : use d = 0 := by
    rw [← h₅.known.1.2, h₅.known.2]
    exact not_not.mp hb
  have h₅' : TxAt (.idle fun w => chosen d w ∧ sending a use w) t₅ :=
    h₅.mono fun hk => ⟨⟨hd, hk.2.trans (not_not.mp hb)⟩, hk.1⟩
  refine txWp_view (fun w => (w.desc d).addr) (fun _ => rfl) (fun _ => trivial) h₅' fun a₆ t₆ h₆ => ?_
  refine txWp_memCopy (not_lt.mp hlen) h₆ fun t₇ h₇ => ?_
  -- the descriptor and its avail slot, then the marks, then the index
  refine txWp_op h₇ (fun t ht => (ht.mono And.left).notMem_outstanding (ht.mono And.left).mem_free)
    fun t₈ h₈ => ?_
  have h₈' : TxAt (.idle fun w => chosen d w ∧ sending a use w ∧ (w.desc d).len = length)
      (tx.exec (.setDescLen d length) t₈).2 := by
    refine ((h₈.mono And.left).setDescLen length).mono fun hc => ⟨hc, ?_⟩
    rw [view_setDescLen]
    refine ⟨h₈.known.2, ?_⟩
    show (Function.update t₈.view.desc d _ d).len = length
    rw [Function.update_self]
  refine txWp_op h₈' (fun t ht => (ht.mono And.left).notMem_outstanding (ht.mono And.left).mem_free)
    fun t₉ h₉ => ?_
  have h₉' : TxAt (.idle fun w => chosen d w ∧ sending a use w ∧ (w.desc d).len = length)
      (tx.exec (.setDescFlags d 0) t₉).2 := by
    refine ((h₉.mono And.left).setDescFlags 0).mono fun hc => ⟨hc, ?_⟩
    rw [view_setDescFlags]
    exact ⟨h₉.known.2.1, (TxView.len_setFlags ..).trans h₉.known.2.2⟩
  refine txWp_view TxView.availIdx (fun _ => rfl) (fun _ => trivial) h₉'
    fun x t₁₀ h₁₀ => txWp_size h₁₀ fun t₁₁ h₁₁ => ?_
  refine txWp_op h₁₁ (fun t ht j hj => ?_) fun t₁₂ h₁₂ => ?_
  · rcases ht.shared with ⟨log, hshared, -⟩
    have hchosen : TxAt (.idle (chosen d)) t := ht.mono fun hk => hk.1.1
    rw [← show t.virtq.availIdx = x from ht.known.2]
    exact hshared.slot_taken hchosen.mem_free hj
  rw [← show t₁₂.virtq.availIdx = x from h₁₂.known.2]
  have hidx : t₁₂.virtq.availIdx = a := h₁₂.known.1.2.1.1
  have h₁₂' : TxAt (.idle fun w => (chosen d w ∧ placed d w) ∧ sending a use w ∧ w.availRing (a % descQueueSize) = d ∧
      (w.desc d).len = length) (tx.exec (.setAvailRing (t₁₂.virtq.availIdx % descQueueSize) d) t₁₂).2 := by
    refine (TxAt.setAvailRing (h₁₂.mono fun hk => hk.1.1)).mono fun hc => ⟨hc, ?_⟩
    rw [view_setAvailRing, hidx]
    exact ⟨h₁₂.known.1.2.1, Function.update_self .., h₁₂.known.1.2.2⟩
  refine txWp_op h₁₂' (fun _ _ => trivial) fun t₁₃ h₁₃ => ?_
  have h₁₃' : TxAt (.marked d fun w => placed d w ∧ w.availIdx = a ∧ w.inUse = Function.update use d 1 ∧
      w.availRing (a % descQueueSize) = d ∧ (w.desc d).len = length) (tx.exec (.setInUse d 1) t₁₃).2 := by
    refine (TxAt.setInUse (h₁₃.mono And.left)).mono fun hc => ⟨hc, ?_⟩
    rw [view_setInUse]
    exact ⟨h₁₃.known.2.1.1, congrArg (Function.update · d 1) h₁₃.known.2.1.2, h₁₃.known.2.2⟩
  refine txWp_size h₁₃' fun t₁₄ h₁₄ => txWp_op h₁₄ (fun _ _ => trivial) fun t₁₅ h₁₅ => ?_
  have h₁₅' : TxAt (.marked d fun w => placed d w ∧ w.availIdx = a ∧ w.inUse = Function.update use d 1 ∧
      w.availRing (a % descQueueSize) = d ∧ (w.desc d).len = length)
      (tx.exec (.setNextDesc ((d + 1) % descQueueSize)) t₁₅).2 := by
    refine (TxAt.setNextDesc (h₁₅.mono And.left) (Nat.mod_lt _ (by decide))).mono fun hc => ⟨hc, ?_⟩
    rw [view_setNextDesc]
    exact h₁₅.known.2
  refine txWp_view TxView.availIdx (fun _ => rfl) (fun _ => trivial) h₁₅' fun y t₁₆ h₁₆ => ?_
  refine txWp_op h₁₆ (fun _ _ => trivial) fun t₁₇ h₁₇ => ?_
  rw [← show t₁₇.virtq.availIdx = y from h₁₇.known.2]
  have hidx' : t₁₇.virtq.availIdx = a := h₁₇.known.1.2.1
  have h₁₇' : TxAt (.idle (sent a use length)) (tx.exec (.setAvailIdx ((t₁₇.virtq.availIdx + 1) % 2 ^ 16)) t₁₇).2 := by
    refine (TxAt.setAvailIdx (h₁₇.mono fun hk => hk.1.1)).mono fun _ => .inr ?_
    rw [view_setAvailIdx, hidx']
    exact ⟨rfl, not_lt.mp hlen, d, hd, huse, h₁₇.known.1.2.2⟩
  exact txWp_op h₁₇' (fun _ _ => trivial) fun t₁₈ h₁₈ => wp_ret (TxAt.stable _) (h₁₈.notify _)

/-- **`virt_mmio_net_send`.** -/
lemma txWp_virtMmioNetSend (data length : ℕ) (h : TxAt (.idle fun _ => True) s) :
    TxWp (virtMmioNetSend data length) s := by
  have hstart : TxAt (.idle (sending s.virtq.availIdx s.queue.inUse)) s := h.mono fun _ => ⟨rfl, rfl⟩
  exact wp_mono (fun _ _ hok => hok) (fun _ _ ht => TxAt.mono ht fun _ => trivial)
    (txPost_virtMmioNetSend data length hstart)

/-- **A round of the completion loop.** -/
lemma txPost_reclaimTx (h : TxAt (.idle fun _ => True) s) :
    TxPost (fun _ => TxAt (.idle fun _ => True)) reclaimTx s := by
  simp only [reclaimTx, lastUsedIdx, usedIdx, size, usedId, setInUse, setLastUsedIdx, op_bind,
    ret_bind, pure_eq]
  refine txWp_view TxView.lastUsedIdx (fun _ => rfl) (fun _ => trivial) h fun l t₁ h₁ => ?_
  refine txWp_op h₁ (fun _ _ => trivial) fun t₂ h₂ => ?_
  split_ifs with hne
  swap
  · exact wp_ret (TxAt.stable _) (h₂.mono fun _ => trivial)
  refine txWp_puts (h₂.ready_of_ne hne) fun t₃ h₃ => ?_
  refine txWp_view TxView.lastUsedIdx (fun _ => rfl) (fun _ => trivial) h₃ fun m t₄ h₄ =>
    txWp_size h₄ fun t₅ h₅ => ?_
  -- the id is read once to check it and once more to use it
  refine txWp_op h₅ (fun t ht => ?_) fun t₆ h₆ => ?_
  · rw [← show t.queue.lastUsedIdx = m from ht.known.2]
    exact (TxAt.usedId_first ht).1
  have hm₆ : t₆.queue.lastUsedIdx = m := h₆.known.2
  have h₆' := (TxAt.usedId_first h₆).2
  rw [hm₆] at h₆'
  generalize hu : t₆.virtq.usedRing (m % descQueueSize) = u at h₆'
  have hid : (tx.exec (.usedId (m % descQueueSize)) t₆).1 = u.id := congrArg VirtqUsedElem.id hu
  rw [hid]
  refine txWp_size h₆' fun t₇ h₇ => ?_
  have hlt : u.id < descQueueSize := by
    rcases h₇.shared with ⟨log, hshared, -⟩
    exact hshared.mem_lt List.mem_cons_self
  rw [if_pos hlt]
  refine txWp_op h₇ (fun t ht => ?_) fun t₈ h₈ => ?_
  · rw [← show t.queue.lastUsedIdx = m from ht.known.2]
    exact ht.usedId_second.2.1
  have hm₈ : t₈.queue.lastUsedIdx = m := h₈.known.2
  rcases h₈.usedId_second with ⟨helem, -, h₈'⟩
  rw [hm₈] at helem h₈'
  have hid' : (tx.exec (.usedId (m % descQueueSize)) t₈).1 = u.id :=
    congrArg VirtqUsedElem.id helem
  rw [hid']
  have h₉ : TxAt (.taken u.id fun _ => True) _ := h₈'.mono fun _ => trivial
  refine txWp_op h₉ (fun _ _ => trivial) fun t₁₀ h₁₀ => ?_
  refine txWp_view TxView.lastUsedIdx (fun _ => rfl) (fun _ => trivial) h₁₀.release
    fun x t₁₁ h₁₁ => ?_
  refine txWp_op h₁₁ (fun _ _ => trivial) fun t₁₂ h₁₂ => ?_
  rw [← show t₁₂.queue.lastUsedIdx = x from h₁₂.known.2]
  exact wp_ret (TxAt.stable _) (TxAt.setLastUsedIdx h₁₂)

lemma txWp_reclaimTx (h : TxAt (.idle fun _ => True) s) : TxWp (reclaimTx >>= fun _ => pure ⟨⟩) s :=
  wp_bind (wp_mono (fun _ _ hok => hok) (fun _ _ ht => txWp_ret ht) (txPost_reclaimTx h))

/-! ## Runs -/

/-- After initialisation every descriptor is free. -/
lemma TxStart.idle (h : TxStart s) : TxAt (.idle fun _ => True) s := by
  cases h with
  | @mk limit net net' l owned hs huse hinit =>
      rcases virtMmioNetVirtqInit_spec hs hinit with ⟨-, hfresh, hkeep⟩
      have hzero : ∀ d, (net'.queues .tx).inUse d = 0 := by
        intro d
        rw [hkeep]
        exact huse d
      have hoff : offered (net'.queues .tx).virtq Device.reset = [] := by
        rw [offered, hfresh.availIdx]
        rfl
      have hdone : completed (net'.queues .tx).virtq 0 = [] := by
        rw [completed, hfresh.usedIdx]
        rfl
      have hfree : TxSys.free ⟨net', .reset, none, 0, []⟩ = List.range descQueueSize := by
        refine List.filter_eq_self.mpr fun d _ => ?_
        rw [decide_eq_true_eq]
        exact hzero d
      have hshared : Shared (net'.queues .tx).virtq Device.reset 0 (List.range descQueueSize)
          none [] := by
        refine ⟨?_, ?_, ?_, by decide, by decide, by decide, ?_, ?_, ?_, ?_⟩
        · rw [hoff, hdone]
          simp [Device.reset]
        · rw [hfresh.availIdx]
          decide
        · rw [hfresh.usedIdx]
          decide
        · rw [show gap Device.reset.next Device.reset.seen = 0 by decide]
          exact Nat.zero_le _
        · rintro u ⟨⟩
        · rintro u ⟨⟩
        · rw [hdone]
          rfl
      rw [← hfree] at hshared
      have hlt : (net'.queues .tx).lastUsedIdx < 2 ^ 16 := by
        rw [hfresh.lastUsedIdx]
        decide
      have hdesc : (net'.queues .tx).nextDesc < 256 := by
        rw [hfresh.nextDesc]
        decide
      refine ⟨⟨[], hshared, rfl⟩, by simp [TxPhase.idle], ?_, hfresh.size, hlt, hdesc,
        fun d _ => .inl (hzero d), by rintro ⟨⟩, hfresh.laid, trivial⟩
      show 0 = ((net'.queues .tx).lastUsedIdx + 0) % 2 ^ 16
      rw [hfresh.lastUsedIdx]
      rfl

/-- Between operations the marks say exactly what is outstanding. -/
lemma TxAt.inUse_iff (h : TxAt (.idle k) s) (hd : d < 256) :
    s.queue.inUse d = 1 ↔ d ∈ s.outstanding := by
  rcases h.shared with ⟨log, hshared, -⟩
  have hmem : d ∈ s.outstanding ++ s.free := hshared.perm.mem_iff.mpr (List.mem_range.mpr hd)
  constructor
  · intro hone
    rcases List.mem_append.mp hmem with hout | hfree
    · exact hout
    · rw [TxSys.mem_free, hone] at hfree
      exact absurd hfree.2 one_ne_zero
  · intro hout
    rcases h.bit d hd with h0 | h1
    · exact absurd hout (h.notMem_outstanding (TxSys.mem_free.mpr ⟨hd, h0⟩))
    · exact h1

/-! ## Calls that are left alone -/

section

variable {P : Driver PUnit → TxSys → Prop} {net : NetState} {queue : VirtioNetQueue} {dev : Device} {cur : Option ℕ}
  {read length d : ℕ} {reclaimed : List ℕ}

/-- Printing, alone. -/
lemma uartPuts_tx (str : String) (s : TxSys) :
    ∃ out, (uartPuts str).run tx.exec s = (⟨⟩, { s with net := { s.net with out := out } }) := by
  have honly : Only (fun o => ∃ c, o = .putc c) (uartPuts str) := only_uartPuts (fun c => ⟨c, rfl⟩) str
  obtain ⟨out, hout⟩ : ∃ out, ((uartPuts str).run tx.exec s).2 = { s with net := { s.net with out := out } } := by
    refine honly.run (P := fun t => ∃ out, t = { s with net := { s.net with out := out } }) ?_ ⟨s.net.out, rfl⟩
    rintro o ⟨c, rfl⟩ t ⟨out, rfl⟩
    exact ⟨out ++ [c], rfl⟩
  exact ⟨out, Prod.ext rfl hout⟩

/-- Copying, alone. -/
lemma memCopy_tx (dest src n : ℕ) (s : TxSys) : ∃ m, (memCopy dest src n).run tx.exec s =
    (⟨⟩, { s with net := { s.net with heap := { s.net.heap with mem := m } } }) := by
  have honly : Only (fun o => (∃ a, o = .byte a) ∨ ∃ a v, o = .setByte a v) (memCopy dest src n) :=
    Only.forM fun i _ => ⟨.inl ⟨_, rfl⟩, fun _ => ⟨.inr ⟨_, _, rfl⟩, fun _ => trivial⟩⟩
  obtain ⟨m, hm⟩ : ∃ m, ((memCopy dest src n).run tx.exec s).2 =
      { s with net := { s.net with heap := { s.net.heap with mem := m } } } := by
    refine honly.run (P := fun t => ∃ m, t = { s with net := { s.net with heap := { s.net.heap with mem := m } } }) ?_
      ⟨s.net.heap.mem, rfl⟩
    rintro o (⟨a, rfl⟩ | ⟨a, v, rfl⟩) t ⟨m, rfl⟩
    · exact ⟨m, rfl⟩
    · exact ⟨write m a v, rfl⟩
  exact ⟨m, Prod.ext rfl hm⟩

/-- The queue with `length` bytes published in descriptor `d`. -/
def VirtioNetQueue.sent (queue : VirtioNetQueue) (d length : ℕ) : VirtioNetQueue :=
  { queue with
    virtq := { queue.virtq with
      desc := Function.update queue.virtq.desc d { queue.virtq.desc d with len := length, flags := 0 }
      availRing := Function.update queue.virtq.availRing (queue.virtq.availIdx % 256) d
      availIdx := (queue.virtq.availIdx + 1) % 2 ^ 16 }
    inUse := Function.update queue.inUse d 1
    nextDesc := (d + 1) % 256 }

/-- A send, alone, where the descriptor at `next_desc` is free. -/
lemma virtMmioNetSend_tx (data : ℕ) (hsize : s.queue.size = 256) (hnext : s.queue.nextDesc = d)
    (hfree : s.queue.inUse d = 0) (hlen : length ≤ queueBufSize) : ∃ net,
    (virtMmioNetSend data length).run tx.exec s = (⟨⟩, { s with net := net }) ∧ net.queues .tx = s.queue.sent d length := by
  have hfirst : ∀ (t : TxSys) (n : ℕ), t.queue.inUse d = 0 → (searchDesc (n + 1) d).run tx.exec t = (d, t) := by
    intro t n ht
    simp only [searchDesc, inUse, size, op_bind, ret_bind, Prog.run]
    exact run_if_pos ht rfl
  have hsearch : ∀ out, (searchDesc 256 d).run tx.exec { s with net := { s.net with out := out } } =
      (d, { s with net := { s.net with out := out } }) := fun out => hfirst _ 255 hfree
  simp only [virtMmioNetSend, nextDesc, size, inUse, descAddr, setDescLen, setDescFlags, availIdx, setAvailRing, setInUse,
    setNextDesc, setAvailIdx, virtMmioNotify, op_bind, ret_bind]
  obtain ⟨out, hputs⟩ := uartPuts_tx "Sending data via Virtio Network Device...\n" s
  rw [run_bind, hputs, if_neg (Nat.not_lt.mpr hlen)]
  have hsize' : (s.net.queues .tx).size = 256 := hsize
  have hnext' : (s.net.queues .tx).nextDesc = d := hnext
  have hfree' : (s.net.queues .tx).inUse d = 0 := hfree
  have hexec : ∀ o t, tx.exec o t = TxSys.exec o t := fun _ _ => rfl
  simp only [Prog.run, hexec, TxSys.exec, TxSys.record, Op.exec, hsize', hnext']
  rw [run_bind, hsearch]
  simp only [Prog.run, hexec, TxSys.exec, TxSys.record, Op.exec, hfree', ne_eq, not_true_eq_false, if_false]
  obtain ⟨m, hcopy⟩ := memCopy_tx (s.net.queues .tx |>.virtq.desc d).addr data length
    { s with net := { s.net with out := out } }
  rw [run_bind, hcopy]
  refine ⟨_, rfl, ?_⟩
  simp [hexec, TxSys.exec, TxSys.record, Op.exec, NetState.setQueue, NetState.setVirtq, VirtioNetQueue.sent, hsize']

/-- A round of the completion loop, alone, where there is a completion. -/
lemma reclaimTx_tx (hsize : s.queue.size = 256) (hcur : s.cur = none) (hnew : s.queue.lastUsedIdx ≠ s.virtq.usedIdx)
    (hid : (s.virtq.usedRing (s.queue.lastUsedIdx % 256)).id = d) (hd : d < 256) : ∃ net,
    reclaimTx.run tx.exec s = (true, { s with
      net := net, nextRead := (s.queue.lastUsedIdx + 1) % 2 ^ 16, reclaimed := s.reclaimed ++ [d] }) ∧
      net.queues .tx = { s.queue with
        inUse := Function.update s.queue.inUse d 0
        lastUsedIdx := (s.queue.lastUsedIdx + 1) % 2 ^ 16 } := by
  have hexec : ∀ o t, tx.exec o t = TxSys.exec o t := fun _ _ => rfl
  have hsize' : (s.net.queues .tx).size = 256 := hsize
  have hnew' : (s.net.queues .tx).lastUsedIdx ≠ (s.net.queues .tx).virtq.usedIdx := hnew
  have hid' : ((s.net.queues .tx).virtq.usedRing ((s.net.queues .tx).lastUsedIdx % 256)).id = d := hid
  obtain ⟨out, hputs⟩ := uartPuts_tx "Device processed TX descriptor.\n" s
  simp only [reclaimTx, lastUsedIdx, usedIdx, size, usedId, setInUse, setLastUsedIdx, op_bind, ret_bind, pure_eq]
  simp only [Prog.run, hexec, TxSys.exec, TxSys.record, Op.exec]
  rw [if_pos hnew', run_bind, hputs]
  simp only [Prog.run, hexec, TxSys.exec, TxSys.record, Op.exec, hsize', hid', hcur, hd, if_true]
  refine ⟨_, rfl, ?_⟩
  simp [NetState.setQueue]

/-- The device acts while the driver does not. -/
lemma can_device {p : Driver PUnit} {c c' : Virtq × Device} (hsteps : Relation.ReflTransGen DeviceStep c c') :
    ∀ {net dev}, c = ((net.queues .tx).virtq, dev) →
      (∀ net' : NetState, net'.queues .tx = { net.queues .tx with virtq := c'.1 } →
        tx.Can TxCall P p ⟨net', c'.2, cur, read, reclaimed⟩) → tx.Can TxCall P p ⟨net, dev, cur, read, reclaimed⟩ := by
  induction hsteps using Relation.ReflTransGen.head_induction_on with
  | refl =>
      rintro net dev rfl h
      exact h net rfl
  | @head c d hstep _ ih =>
      rintro net dev rfl h
      obtain ⟨v, dev'⟩ := d
      refine .env (.ring hstep) (ih ?_ fun net' hnet => h net' ?_)
      · rw [NetState.setVirtq_queues]
      · rw [hnet, NetState.setVirtq_queues]

/-- A send is left alone. -/
lemma can_send (data : ℕ) (hq : net.queues .tx = queue) (hsize : queue.size = 256) (hnext : queue.nextDesc = d)
    (hfree : queue.inUse d = 0) (hlen : length ≤ queueBufSize)
    (h : ∀ net' : NetState, net'.queues .tx = queue.sent d length →
      tx.Can TxCall P (.ret ⟨⟩) ⟨net', dev, cur, read, reclaimed⟩) :
    tx.Can TxCall P (.ret ⟨⟩) ⟨net, dev, cur, read, reclaimed⟩ := by
  subst hq
  obtain ⟨net', hrun, hnet⟩ := virtMmioNetSend_tx (s := ⟨net, dev, cur, read, reclaimed⟩) data hsize hnext hfree hlen
  refine .call (.send data length) (.alone ?_)
  rw [hrun]
  exact h net' hnet

/-- So is a round of the completion loop. -/
lemma can_reclaim (hq : net.queues .tx = queue) (hsize : queue.size = 256) (hnew : queue.lastUsedIdx ≠ queue.virtq.usedIdx)
    (hid : (queue.virtq.usedRing (queue.lastUsedIdx % 256)).id = d) (hd : d < 256)
    (h : ∀ net' : NetState, net'.queues .tx = { queue with
        inUse := Function.update queue.inUse d 0
        lastUsedIdx := (queue.lastUsedIdx + 1) % 2 ^ 16 } →
      tx.Can TxCall P (.ret ⟨⟩) ⟨net', dev, none, (queue.lastUsedIdx + 1) % 2 ^ 16, reclaimed ++ [d]⟩) :
    tx.Can TxCall P (.ret ⟨⟩) ⟨net, dev, none, read, reclaimed⟩ := by
  subst hq
  obtain ⟨net', hrun, hnet⟩ := reclaimTx_tx (s := ⟨net, dev, none, read, reclaimed⟩) hsize rfl hnew hid hd
  refine .call .reclaim (.alone ?_)
  rw [run_bind, hrun]
  exact h net' hnet

end

/-! ## Every run -/

/-- **Ownership of the TX queue.**  In every run of sends and completion steps against a conforming
device, of any length: between the driver's operations `in_use` marks exactly the outstanding
descriptors; at all times none is outstanding twice and the released ones are a prefix of the
device's completions; a send writes the buffer and the descriptor of no outstanding descriptor and an
avail slot the device has taken; and a completion step looks at the oldest completion that has not
been released. -/
theorem tx_ownership (s₀ s : TxSys) (p : Driver PUnit) (ls : List Turn) (hstart : TxStart s₀)
    (hrun : Run (tx.Step TxCall) (.ret ⟨⟩, s₀) ls (p, s)) :
    (p = .ret ⟨⟩ → ∀ d < descQueueSize, (s.queue.inUse d = 1 ↔ d ∈ s.outstanding) ∧
      (s.queue.inUse d = 0 ∨ s.queue.inUse d = 1)) ∧
    s.outstanding.Nodup ∧ s.reclaimed <+: s.dev.made.map (·.id) ∧
    ∀ o k, p = .op o k → s.Allowed o := by
  have hcall : ∀ a p t, TxCall a p → txDone a t → TxWp p t := by
    rintro a p t (⟨data, length⟩ | _) ht
    · exact txWp_virtMmioNetSend data length ht
    · exact txWp_reclaimTx ht
  have hat := Run.wp hcall hrun (txWp_ret hstart.idle)
  have hsound : s.Sound := by
    cases p with
    | ret a => exact TxAt.sound hat
    | op o k => exact hat.1
  refine ⟨?_, hsound.1, hsound.2, ?_⟩
  · rintro rfl d hd
    exact ⟨TxAt.inUse_iff hat hd, TxAt.bit hat d hd⟩
  · rintro o k rfl
    exact hat.2

/-- Two packets are sent; the device completes the first, and it is reclaimed. -/
theorem tx_ownership_reclaimed : ∃ s₀ s ls, TxStart s₀ ∧ Run (tx.Step TxCall) (.ret ⟨⟩, s₀) ls (.ret ⟨⟩, s) ∧
    s.dev.made = [⟨0, 60⟩] ∧ s.reclaimed = [0] ∧ s.outstanding = [1] ∧ s.queue.inUse 0 = 0 ∧ s.queue.inUse 1 = 1 := by
  rcases queueLayout_init with ⟨limit, net, hinit⟩
  have hsplit : (NetState.boot (queueLayout.boot (fun _ => 0) true)).heap.Split _ _ :=
    queueLayout.boot_split (fun _ => 0) true
  have hstart : TxStart ⟨net, .reset, none, 0, []⟩ := .mk hsplit (fun _ => rfl) hinit
  obtain ⟨-, ⟨hused, havail, hsize, hlast, hnext, -⟩, hkeep⟩ := virtMmioNetVirtqInit_spec hsplit hinit
  rcases hq : net.queues .tx with ⟨ring, ⟨desc, availIdx, availRing, usedIdx, usedRing⟩, buffers, size, last, next, inUse⟩
  rw [hq] at hused havail hsize hlast hnext hkeep
  obtain rfl : usedIdx = 0 := hused
  obtain rfl : availIdx = 0 := havail
  obtain rfl : size = 256 := hsize
  obtain rfl : last = 0 := hlast
  obtain rfl : next = 0 := hnext
  obtain rfl : inUse = fun _ => 0 := hkeep
  have hcan : tx.Can TxCall (fun p s => p = .ret ⟨⟩ ∧ s.dev.made = [⟨0, 60⟩] ∧ s.reclaimed = [0] ∧ s.outstanding = [1])
      (.ret ⟨⟩) ⟨net, .reset, none, 0, []⟩ := by
    refine can_send 0x80000000 hq rfl rfl rfl (show 60 ≤ queueBufSize by decide) fun net₁ hq₁ => ?_
    refine can_device (DeviceStep.completes (u := ⟨0, 60⟩) ?_ rfl ?_) rfl fun net₂ hq₂ => ?_
    · rw [hq₁]
      exact zero_ne_one
    · rw [hq₁]
      rfl
    rw [hq₁] at hq₂
    refine can_send 0x80000000 hq₂ rfl rfl rfl (show 60 ≤ queueBufSize by decide) fun net₃ hq₃ => ?_
    refine can_reclaim (d := 0) hq₃ rfl zero_ne_one rfl (by decide) fun net₄ hq₄ => ?_
    refine .now ⟨rfl, rfl, rfl, ?_⟩
    rw [TxSys.outstanding, TxSys.virtq, TxSys.queue, hq₄]
    show Ring.window _ 256 1 (gap 1 2) ++ [] ++ (Ring.window _ 256 1 (gap 1 1)).map _ = [1]
    rw [show gap 1 2 = 1 from rfl, show gap 1 1 = 0 from rfl]
    rfl
  obtain ⟨ls, ⟨_, s⟩, hrun, rfl, hmade, hrec, hout⟩ := hcan
  have hmarks := (tx_ownership _ _ _ _ hstart hrun).1 rfl
  refine ⟨_, s, ls, hstart, hrun, hmade, hrec, hout, ?_, (hmarks 1 (by decide)).1.mpr (by simp [hout])⟩
  refine (hmarks 0 (by decide)).2.resolve_right fun hone => ?_
  have hmem := (hmarks 0 (by decide)).1.mp hone
  rw [hout] at hmem
  exact absurd hmem (by decide)

end NetStack
