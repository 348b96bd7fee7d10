import NetStack.Virtio.Output
import NetStack.Virtio.Device
import NetStack.Virtio.Init

/-!
# Initialising the queues from any state

`virt_find_all_devices` calls `virt_mmio_net_virtq_init` for every network device it finds, on the same
`net_queues`.  `QueuesReady` is what a call that returns `0` should leave whatever was there before: both
queues empty, all RX descriptors offered and all TX descriptors free, and 512 buffers that nobody else
has.  All of it holds except for `in_use`, which the call does not touch: what it leaves is what it
found (`init_queuesReady`).
-/

namespace NetStack

open ByteMem Concurrent

/-- Byte `x` is in the buffer of descriptor `i` of queue `q`. -/
def NetState.InBuffer (s : NetState) (q : QueueIndex) (i x : ℕ) : Prop := (s.queues q).virtq.InBuffer i x

/-- Byte `x` is in the ring of queue `q`. -/
def NetState.InRing (s : NetState) (q : QueueIndex) (x : ℕ) : Prop :=
  (s.queues q).ring ≤ x ∧ x < (s.queues q).ring + sizeofVirtq

/-- What initialisation establishes, from a heap with the pages `l` free and `owned` in the hands of
others. -/
structure QueuesReady (l owned : List ℕ) (s : NetState) : Prop where
  inUse : ∀ i < descQueueSize, (s.queues .tx).inUse i = 0
  nextDesc : ∀ q, (s.queues q).nextDesc = 0
  lastUsedIdx : ∀ q, (s.queues q).lastUsedIdx = 0
  usedIdx : ∀ q, (s.queues q).virtq.usedIdx = 0
  txIdx : (s.queues .tx).virtq.availIdx = 0
  rxIdx : (s.queues .rx).virtq.availIdx = descQueueSize
  rxAvail : ((List.range descQueueSize).map (s.queues .rx).virtq.availRing).Perm (List.range descQueueSize)
  len : ∀ q, ∀ i < descQueueSize, ((s.queues q).virtq.desc i).len = queueBufSize
  apart : ∀ q q', ∀ i < descQueueSize, ∀ j < descQueueSize, ∀ x, s.InBuffer q i x → s.InBuffer q' j x → q = q' ∧ i = j
  rings : ∀ q q', ∀ i < descQueueSize, ∀ x, s.InBuffer q i x → ¬ s.InRing q' x
  pages : ∃ l' taken, s.heap.Split l' (taken ++ owned) ∧ taken ⊆ l ∧
    ∀ q, ∀ i < descQueueSize, ∀ x, s.InBuffer q i x → pageFloor x ∈ taken

section

variable {s s' : NetState} {l owned : List ℕ} {r₁ b₁ r₂ b₂ : ℕ}

/-- The areas of the two queues. -/
def bufferArea (b₁ b₂ : ℕ) : QueueIndex → List ℕ
  | .rx => blockPages b₁ 128
  | .tx => blockPages b₂ 128

def ringArea (r₁ r₂ : ℕ) : QueueIndex → List ℕ
  | .rx => blockPages r₁ 2
  | .tx => blockPages r₂ 2

lemma Initialised.page_of_inBuffer (hi : Initialised s s' owned r₁ b₁ r₂ b₂) {q : QueueIndex} {i x : ℕ}
    (hlt : i < descQueueSize) (hx : s'.InBuffer q i x) : pageFloor x ∈ bufferArea b₁ b₂ q := by
  rcases hi.split with ⟨l', hs⟩
  have hlt' : i < 256 := hlt
  cases q with
  | rx =>
      rw [NetState.InBuffer, Virtq.InBuffer, (hi.rx.desc i hlt').1, queueBufSize_eq] at hx
      have hal := (hs.block_bounds (a := b₁) (n := 128) (by decide) fun p hp => by simp [hp]).1
      exact pageFloor_mem_blockPages hal (by omega) (by omega)
  | tx =>
      rw [NetState.InBuffer, Virtq.InBuffer, (hi.tx.desc i hlt').1, queueBufSize_eq] at hx
      have hal := (hs.block_bounds (a := b₂) (n := 128) (by decide) fun p hp => by simp [hp]).1
      exact pageFloor_mem_blockPages hal (by omega) (by omega)

lemma Initialised.page_of_inRing (hi : Initialised s s' owned r₁ b₁ r₂ b₂) {q : QueueIndex} {x : ℕ}
    (hx : s'.InRing q x) : pageFloor x ∈ ringArea r₁ r₂ q := by
  rcases hi.split with ⟨l', hs⟩
  have hsize : sizeofVirtq = 6664 := by decide
  cases q with
  | rx =>
      rw [NetState.InRing, hi.rx.ring, hsize] at hx
      have hal := (hs.block_bounds (a := r₁) (n := 2) (by decide) fun p hp => by simp [hp]).1
      exact pageFloor_mem_blockPages hal (by omega) (by omega)
  | tx =>
      rw [NetState.InRing, hi.tx.ring, hsize] at hx
      have hal := (hs.block_bounds (a := r₂) (n := 2) (by decide) fun p hp => by simp [hp]).1
      exact pageFloor_mem_blockPages hal (by omega) (by omega)

/-- The areas have no page in common. -/
lemma Initialised.areas_apart (hi : Initialised s s' owned r₁ b₁ r₂ b₂) :
    (∀ q q' p, p ∈ bufferArea b₁ b₂ q → p ∈ bufferArea b₁ b₂ q' → q = q') ∧
      ∀ q q' p, p ∈ bufferArea b₁ b₂ q → p ∉ ringArea r₁ r₂ q' := by
  rcases hi.split with ⟨l', hs⟩
  have hnd := (List.nodup_append.mp hs.nodup).2.1
  simp only [List.nodup_append, List.mem_append] at hnd
  obtain ⟨-, ⟨-, ⟨-, -, hrx⟩, htr⟩, htb⟩ := hnd
  refine ⟨?_, ?_⟩
  · intro q q' p hp hp'
    cases q <;> cases q' <;> first | rfl | skip
    · exact absurd rfl (htb p hp' p (.inr (.inl hp)))
    · exact absurd rfl (htb p hp p (.inr (.inl hp')))
  · intro q q' p hp hp'
    cases q <;> cases q'
    · exact hrx p hp p (.inl hp') rfl
    · exact htr p hp' p (.inl hp) rfl
    · exact htb p hp p (.inr (.inr (.inl hp'))) rfl
    · exact htb p hp p (.inl hp') rfl

/-- The pages of the four areas were free. -/
lemma Initialised.taken (hs : s.heap.Split l owned) (hi : Initialised s s' owned r₁ b₁ r₂ b₂) :
    ∃ l' taken, s'.heap.Split l' (taken ++ owned) ∧ taken ⊆ l ∧ ∀ q, bufferArea b₁ b₂ q ⊆ taken := by
  rcases hi.split with ⟨l', hs'⟩
  refine ⟨l', blockPages b₂ 128 ++ (blockPages r₂ 2 ++ (blockPages b₁ 128 ++ blockPages r₁ 2)), ?_, ?_, ?_⟩
  · simpa only [List.append_assoc] using hs'
  · intro p hp
    have hmem : p ∈ blockPages b₂ 128 ++ (blockPages r₂ 2 ++ (blockPages b₁ 128 ++ (blockPages r₁ 2 ++ owned))) := by
      simp only [List.mem_append] at hp ⊢
      tauto
    have hpage : p ∈ s.heap.pages := by
      rw [← hi.pages]
      exact hs'.perm.mem_iff.mp (List.mem_append_right _ hmem)
    rcases List.mem_append.mp (hs.perm.mem_iff.mpr hpage) with hl | hown
    · exact hl
    · -- a page of another client is in none of the four areas
      have hnd := (List.nodup_append.mp hs'.nodup).2.1
      rw [← List.append_assoc, ← List.append_assoc, ← List.append_assoc] at hnd
      refine absurd rfl ((List.nodup_append.mp hnd).2.2 p ?_ p hown)
      simp only [List.mem_append] at hp ⊢
      tauto
  · intro q p hp
    cases q with
    | rx => exact List.mem_append_right _ (List.mem_append_right _ (List.mem_append_left _ hp))
    | tx => exact List.mem_append_left _ hp

/-- **Everything but `in_use`** is as it should be. -/
lemma Initialised.ready (hs : s.heap.Split l owned) (hi : Initialised s s' owned r₁ b₁ r₂ b₂)
    (huse : ∀ i < descQueueSize, (s.queues .tx).inUse i = 0) : QueuesReady l owned s' where
  inUse := by
    rw [hi.inUse .tx]
    exact huse
  nextDesc := by
    rintro (_ | _)
    · exact hi.rx.nextDesc
    · exact hi.tx.nextDesc
  lastUsedIdx := by
    rintro (_ | _)
    · exact hi.rx.lastUsedIdx
    · exact hi.tx.lastUsedIdx
  usedIdx := by
    rintro (_ | _)
    · exact hi.rx.usedIdx
    · exact hi.tx.usedIdx
  txIdx := hi.txIdx
  rxIdx := hi.rxIdx
  rxAvail := by
    have hid : (List.range descQueueSize).map (s'.queues .rx).virtq.availRing = List.range descQueueSize := by
      refine (List.map_congr_left fun i hlt => ?_).trans (List.map_id _)
      exact hi.rxAvail i (List.mem_range.mp hlt)
    rw [hid]
  len := by
    rintro (_ | _) i hlt
    · exact (hi.rx.desc i hlt).2.1
    · exact (hi.tx.desc i hlt).2.1
  apart := by
    intro q q' i hi₁ j hj x hx hx'
    obtain rfl := hi.areas_apart.1 q q' _ (hi.page_of_inBuffer hi₁ hx) (hi.page_of_inBuffer hj hx')
    refine ⟨rfl, ?_⟩
    cases q with
    | rx => exact hi.rx.laid.inBuffer_unique hi₁ hj hx hx'
    | tx => exact hi.tx.laid.inBuffer_unique hi₁ hj hx hx'
  rings := by
    intro q q' i hlt x hx hring
    exact hi.areas_apart.2 q q' _ (hi.page_of_inBuffer hlt hx) (hi.page_of_inRing hring)
  pages := by
    rcases hi.taken hs with ⟨l', taken, hs', hsub, hbuf⟩
    exact ⟨l', taken, hs', hsub, fun q i hlt x hx => hbuf q (hi.page_of_inBuffer hlt hx)⟩

end

/-- **Initialisation from any state.**  On every heap in order and whatever `net_queues` holds, a call
that returns `0` establishes the queue invariants if and only if all TX descriptors were marked free
before it. -/
theorem init_queuesReady (limit : ℕ) (s s' : NetState) (l owned : List ℕ) (hs : s.heap.Split l owned)
    (h : virtMmioNetVirtqInit limit s = some (s', true)) :
    QueuesReady l owned s' ↔ ∀ i < descQueueSize, (s.queues .tx).inUse i = 0 := by
  rcases virtMmioNetVirtqInit_inv hs h with ⟨r₁, b₁, r₂, b₂, hi⟩
  refine ⟨fun hready i hlt => ?_, hi.ready hs⟩
  rw [← hi.inUse .tx]
  exact hready.inUse i hlt

/-- The first initialisation. -/
theorem init_queuesReady_boot : ∃ s' l, QueuesReady l [] s' := by
  rcases queueLayout_init with ⟨limit, s', hinit⟩
  have hsplit : (NetState.boot (queueLayout.boot (fun _ => 0) true)).heap.Split _ _ :=
    queueLayout.boot_split (fun _ => 0) true
  exact ⟨s', _, (init_queuesReady limit _ s' _ _ hsplit hinit).mpr fun _ _ => rfl⟩

/-! ## A second initialisation -/

lemma searchDesc_run {s : NetState} {n d : ℕ} (hfree : (s.queues .tx).inUse d = 0) :
    (searchDesc (n + 1) d).run (Op.exec .tx) s = (d, s) := by
  simp only [searchDesc, inUse, op_bind, ret_bind, Prog.run]
  exact run_if_pos hfree rfl

/-- A packet is sent from the first descriptor. -/
lemma virtMmioNetSend_run {s : NetState} (data : ℕ) (hsize : (s.queues .tx).size = 256)
    (hnext : (s.queues .tx).nextDesc = 0) (hfree : (s.queues .tx).inUse 0 = 0) :
    ((virtMmioNetSend data 0).run (Op.exec .tx) s).2.heap = s.heap ∧
      (((virtMmioNetSend data 0).run (Op.exec .tx) s).2.queues .tx).inUse 0 = 1 := by
  have hlong : ¬ 0 > queueBufSize := by decide
  have hsearch : ∀ out, (searchDesc 256 0).run (Op.exec .tx) { s with out := out } = (0, { s with out := out }) :=
    fun out => searchDesc_run (n := 255) hfree
  simp only [virtMmioNetSend, nextDesc, size, inUse, descAddr, setDescLen, setDescFlags, availIdx,
    setAvailRing, setInUse, setNextDesc, setAvailIdx, virtMmioNotify, op_bind, ret_bind]
  rw [run_bind, prints_uartPuts, if_neg hlong]
  simp only [Prog.run, Op.exec, run_bind, hsize, hnext]
  rw [hsearch]
  simp [hfree, Prog.run, Op.exec, memCopy, NetState.setQueue, NetState.setVirtq]

/-- A layout with room for the queues twice over. -/
def doubleLayout : LinkLayout where
  heapSym := kernelBaseVa + ramLength - 0x20C000
  stackSym := kernelBaseVa + ramLength - 0x4000
  heap_ge := by decide
  heap_le := by decide
  stack_eq := virtToPhys_stackLimit

/-- The first initialisation leaves 260 pages in one block. -/
lemma doubleLayout_init : ∃ limit s a owned,
    virtMmioNetVirtqInit limit (.boot (doubleLayout.boot (fun _ => 0) true)) = some (s, true) ∧
      s.heap.Split (blockPages a (260 + 0)) owned := by
  have hsplit := doubleLayout.boot_split (fun _ => 0) true
  have ha := doubleLayout.boot_allocated (fun _ => 0) true
  have hs : (doubleLayout.boot (fun _ => 0) true).heapStart = 0x87DF4000 := by
    rw [ha.heapStart, LinkLayout.bare_heapStart]
    decide
  have he : (doubleLayout.boot (fun _ => 0) true).heapEnd = 0x87FFC000 := by
    rw [ha.heapEnd, LinkLayout.bare_heapEnd, ← ha.heapStart, hs]
    decide
  rw [Heap.pages_eq, hs, he] at hsplit
  rcases virtMmioNetVirtqInit_succeeds (s := .boot (doubleLayout.boot (fun _ => 0) true)) (k := 260) hsplit
    with ⟨limit, s, owned, hinit, hs'⟩
  exact ⟨limit, s, _, owned, hinit, hs'⟩

/-- **A descriptor lost to a second initialisation.**  A packet is sent between two initialisations:
both return `0`, nothing is outstanding on the new TX queue, and its first descriptor is marked in
use. -/
theorem reinit_in_use : ∃ limit limit' s₁ s₂ s₃ l owned,
    virtMmioNetVirtqInit limit (.boot (doubleLayout.boot (fun _ => 0) true)) = some (s₁, true) ∧
      s₂ = ((virtMmioNetSend 0 0).run (Op.exec .tx) s₁).2 ∧ s₂.heap.Split l owned ∧
      virtMmioNetVirtqInit limit' s₂ = some (s₃, true) ∧ (s₃.queues .tx).inUse 0 = 1 ∧ ¬ QueuesReady l owned s₃ := by
  rcases doubleLayout_init with ⟨limit, s₁, a, owned, hinit, hs₁⟩
  have hboot : (NetState.boot (doubleLayout.boot (fun _ => 0) true)).heap.Split _ _ :=
    doubleLayout.boot_split (fun _ => 0) true
  rcases virtMmioNetVirtqInit_inv hboot hinit with ⟨r₁, b₁, r₂, b₂, hi⟩
  have hfree : (s₁.queues .tx).inUse 0 = 0 := by
    rw [hi.inUse .tx]
    rfl
  rcases virtMmioNetSend_run 0 hi.tx.size hi.tx.nextDesc hfree with ⟨hheap, huse⟩
  have hs₂ : ((virtMmioNetSend 0 0).run (Op.exec .tx) s₁).2.heap.Split (blockPages a (260 + 0)) owned := by
    rw [hheap]
    exact hs₁
  rcases virtMmioNetVirtqInit_succeeds hs₂ with ⟨limit', s₃, -, hinit', -⟩
  rcases virtMmioNetVirtqInit_inv hs₂ hinit' with ⟨r₁', b₁', r₂', b₂', hi'⟩
  have hmarked : (s₃.queues .tx).inUse 0 = 1 := by
    rw [hi'.inUse .tx]
    exact huse
  refine ⟨limit, limit', s₁, _, s₃, _, _, hinit, rfl, hs₂, hinit', hmarked, fun hready => ?_⟩
  have hzero := hready.inUse 0 (by decide)
  rw [hmarked] at hzero
  exact absurd hzero (by decide)

end NetStack
