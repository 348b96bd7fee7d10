import NetStack.Virtio.Device
import NetStack.Memory.Bump

/-!
# Initialisation of the queues

What a successful `virt_mmio_net_virtq_init` leaves behind, and that it succeeds on a heap whose first
260 pages are free and contiguous: two pages for each ring, 128 for the buffers of each queue.
-/

namespace NetStack

open ByteMem

/-- What a successful iteration leaves in its queue; `in_use` is not touched. -/
structure VirtioNetQueue.Fresh (q : VirtioNetQueue) : Prop where
  usedIdx : q.virtq.usedIdx = 0
  availIdx : q.virtq.availIdx = 0
  size : q.size = 256
  lastUsedIdx : q.lastUsedIdx = 0
  nextDesc : q.nextDesc = 0
  laid : q.virtq.Laid

lemma initDesc_apply (buffers flags : ℕ) (desc : ℕ → VirtqDesc) : ∀ {n i : ℕ}, i < n →
    initDesc buffers flags desc n i =
      { desc i with addr := (buffers + i * queueBufSize) % 2 ^ 64, len := queueBufSize, flags := flags }
  | n + 1, i, h => by
      have hkeep : ∀ k ≤ i, initDesc buffers flags desc k i = desc i := by
        intro k
        induction k with
        | zero => exact fun _ => rfl
        | succ k ih =>
            intro hk
            rw [initDesc, Function.update_of_ne (by omega)]
            exact ih (by omega)
      rw [initDesc]
      by_cases hi : i = n
      · subst hi
        rw [Function.update_self, hkeep i le_rfl]
      · rw [Function.update_of_ne hi]
        exact initDesc_apply buffers flags desc (by omega)

lemma readVirtq_memZero (m : Mem) (a : ℕ) :
    (readVirtq (memZero m a sizeofVirtq) a).usedIdx = 0 ∧
      (readVirtq (memZero m a sizeofVirtq) a).availIdx = 0 := by
  have hzero : ∀ n x, a ≤ x → x + n ≤ a + sizeofVirtq →
      loadLE (memZero m a sizeofVirtq) n x = 0 := by
    intro n x hlo hhi
    refine loadLE_eq_zero n _ fun j hj => fill_inside m a 0 sizeofVirtq _ ?_ ?_ <;> omega
  constructor
  · exact hzero 2 _ (by omega) (by simp only [sizeofVirtq, sizeofVirtqDesc, sizeofVirtqAvail,
      sizeofVirtqUsed, descQueueSize_eq]; omega)
  · exact hzero 2 _ (by omega) (by simp only [sizeofVirtq, sizeofVirtqDesc, sizeofVirtqAvail,
      sizeofVirtqUsed, descQueueSize_eq]; omega)

lemma memZero_ne {m : Mem} {a n x : ℕ} (h : memZero m a n x ≠ m x) : a ≤ x ∧ x < a + n := by
  by_contra hout
  exact h (fill_outside m a 0 n x (by omega))

/-- A byte of a block belongs to one of its pages. -/
lemma pageFloor_mem_blockPages {a n x : ℕ} (ha : a % 4096 = 0) (hlo : a ≤ x)
    (hhi : x < a + n * 4096) : pageFloor x ∈ blockPages a n := by
  refine (mem_blockPages ha).mpr ⟨?_, ?_⟩
  · simp only [pageFloor, pageSize_eq]
    omega
  · have hfloor : a ≤ pageFloor x ∧ pageFloor x < a + n * 4096 := by
      simp only [pageFloor, pageSize_eq]
      omega
    simpa [inRun] using hfloor

lemma pageCount_sizeofVirtq : pageCount sizeofVirtq = 2 := by decide

lemma pageCount_buffers : pageCount (queueBufSize * descQueueSize) = 128 := by decide

section

variable {s : NetState} {q : QueueIndex} {h : Heap} {ring buffers : ℕ} {l owned : List ℕ}

lemma setupQueue_heap : (setupQueue (attachQueue s q h ring buffers) q).heap = { h with
    mem := (memZero (memZero h.mem ring sizeofVirtq) buffers (queueBufSize * descQueueSize)) } := by
  simp [setupQueue, attachQueue, NetState.setQueue]

/-- Ring and buffers are cleared inside their own pages. -/
lemma setupQueue_split
    (hs : h.Split l (blockPages buffers 128 ++ (blockPages ring 2 ++ owned)))
    (hring : ring % 4096 = 0) (hbuf : buffers % 4096 = 0) :
    (setupQueue (attachQueue s q h ring buffers) q).heap.Split l
      (blockPages buffers 128 ++ (blockPages ring 2 ++ owned)) := by
  have hsize : sizeofVirtq = 6664 := by decide
  have hbytes : queueBufSize * descQueueSize = 524288 := by decide
  rw [setupQueue_heap]
  refine hs.write fun x hx => ?_
  by_cases hsecond : memZero (memZero h.mem ring sizeofVirtq) buffers
      (queueBufSize * descQueueSize) x = memZero h.mem ring sizeofVirtq x
  · rw [hsecond] at hx
    rcases memZero_ne hx with ⟨hlo, hhi⟩
    exact List.mem_append_right _ (List.mem_append_left _
      (pageFloor_mem_blockPages hring hlo (by omega)))
  · rcases memZero_ne hsecond with ⟨hlo, hhi⟩
    exact List.mem_append_left _ (pageFloor_mem_blockPages hbuf hlo (by omega))

end

/-- The addresses of a block of heap pages. -/
lemma Heap.Split.block_bounds {h : Heap} {l owned : List ℕ} {a n : ℕ} (hn : 0 < n) (hs : h.Split l owned)
    (hmem : blockPages a n ⊆ owned) : a % 4096 = 0 ∧ a + 4096 * n ≤ 2 ^ 41 + 4096 := by
  have hpage : ∀ i < n, a + 4096 * i ∈ owned := by
    intro i hi
    refine hmem ?_
    simp only [blockPages, List.mem_map, List.mem_range]
    exact ⟨i, hi, rfl⟩
  have hfirst := ((hs.isPage_owned (hpage 0 hn)).bounds hs.bounded).1
  have hlast := ((hs.isPage_owned (hpage (n - 1) (by omega))).bounds hs.bounded).2
  omega

/-- The pages of an area that a pointer names; `NULL` names none. -/
def areaPages (a n : ℕ) : List ℕ := if a = 0 then [] else blockPages a n

/-- **What an iteration does**, to its end or up to the failed allocation. -/
lemma initQueue_inv {limit : ℕ} {s s' : NetState} {q : QueueIndex} {l owned : List ℕ} {ok : Bool}
    (hs : s.heap.Split l owned) (h : initQueue limit s q = some (s', ok)) :
    ∃ h' ring buffers l', h'.Split l' (areaPages buffers 128 ++ (areaPages ring 2 ++ owned)) ∧
      h'.pages = s.heap.pages ∧
      if ok then ring ≠ 0 ∧ buffers ≠ 0 ∧ s' = setupQueue (attachQueue s q h' ring buffers) q
      else (ring = 0 ∨ buffers = 0) ∧
        s' = (attachQueue s q h' ring buffers).puts "Failed to allocate Virtio queue memory.\n" := by
  simp only [initQueue, Option.bind_eq_bind, Option.bind_eq_some_iff, Prod.exists] at h
  rcases h with ⟨h₁, ring, hret₁, h₂, buffers, hret₂, h⟩
  have hs₁ : ∃ l₁, h₁.Split l₁ (areaPages ring 2 ++ owned) ∧ h₁.pages = s.heap.pages := by
    rcases hs.alloc_returns ⟨limit, hret₁⟩ with ⟨rfl, rfl⟩ | ⟨hne, hpages, l₁, hs₁⟩
    · exact ⟨l, hs, rfl⟩
    · rw [pageCount_sizeofVirtq] at hs₁
      exact ⟨l₁, by rwa [areaPages, if_neg hne], hpages⟩
  rcases hs₁ with ⟨l₁, hs₁, hpages₁⟩
  have hs₂ : ∃ l₂, h₂.Split l₂ (areaPages buffers 128 ++ (areaPages ring 2 ++ owned)) ∧ h₂.pages = h₁.pages := by
    rcases hs₁.alloc_returns ⟨limit, hret₂⟩ with ⟨rfl, rfl⟩ | ⟨hne, hpages, l₂, hs₂⟩
    · exact ⟨l₁, hs₁, rfl⟩
    · rw [pageCount_buffers] at hs₂
      exact ⟨l₂, by rwa [areaPages, if_neg hne], hpages⟩
  rcases hs₂ with ⟨l₂, hs₂, hpages₂⟩
  refine ⟨h₂, ring, buffers, l₂, hs₂, hpages₂.trans hpages₁, ?_⟩
  split_ifs at h with hnull
  · obtain ⟨rfl, rfl⟩ : s' = _ ∧ ok = false := by simpa [eq_comm] using h
    exact ⟨hnull, rfl⟩
  · obtain ⟨rfl, rfl⟩ : s' = _ ∧ ok = true := by simpa [eq_comm] using h
    rw [not_or] at hnull
    exact ⟨hnull.1, hnull.2, rfl⟩

lemma offerAll_apply (ring : ℕ → ℕ) : ∀ {n i : ℕ}, i < n → offerAll ring n i = i
  | n + 1, i, h => by
      rw [offerAll]
      by_cases hi : i = n
      · rw [hi, Function.update_self]
      · rw [Function.update_of_ne hi]
        exact offerAll_apply ring (by omega)

/-- The descriptor flags of a queue's buffers. -/
def QueueIndex.flags : QueueIndex → ℕ
  | .rx => virtqDescFWrite
  | .tx => 0

/-- A queue with the memory at `ring` and `buffers`, as an iteration leaves it. -/
structure VirtioNetQueue.SetUp (queue : VirtioNetQueue) (q : QueueIndex) (r b : ℕ) : Prop where
  ring : queue.ring = r
  buffers : queue.buffers = b
  size : queue.size = 256
  lastUsedIdx : queue.lastUsedIdx = 0
  nextDesc : queue.nextDesc = 0
  usedIdx : queue.virtq.usedIdx = 0
  desc : ∀ i < 256, (queue.virtq.desc i).addr = b + i * 2048 ∧ (queue.virtq.desc i).len = 2048 ∧
    (queue.virtq.desc i).flags = q.flags

lemma setupQueue_setUp {s : NetState} {q : QueueIndex} {h : Heap} {ring buffers : ℕ} (hb : buffers + 524288 ≤ 2 ^ 64) :
    ((setupQueue (attachQueue s q h ring buffers) q).queues q).SetUp q ring buffers where
  ring := by simp [setupQueue, attachQueue]
  buffers := by simp [setupQueue, attachQueue]
  size := by simp [setupQueue, attachQueue]
  lastUsedIdx := by simp [setupQueue, attachQueue]
  nextDesc := by simp [setupQueue, attachQueue]
  usedIdx := by simpa [setupQueue, attachQueue, NetState.setQueue] using (readVirtq_memZero h.mem ring).1
  desc := by
    intro i hi
    have hlt : i < descQueueSize := hi
    simp only [setupQueue, attachQueue, NetState.setQueue_queues]
    rw [initDesc_apply _ _ _ hlt]
    refine ⟨Nat.mod_eq_of_lt (by simp only [queueBufSize_eq]; omega), rfl, ?_⟩
    cases q <;> rfl

/-- What a successful `virt_mmio_net_virtq_init` does, on a heap whose clients own `owned`. -/
structure Initialised (s s' : NetState) (owned : List ℕ) (rxRing rxBuffers txRing txBuffers : ℕ) : Prop where
  rx : (s'.queues .rx).SetUp .rx rxRing rxBuffers
  tx : (s'.queues .tx).SetUp .tx txRing txBuffers
  rxIdx : (s'.queues .rx).virtq.availIdx = 256
  rxAvail : ∀ i < 256, (s'.queues .rx).virtq.availRing i = i
  txIdx : (s'.queues .tx).virtq.availIdx = 0
  inUse : ∀ q, (s'.queues q).inUse = (s.queues q).inUse
  pages : s'.heap.pages = s.heap.pages
  notNull : rxRing ≠ 0 ∧ rxBuffers ≠ 0 ∧ txRing ≠ 0 ∧ txBuffers ≠ 0
  split : ∃ l, s'.heap.Split l (blockPages txBuffers 128 ++ (blockPages txRing 2 ++
    (blockPages rxBuffers 128 ++ (blockPages rxRing 2 ++ owned))))

/-- **A successful `virt_mmio_net_virtq_init`.** -/
lemma virtMmioNetVirtqInit_inv {limit : ℕ} {s s' : NetState} {l owned : List ℕ} (hs : s.heap.Split l owned)
    (h : virtMmioNetVirtqInit limit s = some (s', true)) : ∃ r₁ b₁ r₂ b₂, Initialised s s' owned r₁ b₁ r₂ b₂ := by
  simp only [virtMmioNetVirtqInit, Option.bind_eq_bind, Option.bind_eq_some_iff, Prod.exists] at h
  rcases h with ⟨s₁, ok₁, hrx, h⟩
  have hs' : (s.puts "Initializing Virtio Network Device Queue...\n").heap.Split l owned := hs
  split_ifs at h with hok₁
  swap
  · simp at h
  simp only [Option.bind_eq_some_iff, Prod.exists] at h
  rcases h with ⟨s₂, ok₂, htx, h⟩
  split_ifs at h with hok₂
  swap
  · simp at h
  simp only [Option.some.injEq, Prod.mk.injEq, and_true] at h
  subst hok₁ hok₂ h
  rcases initQueue_inv hs' hrx with ⟨h₁, r₁, b₁, l₁, hs₁, hpages₁, hr₁, hb₁, rfl⟩
  rw [areaPages, areaPages, if_neg hr₁, if_neg hb₁] at hs₁
  rcases hs₁.block_bounds (a := b₁) (n := 128) (by decide) (by simp) with ⟨hbuf₁, hlt₁⟩
  rcases hs₁.block_bounds (a := r₁) (n := 2) (by decide) (by simp) with ⟨hring₁, -⟩
  rcases initQueue_inv (setupQueue_split hs₁ hring₁ hbuf₁) htx with ⟨h₂, r₂, b₂, l₂, hs₂, hpages₂, hr₂, hb₂, rfl⟩
  rw [areaPages, areaPages, if_neg hr₂, if_neg hb₂] at hs₂
  rcases hs₂.block_bounds (a := b₂) (n := 128) (by decide) (by simp) with ⟨hbuf₂, hlt₂⟩
  rcases hs₂.block_bounds (a := r₂) (n := 2) (by decide) (by simp) with ⟨hring₂, -⟩
  generalize hs₁' : setupQueue (attachQueue (s.puts "Initializing Virtio Network Device Queue...\n") .rx h₁ r₁ b₁) .rx = s₁ at *
  have hset₁ : (s₁.queues .rx).SetUp .rx r₁ b₁ := hs₁' ▸ setupQueue_setUp (by omega)
  have hset₂ : ((setupQueue (attachQueue s₁ .tx h₂ r₂ b₂) .tx).queues .tx).SetUp .tx r₂ b₂ :=
    setupQueue_setUp (by omega)
  have hkeep : (setupQueue (attachQueue s₁ .tx h₂ r₂ b₂) .tx).queues .rx = s₁.queues .rx := by
    simp [setupQueue, attachQueue, NetState.setQueue]
  have huse₁ : ∀ q, (s₁.queues q).inUse = (s.queues q).inUse := by
    intro q
    rw [← hs₁']
    cases q <;> simp [setupQueue, attachQueue, NetState.setQueue, NetState.puts]
  refine ⟨r₁, b₁, r₂, b₂, ?_⟩
  have hrx' : ((offerRx (setupQueue (attachQueue s₁ .tx h₂ r₂ b₂) .tx)).puts
      "Virtio Network Device Queue initialized.\n").queues .rx = { s₁.queues .rx with virtq := { (s₁.queues .rx).virtq with
        availRing := offerAll (s₁.queues .rx).virtq.availRing (s₁.queues .rx).size
        availIdx := (s₁.queues .rx).size } } := by
    rw [← hkeep]
    exact NetState.setVirtq_queues (setupQueue (attachQueue s₁ .tx h₂ r₂ b₂) .tx) .rx _
  have htx' : ((offerRx (setupQueue (attachQueue s₁ .tx h₂ r₂ b₂) .tx)).puts
      "Virtio Network Device Queue initialized.\n").queues .tx =
        (setupQueue (attachQueue s₁ .tx h₂ r₂ b₂) .tx).queues .tx := by
    simp [offerRx, NetState.puts, NetState.setVirtq, NetState.setQueue]
  have hpages : h₂.pages = s.heap.pages := by
    rw [hpages₂, ← hs₁']
    exact hpages₁
  refine ⟨?_, ?_, ?_, ?_, ?_, ?_, hpages, ⟨hr₁, hb₁, hr₂, hb₂⟩, l₂, setupQueue_split hs₂ hring₂ hbuf₂⟩
  · rw [hrx']
    exact ⟨hset₁.ring, hset₁.buffers, hset₁.size, hset₁.lastUsedIdx, hset₁.nextDesc, hset₁.usedIdx, hset₁.desc⟩
  · rw [htx']
    exact hset₂
  · rw [hrx']
    exact hset₁.size
  · intro i hi
    rw [hrx', hset₁.size]
    exact offerAll_apply _ hi
  · rw [htx']
    simpa [setupQueue, attachQueue, NetState.setQueue] using (readVirtq_memZero h₂.mem r₂).2
  · intro q
    rw [← huse₁ q]
    cases q with
    | rx => rw [hrx']
    | tx =>
        rw [htx']
        simp [setupQueue, attachQueue, NetState.setQueue]

lemma VirtioNetQueue.SetUp.laid {queue : VirtioNetQueue} {q : QueueIndex} {r b : ℕ} (h : queue.SetUp q r b) :
    queue.virtq.Laid := ⟨b, fun i hi => (h.desc i hi).1⟩

/-- It offers every RX descriptor and nothing on TX. -/
lemma virtMmioNetVirtqInit_spec {limit : ℕ} {s s' : NetState} {l owned : List ℕ}
    (hs : s.heap.Split l owned) (h : virtMmioNetVirtqInit limit s = some (s', true)) :
    ((s'.queues .rx).virtq.usedIdx = 0 ∧ (s'.queues .rx).virtq.availIdx = 256 ∧
      (∀ i < 256, (s'.queues .rx).virtq.availRing i = i) ∧
      (s'.queues .rx).size = 256 ∧ (s'.queues .rx).lastUsedIdx = 0 ∧
      (s'.queues .rx).virtq.Laid) ∧
    (s'.queues .tx).Fresh ∧ (s'.queues .tx).inUse = (s.queues .tx).inUse := by
  rcases virtMmioNetVirtqInit_inv hs h with ⟨r₁, b₁, r₂, b₂, hinit⟩
  have hrx := hinit.rx
  have htx := hinit.tx
  exact ⟨⟨hrx.usedIdx, hinit.rxIdx, hinit.rxAvail, hrx.size, hrx.lastUsedIdx, hrx.laid⟩,
    ⟨htx.usedIdx, hinit.txIdx, htx.size, htx.lastUsedIdx, htx.nextDesc, htx.laid⟩, hinit.inUse .tx⟩

/-! ## Success -/

lemma initQueue_succeeds {s : NetState} (q : QueueIndex) {a k : ℕ} {owned : List ℕ}
    (hs : s.heap.Split (blockPages a (130 + k)) owned) :
    ∃ n s' owned', (∀ limit ≥ n, initQueue limit s q = some (s', true)) ∧
      s'.heap.Split (blockPages (a + 4096 * 130) k) owned' := by
  rw [show 130 + k = 2 + (128 + k) by omega] at hs
  have hal : a % 4096 = 0 := (hs.free.isPage a (by simp [blockPages])).1
  rcases hs.bump pageCount_sizeofVirtq (by decide) (by decide) with ⟨h₁, ⟨n₁, hret₁⟩, hring, hs₁⟩
  rcases hs₁.bump pageCount_buffers (by decide) (by decide) with ⟨h₂, ⟨n₂, hret₂⟩, hbuf, hs₂⟩
  refine ⟨max n₁ n₂, setupQueue (attachQueue s q h₂ a (a + 4096 * 2)) q,
    blockPages (a + 4096 * 2) 128 ++ (blockPages a 2 ++ owned), fun limit hlimit => ?_, ?_⟩
  · rw [initQueue, memAlloc_mono (le_trans (le_max_left ..) hlimit) hret₁]
    simp only [Option.bind_eq_bind, Option.bind_some,
      memAlloc_mono (le_trans (le_max_right ..) hlimit) hret₂]
    rw [if_neg (by simp only [not_or]; exact ⟨hring, hbuf⟩)]
  · rw [show a + 4096 * 130 = a + 4096 * 2 + 4096 * 128 by omega]
    exact setupQueue_split hs₂ hal (by omega)

/-- With 260 pages in one block the initialisation succeeds, and leaves the rest of the block. -/
lemma virtMmioNetVirtqInit_succeeds {s : NetState} {a k : ℕ} {owned : List ℕ}
    (hs : s.heap.Split (blockPages a (260 + k)) owned) :
    ∃ limit s' owned', virtMmioNetVirtqInit limit s = some (s', true) ∧
      s'.heap.Split (blockPages (a + 4096 * 260) k) owned' := by
  rw [show 260 + k = 130 + (130 + k) by omega] at hs
  have hs' : (s.puts "Initializing Virtio Network Device Queue...\n").heap.Split _ owned := hs
  rcases initQueue_succeeds .rx hs' with ⟨n₁, s₁, owned₁, hrx, hs₁⟩
  rcases initQueue_succeeds .tx hs₁ with ⟨n₂, s₂, owned₂, htx, hs₂⟩
  refine ⟨max n₁ n₂, (offerRx s₂).puts "Virtio Network Device Queue initialized.\n", owned₂, ?_, ?_⟩
  · rw [virtMmioNetVirtqInit]
    simp only [hrx _ (le_max_left n₁ n₂), htx _ (le_max_right n₁ n₂), Option.bind_eq_bind,
      Option.bind_some, if_true]
  · rw [show a + 4096 * 260 = a + 4096 * 130 + 4096 * 130 by omega]
    exact hs₂

/-! ## A machine to boot -/

/-- The driver before its first initialisation: `net_queues` is in `.bss`. -/
def NetState.boot (h : Heap) : NetState where
  heap := h
  queues _ := ⟨0, readVirtq h.mem 0, 0, 0, 0, 0, fun _ => 0⟩
  out := []
  notified := []

/-- A layout with room for the two queues: 260 pages of heap. -/
def queueLayout : LinkLayout where
  heapSym := kernelBaseVa + ramLength - 0x108000
  stackSym := kernelBaseVa + ramLength - 0x4000
  heap_ge := by decide
  heap_le := by decide
  stack_eq := virtToPhys_stackLimit

lemma queueLayout_init : ∃ limit s,
    virtMmioNetVirtqInit limit (.boot (queueLayout.boot (fun _ => 0) true)) = some (s, true) := by
  have hsplit := queueLayout.boot_split (fun _ => 0) true
  have ha := queueLayout.boot_allocated (fun _ => 0) true
  have hs : (queueLayout.boot (fun _ => 0) true).heapStart = 0x87EF8000 := by
    rw [ha.heapStart, LinkLayout.bare_heapStart]
    decide
  have he : (queueLayout.boot (fun _ => 0) true).heapEnd = 0x87FFC000 := by
    rw [ha.heapEnd, LinkLayout.bare_heapEnd, ← ha.heapStart, hs]
    decide
  rw [Heap.pages_eq, hs, he] at hsplit
  rcases virtMmioNetVirtqInit_succeeds (s := .boot (queueLayout.boot (fun _ => 0) true)) (k := 0) hsplit
    with ⟨limit, s, owned, hinit, -⟩
  exact ⟨limit, s, hinit⟩

end NetStack
