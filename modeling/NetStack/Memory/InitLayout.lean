import NetStack.Memory.Partition

/-!
# `page_allocator_init` for every layout

`LinkLayout` is where `linker.ld` puts the heap.  Here the two symbols are any two words, and the arithmetic is that
of `uintptr_t`: `pageAllocatorInit64` is the function on machine words, its loop with a bound on the number of
rounds.  No layout makes a sum overflow, and the loop stops because both of its ends are multiples of the page size
(`pushPages64_eq`), so that it is `pageAllocatorInit` (`pageAllocatorInit64_eq`).

`page_allocator_init_exact` says what that builds: exactly the usable pages, in ascending order, are linked and
counted, and nothing outside them is written.  One layout is special.  A heap that begins at address 0 begins with a
page whose address is the null pointer, and a list that starts with it is read as empty.
-/

namespace NetStack

open ByteMem LinkedChain

/-! ## The code on machine words -/

/-- `virt_to_phys`. -/
def virtToPhys64 (addr : BitVec 64) : BitVec 64 :=
  if addr ≥ BitVec.ofNat 64 kernelBaseVa then addr - BitVec.ofNat 64 virtOffset else addr

/-- `x & ~(PAGE_SIZE - 1)`. -/
def pageFloor64 (x : BitVec 64) : BitVec 64 := x &&& ~~~(BitVec.ofNat 64 pageSize - 1)

/-- The loop of `page_allocator_init`, for at most `fuel` rounds. -/
def pushPages64 : (fuel : ℕ) → Heap → (addr : BitVec 64) → Option Heap
  | 0, _, _ => none
  | fuel + 1, h, addr =>
      if addr.toNat > h.heapStart then
        let page := addr - BitVec.ofNat 64 pageSize
        pushPages64 fuel
          { h with
            mem := storeLE h.mem 8 page.toNat h.freeList
            freeList := page.toNat
            freePageCount := (h.freePageCount + 1) % 2 ^ 32 }
          page
      else some h

/-- `page_allocator_init`. -/
def pageAllocatorInit64 (fuel : ℕ) (m : Mem) (sie : Bool) (heapSym stackSym : BitVec 64) : Option Heap :=
  let heapStart := pageFloor64 (virtToPhys64 heapSym + BitVec.ofNat 64 pageSize - 1)
  let heapEnd := heapStart + BitVec.ofNat 64 maxHeapSize
  let stackLimit := virtToPhys64 stackSym
  let heapEnd := if heapEnd > stackLimit then stackLimit else heapEnd
  let heapEnd := pageFloor64 heapEnd
  pushPages64 fuel
    { mem := m, freeList := 0, heapStart := heapStart.toNat, heapEnd := heapEnd.toNat,
      freePageCount := 0, sie := sie }
    heapEnd

/-! ## No sum overflows -/

lemma virtToPhys64_toNat (addr : BitVec 64) : (virtToPhys64 addr).toNat = virtToPhys addr.toNat := by
  have hbase : (BitVec.ofNat 64 kernelBaseVa).toNat = kernelBaseVa := by decide
  have hoffset : (BitVec.ofNat 64 virtOffset).toNat = virtOffset := by decide
  have hle : virtOffset ≤ kernelBaseVa := by decide
  rw [virtToPhys64, virtToPhys]
  simp only [ge_iff_le, BitVec.le_def, hbase]
  split_ifs with hhigh
  · rw [BitVec.toNat_sub_of_le (BitVec.le_def.mpr (hoffset.symm ▸ hle.trans hhigh)), hoffset]
  · rfl

/-- An identity address is below the high half of the kernel. -/
lemma virtToPhys_lt (addr : BitVec 64) : virtToPhys addr.toNat < kernelBaseVa := by
  have hlt := addr.isLt
  rw [virtToPhys]
  split_ifs with hhigh
  · simp only [kernelBaseVa_eq, virtOffset_eq] at hhigh ⊢
    omega
  · exact Nat.lt_of_not_le hhigh

lemma pageFloor64_eq_shift (x : BitVec 64) : pageFloor64 x = (x >>> 12) <<< 12 := by
  have hmask : BitVec.ofNat 64 pageSize - 1 = (BitVec.allOnes 12).setWidth 64 := by decide
  have hbit : ∀ i, (BitVec.ofNat 64 pageSize - 1).getLsbD i = decide (i < 12) := by
    intro i
    rw [hmask, BitVec.getLsbD_setWidth, BitVec.getLsbD_allOnes]
    grind
  rw [pageFloor64]
  refine BitVec.eq_of_getLsbD_eq fun i hi => ?_
  rw [BitVec.getLsbD_and, BitVec.getLsbD_not, hbit, BitVec.getLsbD_shiftLeft, BitVec.getLsbD_ushiftRight]
  by_cases hlow : i < 12
  · simp [hlow]
  · simp [hlow, hi, Nat.add_sub_cancel' (Nat.le_of_not_lt hlow)]

lemma pageFloor64_toNat (x : BitVec 64) : (pageFloor64 x).toNat = pageFloor x.toNat := by
  have hlt : x.toNat / 4096 * 4096 < 2 ^ 64 := (Nat.div_mul_le_self _ _).trans_lt x.isLt
  rw [pageFloor64_eq_shift, BitVec.toNat_shiftLeft, BitVec.toNat_ushiftRight, Nat.shiftRight_eq_div_pow,
    Nat.shiftLeft_eq, pageFloor, pageSize_eq]
  exact Nat.mod_eq_of_lt hlt

lemma pushPages_succ (h : Heap) (n : ℕ) :
    pushPages h (h.heapStart + 4096 * (n + 1))
      = pushPages (h.push (h.heapStart + 4096 * n)) (h.heapStart + 4096 * n) := by
  have hpage : h.heapStart + 4096 * (n + 1) - pageSize = h.heapStart + 4096 * n := by
    rw [pageSize_eq]
    omega
  rw [pushPages_step (by omega), hpage]

/-- **The loop stops**: from a whole number of pages above its lower end it comes down to that end. -/
lemma pushPages64_eq : ∀ (n fuel : ℕ) {h : Heap} {addr : BitVec 64}, addr.toNat = h.heapStart + 4096 * n →
    n < fuel → pushPages64 fuel h addr = some (pushPages h addr.toNat)
  | _, 0, _, _, _, hfuel => absurd hfuel (Nat.not_lt_zero _)
  | 0, fuel + 1, h, addr, haddr, _ => by
      rw [pushPages64, if_neg (by omega), pushPages_stop (by omega)]
  | n + 1, fuel + 1, h, addr, haddr, hfuel => by
      have hsize : (BitVec.ofNat 64 pageSize).toNat = 4096 := by decide
      have hpage : (addr - BitVec.ofNat 64 pageSize).toNat = h.heapStart + 4096 * n := by
        rw [BitVec.toNat_sub_of_le (BitVec.le_def.mpr (by omega)), hsize]
        omega
      rw [pushPages64, if_pos (by omega), haddr, pushPages_succ, ← hpage]
      exact pushPages64_eq n fuel hpage (Nat.lt_of_succ_lt_succ hfuel)

/-! ## What the loop builds -/

section Loop

variable {h : Heap}

lemma Heap.push_heapStart (h : Heap) (page : ℕ) : (h.push page).heapStart = h.heapStart := rfl

lemma Heap.push_freeList (h : Heap) (page : ℕ) : (h.push page).freeList = page := rfl

lemma pushPages_count (h : Heap) : ∀ n, h.freePageCount + n < 2 ^ 32 →
    (pushPages h (h.heapStart + 4096 * n)).freePageCount = h.freePageCount + n := by
  intro n
  induction n generalizing h with
  | zero =>
      intro _
      rw [pushPages_stop (by omega), Nat.add_zero]
  | succ n ih =>
      intro hlt
      have hcount : (h.push (h.heapStart + 4096 * n)).freePageCount = h.freePageCount + 1 :=
        Nat.mod_eq_of_lt (by omega)
      have hrest := ih (h.push (h.heapStart + 4096 * n)) (by omega)
      rw [pushPages_succ]
      refine hrest.trans ?_
      rw [hcount, Nat.add_assoc, Nat.add_comm 1]

/-- Only the pages that are pushed are written. -/
lemma pushPages_outside (h : Heap) : ∀ (n x : ℕ), x < h.heapStart ∨ h.heapStart + 4096 * n ≤ x →
    (pushPages h (h.heapStart + 4096 * n)).mem x = h.mem x := by
  intro n
  induction n generalizing h with
  | zero =>
      intro x _
      rw [pushPages_stop (by omega)]
  | succ n ih =>
      intro x hx
      have hpage : (h.push (h.heapStart + 4096 * n)).mem x = h.mem x :=
        storeLE_outside 8 h.mem _ _ x (by omega)
      have hrest := ih (h.push (h.heapStart + 4096 * n)) x (by
        change x < h.heapStart ∨ h.heapStart + 4096 * n ≤ x
        omega)
      rw [pushPages_succ]
      exact hrest.trans hpage

/-- A push puts a page in front of a chain that it is not part of. -/
lemma Heap.push_chain {l : List ℕ} {page : ℕ} (hl : IsChain (nextPage h.mem) 0 h.freeList l)
    (hhead : h.freeList < 2 ^ 64) (hpos : page ≠ 0) (hge : ∀ p ∈ l, page + 8 ≤ p) :
    IsChain (nextPage (h.push page).mem) 0 (h.push page).freeList (page :: l) := by
  refine ⟨rfl, hpos, ?_⟩
  have hnext : nextPage (h.push page).mem page = h.freeList := nextPage_storeLE h.mem hhead
  rw [hnext]
  refine hl.congr fun p hp => ?_
  have hapart := hge p hp
  exact (loadLE_storeLE_disjoint h.mem h.freeList (.inr (by omega))).symm

/-- **The chain** of the pages that are pushed, ahead of what was linked before. -/
lemma pushPages_chain (h : Heap) (l : List ℕ) (hpos : 0 < h.heapStart) :
    ∀ n, h.heapStart + 4096 * n ≤ 2 ^ 64 → IsChain (nextPage h.mem) 0 h.freeList l →
      h.freeList < 2 ^ 64 → (∀ p ∈ l, h.heapStart + 4096 * n ≤ p) →
      IsChain (nextPage (pushPages h (h.heapStart + 4096 * n)).mem) 0
        (pushPages h (h.heapStart + 4096 * n)).freeList (blockPages h.heapStart n ++ l) := by
  intro n
  induction n generalizing h l with
  | zero =>
      intro _ hl _ _
      rw [pushPages_stop (by omega)]
      exact hl
  | succ n ih =>
      intro hend hl hhead hge
      have habove : ∀ p ∈ l, h.heapStart + 4096 * n + 8 ≤ p := by
        intro p hp
        have := hge p hp
        omega
      have hpush := Heap.push_chain hl hhead (show h.heapStart + 4096 * n ≠ 0 by omega) habove
      rw [Heap.push_freeList] at hpush
      rw [pushPages_succ, blockPages_succ, List.append_assoc, List.singleton_append]
      have hrest := ih (h.push (h.heapStart + 4096 * n)) ((h.heapStart + 4096 * n) :: l) hpos
      rw [Heap.push_heapStart, Heap.push_freeList] at hrest
      refine hrest (by omega) hpush (by omega) fun p hp => ?_
      rcases List.mem_cons.mp hp with rfl | hp
      · exact le_rfl
      · have := hge p hp
        omega

end Loop

/-! ## The ends of the heap -/

section Ends

variable (heap stack : ℕ)

/-- `heap_start`, for identity addresses. -/
def initStart : ℕ := pageFloor (heap + pageSize - 1)

/-- `heap_end`. -/
def initEnd : ℕ :=
  pageFloor (if initStart heap + maxHeapSize > stack then stack else initStart heap + maxHeapSize)

/-- How many pages there are between them. -/
def initCount : ℕ := (initEnd heap stack - initStart heap) / 4096

lemma initStart_eq : initStart heap = (heap + 4095) / 4096 * 4096 := by
  rw [initStart, pageFloor, pageSize_eq]
  rfl

lemma initEnd_eq : initEnd heap stack = min stack (initStart heap + 16777216) / 4096 * 4096 := by
  have hmin : (if initStart heap + 16777216 > stack then stack else initStart heap + 16777216)
      = min stack (initStart heap + 16777216) := by
    split_ifs <;> omega
  rw [initEnd, maxHeapSize_eq, hmin, pageFloor, pageSize_eq]

lemma initCount_le : initCount heap stack ≤ 4096 := by
  have hend := initEnd_eq heap stack
  rw [initCount]
  omega

/-- Both ends are multiples of the page size. -/
lemma initEnd_of_lt (hlt : initStart heap < initEnd heap stack) :
    initEnd heap stack = initStart heap + 4096 * initCount heap stack := by
  have hstart := initStart_eq heap
  have hend := initEnd_eq heap stack
  rw [initCount]
  omega

lemma initCount_of_le (hle : initEnd heap stack ≤ initStart heap) : initCount heap stack = 0 := by
  rw [initCount, Nat.sub_eq_zero_of_le hle]

end Ends

/-- The allocator's variables before the loop. -/
def initHeap (m : Mem) (sie : Bool) (heap stack : ℕ) : Heap :=
  { mem := m, freeList := 0, heapStart := initStart heap, heapEnd := initEnd heap stack,
    freePageCount := 0, sie := sie }

lemma pageAllocatorInit_eq (m : Mem) (sie : Bool) (heapSym stackSym : ℕ) :
    pageAllocatorInit m sie heapSym stackSym
      = pushPages (initHeap m sie (virtToPhys heapSym) (virtToPhys stackSym))
          (initHeap m sie (virtToPhys heapSym) (virtToPhys stackSym)).heapEnd := rfl

lemma pushPages_initStart (m : Mem) (sie : Bool) (heap stack : ℕ) :
    pushPages (initHeap m sie heap stack) (initStart heap) = initHeap m sie heap stack := pushPages_stop le_rfl

/-- The loop goes over as many pages as fit. -/
lemma pushPages_initHeap (m : Mem) (sie : Bool) (heap stack : ℕ) :
    pushPages (initHeap m sie heap stack) (initHeap m sie heap stack).heapEnd
      = pushPages (initHeap m sie heap stack)
          (initStart heap + 4096 * initCount heap stack) := by
  rcases Nat.lt_or_ge (initStart heap) (initEnd heap stack) with hlt | hge
  · exact congrArg _ (initEnd_of_lt heap stack hlt)
  · rw [initCount_of_le heap stack hge, Nat.mul_zero, Nat.add_zero, pushPages_stop hge, pushPages_initStart]

lemma pageFloor64_start (heapSym : BitVec 64) :
    (pageFloor64 (virtToPhys64 heapSym + BitVec.ofNat 64 pageSize - 1)).toNat
      = initStart (virtToPhys heapSym.toNat) := by
  have hlt := virtToPhys_lt heapSym
  have hsize : (BitVec.ofNat 64 pageSize).toNat = 4096 := by decide
  simp only [kernelBaseVa_eq] at hlt
  have hsum : (virtToPhys64 heapSym + BitVec.ofNat 64 pageSize).toNat = virtToPhys heapSym.toNat + 4096 := by
    rw [BitVec.toNat_add_of_lt, virtToPhys64_toNat, hsize]
    rw [virtToPhys64_toNat, hsize]
    omega
  have hdiff : (virtToPhys64 heapSym + BitVec.ofNat 64 pageSize - 1).toNat
      = virtToPhys heapSym.toNat + pageSize - 1 := by
    rw [BitVec.toNat_sub_of_le (BitVec.le_def.mpr (by rw [hsum]; exact Nat.le_add_left 1 _)), hsum]
    rfl
  rw [pageFloor64_toNat, hdiff, initStart]

/-- **The function on words** is the function on numbers. -/
lemma pageAllocatorInit64_eq (fuel : ℕ) (m : Mem) (sie : Bool) (heapSym stackSym : BitVec 64)
    (hfuel : initCount (virtToPhys heapSym.toNat) (virtToPhys stackSym.toNat) < fuel) :
    pageAllocatorInit64 fuel m sie heapSym stackSym
      = some (pageAllocatorInit m sie heapSym.toNat stackSym.toNat) := by
  set heap := virtToPhys heapSym.toNat with hheap
  set stack := virtToPhys stackSym.toNat with hstack
  have hlt := virtToPhys_lt heapSym
  have hstart := pageFloor64_start heapSym
  rw [← hheap] at hlt hstart
  simp only [kernelBaseVa_eq] at hlt
  set start := pageFloor64 (virtToPhys64 heapSym + BitVec.ofNat 64 pageSize - 1) with hstartDef
  have hsize : (BitVec.ofNat 64 maxHeapSize).toNat = maxHeapSize := by decide
  have hsum : (start + BitVec.ofNat 64 maxHeapSize).toNat = initStart heap + maxHeapSize := by
    rw [BitVec.toNat_add_of_lt, hstart, hsize]
    rw [hstart, hsize, initStart_eq, maxHeapSize_eq]
    omega
  have hend : (pageFloor64 (if start + BitVec.ofNat 64 maxHeapSize > virtToPhys64 stackSym then virtToPhys64 stackSym
      else start + BitVec.ofNat 64 maxHeapSize)).toNat = initEnd heap stack := by
    rw [pageFloor64_toNat, initEnd, apply_ite BitVec.toNat, virtToPhys64_toNat, hsum]
    simp only [gt_iff_lt, BitVec.lt_def, virtToPhys64_toNat, hsum, hstack]
  unfold pageAllocatorInit64
  simp only [← hstartDef, hstart, hend]
  rw [pageAllocatorInit_eq]
  rcases Nat.lt_or_ge (initStart heap) (initEnd heap stack) with hord | hord
  · exact (pushPages64_eq _ fuel (hend.trans (initEnd_of_lt heap stack hord)) hfuel).trans (by rw [hend]; rfl)
  · -- nothing fits, and the loop is not entered
    rw [initCount_of_le heap stack hord] at hfuel
    obtain ⟨rounds, rfl⟩ := Nat.exists_eq_succ_of_ne_zero hfuel.ne'
    rw [pushPages64, if_neg (by rw [hend]; exact Nat.not_lt.mpr hord), pushPages_stop hord]
    rfl

/-! ## The usable pages -/

/-- A page that lies wholly between the identity addresses `heap` and `stack` and within `MAX_HEAP_SIZE` of the
rounded-up start of the heap. -/
def UsablePage (heap stack p : ℕ) : Prop :=
  p % pageSize = 0 ∧ heap ≤ p ∧ p + pageSize ≤ stack ∧
    p + pageSize ≤ pageFloor (heap + pageSize - 1) + maxHeapSize

lemma blockPages_pairwise (start n : ℕ) : (blockPages start n).Pairwise (· < ·) := by
  rw [blockPages, List.pairwise_map]
  exact List.pairwise_lt_range.imp fun hlt => by omega

lemma length_blockPages (start n : ℕ) : (blockPages start n).length = n := by
  rw [blockPages, List.length_map, List.length_range]

/-- **The usable pages** are those between the two ends. -/
lemma mem_initPages (heap stack p : ℕ) :
    p ∈ blockPages (initStart heap) (initCount heap stack) ↔ UsablePage heap stack p := by
  have hstart := initStart_eq heap
  have hend := initEnd_eq heap stack
  have haligned : initStart heap % 4096 = 0 := by omega
  have hround : pageFloor (heap + pageSize - 1) = initStart heap := rfl
  rw [mem_blockPages haligned, UsablePage, hround, inRun, decide_eq_true_eq, initCount, pageSize_eq, maxHeapSize_eq]
  constructor
  · rintro ⟨hal, hlo, hhi⟩
    exact ⟨hal, by omega, by omega, by omega⟩
  · rintro ⟨hal, hlo, hstack, hmax⟩
    exact ⟨hal, by omega, by omega⟩

lemma initStart_pos {heap : ℕ} (hpos : heap ≠ 0) : 0 < initStart heap := by
  have hstart := initStart_eq heap
  omega

lemma initHeap_heapStart (m : Mem) (sie : Bool) (heap stack : ℕ) :
    (initHeap m sie heap stack).heapStart = initStart heap := rfl

lemma initHeap_freePageCount (m : Mem) (sie : Bool) (heap stack : ℕ) :
    (initHeap m sie heap stack).freePageCount = 0 := rfl

lemma initHeap_chain (m : Mem) (sie : Bool) (heap stack : ℕ) :
    IsChain (nextPage (initHeap m sie heap stack).mem) 0 (initHeap m sie heap stack).freeList [] := rfl

/-- The heap that the loop leaves. -/
def initDone (m : Mem) (sie : Bool) (heap stack : ℕ) : Heap :=
  pushPages (initHeap m sie heap stack) (initStart heap + 4096 * initCount heap stack)

lemma initDone_chain (m : Mem) (sie : Bool) {heap stack : ℕ} (hlt : heap < kernelBaseVa) (hpos : heap ≠ 0) :
    IsChain (nextPage (initDone m sie heap stack).mem) 0 (initDone m sie heap stack).freeList
      (blockPages (initStart heap) (initCount heap stack)) := by
  have hstart := initStart_eq heap
  have hcount := initCount_le heap stack
  have hbound : initStart heap + 4096 * initCount heap stack ≤ 2 ^ 64 := by
    simp only [kernelBaseVa_eq] at hlt
    omega
  have hchain := pushPages_chain (initHeap m sie heap stack) [] (initStart_pos hpos) (initCount heap stack)
  rw [initHeap_heapStart, List.append_nil] at hchain
  exact hchain hbound (initHeap_chain m sie heap stack) (Nat.two_pow_pos 64) fun _ hp => absurd hp List.not_mem_nil

/-- The free list is in memory as it should be, unless it would have to begin with the null pointer. -/
lemma initDone_chain_iff (m : Mem) (sie : Bool) {heap stack : ℕ} (hlt : heap < kernelBaseVa) :
    IsChain (nextPage (initDone m sie heap stack).mem) 0 (initDone m sie heap stack).freeList
      (blockPages (initStart heap) (initCount heap stack)) ↔
      heap ≠ 0 ∨ blockPages (initStart heap) (initCount heap stack) = [] := by
  constructor
  · intro hchain
    by_contra hnot
    obtain ⟨hzero, hne⟩ := not_or.mp hnot
    obtain rfl := not_not.mp hzero
    -- page 0 would be the first of the pages
    have hpos : 0 < initCount 0 stack := by
      rw [← length_blockPages (initStart 0) (initCount 0 stack)]
      exact List.length_pos_iff.mpr hne
    have hfirst : initStart 0 + 4096 * 0 = 0 := by rw [initStart_eq]
    exact hchain.null_notMem (List.mem_map.mpr ⟨0, List.mem_range.mpr hpos, hfirst⟩)
  · rintro (hpos | hnil)
    · exact initDone_chain m sie hlt hpos
    · have hzero : initCount heap stack = 0 := by
        rw [← length_blockPages (initStart heap) (initCount heap stack), hnil, List.length_nil]
      rw [hnil, initDone, hzero, Nat.mul_zero, Nat.add_zero, pushPages_initStart]
      exact initHeap_chain m sie heap stack

/-- **`page_allocator_init` builds exactly the usable heap**, for every value of the two symbols.  The loop ends; the
usable pages, in ascending order, are counted, and nothing below the heap or from the stack limit on is written.  They
are the free list in memory whenever the heap does not begin at address 0 or no page fits. -/
theorem page_allocator_init_exact (m : Mem) (sie : Bool) (heapSym stackSym : BitVec 64) :
    ∃ h l, (∀ fuel, l.length < fuel → pageAllocatorInit64 fuel m sie heapSym stackSym = some h) ∧
      l.Pairwise (· < ·) ∧
      (∀ p, p ∈ l ↔ UsablePage (virtToPhys heapSym.toNat) (virtToPhys stackSym.toNat) p) ∧
      h.freePageCount = l.length ∧
      (IsChain (nextPage h.mem) 0 h.freeList l ↔ virtToPhys heapSym.toNat ≠ 0 ∨ l = []) ∧
      ∀ x, x < virtToPhys heapSym.toNat ∨ virtToPhys stackSym.toNat ≤ x → h.mem x = m x := by
  have hlt := virtToPhys_lt heapSym
  have hrun := fun fuel => pageAllocatorInit64_eq fuel m sie heapSym stackSym
  rw [pageAllocatorInit_eq, pushPages_initHeap] at hrun
  generalize virtToPhys heapSym.toNat = heap at hlt hrun ⊢
  generalize virtToPhys stackSym.toNat = stack at hrun ⊢
  have hcount := initCount_le heap stack
  refine ⟨initDone m sie heap stack, blockPages (initStart heap) (initCount heap stack), fun fuel hfuel => hrun fuel ?_,
    blockPages_pairwise _ _, mem_initPages heap stack, ?_, initDone_chain_iff m sie hlt, fun x hx => ?_⟩
  · rwa [length_blockPages] at hfuel
  · have hpushed := pushPages_count (initHeap m sie heap stack) (initCount heap stack)
    rw [initHeap_heapStart] at hpushed
    rw [length_blockPages]
    exact (hpushed (by rw [initHeap_freePageCount]; omega)).trans (Nat.zero_add _)
  · have hframe := pushPages_outside (initHeap m sie heap stack) (initCount heap stack) x
    rw [initHeap_heapStart] at hframe
    refine hframe ?_
    have hstart := initStart_eq heap
    have hend := initEnd_eq heap stack
    rw [initCount]
    omega

/-- A heap that begins at address 0: one page fits, and no list in memory consists of it. -/
theorem page_allocator_init_null_page :
    ∃ h, (∀ fuel, 1 < fuel → pageAllocatorInit64 fuel (fun _ => 0) true 0 4096 = some h) ∧
      ¬ ∃ l, IsChain (nextPage h.mem) 0 h.freeList l ∧ ∀ p, p ∈ l ↔ UsablePage (virtToPhys 0) (virtToPhys 4096) p := by
  have hcount : initCount (virtToPhys (0 : BitVec 64).toNat) (virtToPhys (4096 : BitVec 64).toNat) = 1 := by decide
  have hpage : UsablePage (virtToPhys 0) (virtToPhys 4096) 0 := by
    unfold UsablePage
    decide
  refine ⟨_, fun fuel hfuel => pageAllocatorInit64_eq fuel _ true 0 4096 (hcount.symm ▸ hfuel), ?_⟩
  rintro ⟨l, hchain, hpages⟩
  exact hchain.null_notMem ((hpages 0).mpr hpage)

end NetStack
