import NetStack.Memory.Partition

/-!
# Allocation from a contiguous free list

`page_allocator_init` leaves the free list as one ascending block of pages, and `mem_alloc` takes its
runs from the front of it: as long as nothing is freed the allocator only moves a boundary.
-/

namespace NetStack

open ByteMem

lemma blockPages_add (start n k : ℕ) :
    blockPages start (n + k) = blockPages start n ++ blockPages (start + 4096 * n) k := by
  simp only [blockPages, List.range_add, List.map_append, List.map_map]
  refine congrArg _ (List.map_congr_left fun i _ => ?_)
  simp only [Function.comp_apply]
  omega

/-- The first run of a contiguous list is its front. -/
lemma takeRun_blockPages {heapEnd start n k : ℕ} (hn : 0 < n)
    (hend : start + n * 4096 ≤ heapEnd) :
    takeRun heapEnd n (blockPages start (n + k)) = some (start, blockPages (start + 4096 * n) k) := by
  have hin : ∀ p ∈ blockPages start n, inRun start n p = true := by
    intro p hp
    simp only [blockPages, List.mem_map, List.mem_range] at hp
    rcases hp with ⟨i, hi, rfl⟩
    simp only [inRun, decide_eq_true_eq]
    omega
  have hout : ∀ p ∈ blockPages (start + 4096 * n) k, inRun start n p = false := by
    intro p hp
    simp only [blockPages, List.mem_map, List.mem_range] at hp
    rcases hp with ⟨i, -, rfl⟩
    simp only [inRun, decide_eq_false_iff_not]
    omega
  have hcount : (blockPages start (n + k)).countP (inRun start n) = n := by
    rw [blockPages_add, List.countP_append, List.countP_eq_length.mpr hin,
      List.countP_eq_zero.mpr fun p hp => by simp [hout p hp]]
    simp [blockPages]
  have hhead : blockPages start (n + k) = start :: (blockPages start (n + k)).tail := by
    rw [show n + k = (n + k - 1) + 1 by omega]
    simp [blockPages, List.range_succ_eq_map]
  have hstart : startsRun heapEnd n (blockPages start (n + k)) start = true := by
    simp only [startsRun, hcount, beq_self_eq_true, Bool.and_true, decide_eq_true_eq]
    exact hend
  have hfind : (blockPages start (n + k)).find? (startsRun heapEnd n (blockPages start (n + k)))
      = some start := by
    generalize startsRun heapEnd n (blockPages start (n + k)) = f at hstart
    rw [hhead]
    exact List.find?_cons_of_pos hstart
  rw [takeRun, hfind, Option.map_some, blockPages_add, List.filter_append,
    List.filter_eq_nil_iff.mpr fun p hp => by simp [hin p hp],
    List.filter_eq_self.mpr fun p hp => by simp [hout p hp], List.nil_append]

/-- **A request served from a contiguous list** takes its front. -/
lemma Heap.Split.bump {h : Heap} {start n k size : ℕ} {owned : List ℕ}
    (hs : h.Split (blockPages start (n + k)) owned) (hn : pageCount size = n) (hpos : 0 < size)
    (hn' : 0 < n) :
    ∃ h', MemAllocReturns h size (h', start) ∧ start ≠ 0 ∧
      h'.Split (blockPages (start + 4096 * n) k) (blockPages start n ++ owned) := by
  have hlast : start + 4096 * (n - 1) ∈ blockPages start (n + k) := by
    simp only [blockPages, List.mem_map, List.mem_range]
    exact ⟨n - 1, by omega, rfl⟩
  have hpage := hs.free.isPage _ hlast
  have hend := hs.bounded.endAligned
  have htake : takeRun h.heapEnd n (blockPages start (n + k))
      = some (start, blockPages (start + 4096 * n) k) := by
    refine takeRun_blockPages hn' ?_
    simp only [Heap.IsPage] at hpage
    omega
  have hspec := memAlloc_spec hs.bounded hs.free hpos
  rw [hn, htake] at hspec
  rcases hspec with ⟨h', hret, halloc⟩
  rcases hs.took htake halloc with ⟨hne, hsplit⟩
  exact ⟨h', hret, hne, hsplit⟩

end NetStack
