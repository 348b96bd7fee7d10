import NetStack.Memory.Partition

/-!
# `mem_alloc` is first fit

`memAlloc_spec` says what `mem_alloc` computes, by counting list entries in a window.  Here that is put in
terms of pages: the call succeeds exactly if some run of pages is free (`FreeRun`), the run it takes is the
first in the order of the list, which need not be the order of addresses, and a failed call leaves no trace.
-/

namespace NetStack

open ByteMem LinkedChain Transition

/-- `count` consecutive pages of the heap from `start` on, all of them free. -/
def FreeRun (h : Heap) (l : List ℕ) (count start : ℕ) : Prop :=
  ∀ i < count, h.IsPage (start + 4096 * i) ∧ start + 4096 * i ∈ l

/-- `start` is the first entry of `l` with a free run. -/
def FirstRun (h : Heap) (l : List ℕ) (count start : ℕ) : Prop :=
  ∃ before after, l = before ++ start :: after ∧ FreeRun h l count start ∧ ∀ q ∈ before, ¬ FreeRun h l count q

/-- What a successful call leaves: the run is gone from the list, the rest is in its old order. -/
structure TookRun (h h' : Heap) (l : List ℕ) (count start : ℕ) : Prop where
  first : FirstRun h l count start
  chain : IsChain (nextPage h'.mem) 0 h'.freeList (l.filter fun q => decide (q ∉ blockPages start count))
  enough : count ≤ h.freePageCount
  count : h'.freePageCount = h.freePageCount - count
  heapStart : h'.heapStart = h.heapStart
  heapEnd : h'.heapEnd = h.heapEnd
  sie : h'.sie = h.sie

/-! ## Counting in a window is looking for a run -/

section Runs

variable {h : Heap} {l : List ℕ} {count start : ℕ}

/-- The pages of a free run. -/
lemma FreeRun.block_subset (hrun : FreeRun h l count start) : blockPages start count ⊆ l := by
  intro p hp
  obtain ⟨i, hi, rfl⟩ := List.mem_map.mp hp
  exact (hrun i (List.mem_range.mp hi)).2

lemma FreeRun.of_block (hl : h.Free l) (hsub : blockPages start count ⊆ l) : FreeRun h l count start := by
  intro i hi
  have hmem : start + 4096 * i ∈ l := hsub (List.mem_map.mpr ⟨i, List.mem_range.mpr hi, rfl⟩)
  exact ⟨hl.isPage _ hmem, hmem⟩

/-- A run ends inside the heap. -/
lemma FreeRun.le_heapEnd (hb : h.Bounded) (hcount : 0 < count) (hrun : FreeRun h l count start) :
    start + count * 4096 ≤ h.heapEnd := by
  obtain ⟨⟨hal, -, hlt⟩, -⟩ := hrun (count - 1) (by omega)
  have hend := hb.endAligned
  omega

/-- **The test of the search**: as many list entries in the window as it has pages. -/
lemma startsRun_iff (hb : h.Bounded) (hl : h.Free l) (hcount : 0 < count) (hstart : start % 4096 = 0) :
    startsRun h.heapEnd count l start = true ↔ FreeRun h l count start := by
  have hal : ∀ p ∈ l, p % 4096 = 0 := fun p hp => (hl.isPage p hp).1
  simp only [startsRun, Bool.and_eq_true, decide_eq_true_eq, beq_iff_eq]
  constructor
  · rintro ⟨-, hc⟩
    have hperm := filter_inRun_perm hstart hl.nodup hal hc
    exact .of_block hl fun p hp => (List.mem_filter.mp (hperm.mem_iff.mpr hp)).1
  · intro hrun
    refine ⟨hrun.le_heapEnd hb hcount, ?_⟩
    -- the entries in the window are the pages of the block, each once
    have hperm : (l.filter (inRun start count)).Perm (blockPages start count) := by
      refine (List.perm_ext_iff_of_nodup (hl.nodup.filter _) (blockPages_nodup start count)).mpr fun p => ?_
      rw [List.mem_filter]
      constructor
      · rintro ⟨hp, hin⟩
        exact (mem_blockPages hstart).mpr ⟨hal p hp, hin⟩
      · intro hp
        exact ⟨hrun.block_subset hp, ((mem_blockPages hstart).mp hp).2⟩
    rw [List.countP_eq_length_filter, hperm.length_eq]
    simp [blockPages]

/-- Taking the window away is taking the block away. -/
lemma filter_not_block (hl : h.Free l) (hstart : start % 4096 = 0) :
    (l.filter fun p => !inRun start count p) = l.filter fun p => decide (p ∉ blockPages start count) := by
  refine List.filter_congr fun p hp => ?_
  rw [Bool.eq_iff_iff, decide_eq_true_eq, mem_blockPages hstart]
  simp [(hl.isPage p hp).1]

/-- **The search finds the first run.** -/
lemma takeRun_some_iff (hb : h.Bounded) (hl : h.Free l) (hcount : 0 < count) {l' : List ℕ} :
    takeRun h.heapEnd count l = some (start, l') ↔
      FirstRun h l count start ∧ l' = l.filter fun p => decide (p ∉ blockPages start count) := by
  have hal : ∀ p ∈ l, p % 4096 = 0 := fun p hp => (hl.isPage p hp).1
  have hfind : l.find? (startsRun h.heapEnd count l) = some start ↔ FirstRun h l count start := by
    rw [List.find?_eq_some_iff_append, FirstRun]
    constructor
    · rintro ⟨hstarts, before, after, heq, hbefore⟩
      have hmem : ∀ q ∈ before, q ∈ l := fun q hq => heq ▸ List.mem_append_left _ hq
      have hself : start ∈ l := heq ▸ List.mem_append_right _ List.mem_cons_self
      refine ⟨before, after, heq, (startsRun_iff hb hl hcount (hal start hself)).mp hstarts, fun q hq hrun => ?_⟩
      have hno := hbefore q hq
      rw [(startsRun_iff hb hl hcount (hal q (hmem q hq))).mpr hrun] at hno
      simp at hno
    · rintro ⟨before, after, heq, hrun, hbefore⟩
      have hmem : ∀ q ∈ before, q ∈ l := fun q hq => heq ▸ List.mem_append_left _ hq
      have hself : start ∈ l := heq ▸ List.mem_append_right _ List.mem_cons_self
      refine ⟨(startsRun_iff hb hl hcount (hal start hself)).mpr hrun, before, after, heq, fun q hq => ?_⟩
      rw [Bool.not_eq_true', Bool.eq_false_iff, Ne, startsRun_iff hb hl hcount (hal q (hmem q hq))]
      exact hbefore q hq
  rw [takeRun, Option.map_eq_some_iff]
  constructor
  · rintro ⟨s, hs, heq⟩
    obtain ⟨rfl, rfl⟩ := Prod.mk.inj heq
    have hfirst := hfind.mp hs
    exact ⟨hfirst, filter_not_block hl (hal s (List.mem_of_find?_eq_some hs))⟩
  · rintro ⟨hfirst, rfl⟩
    have hs := hfind.mpr hfirst
    exact ⟨start, hs, by rw [filter_not_block hl (hal start (List.mem_of_find?_eq_some hs))]⟩

/-- **A failed search** means that no run is free, wherever it might start. -/
lemma takeRun_none_iff (hb : h.Bounded) (hl : h.Free l) (hcount : 0 < count) :
    takeRun h.heapEnd count l = none ↔ ¬ ∃ start, FreeRun h l count start := by
  rw [takeRun, Option.map_eq_none_iff, List.find?_eq_none, not_exists]
  constructor
  · intro hnone start hrun
    have hself : start ∈ l := (hrun 0 hcount).2
    exact hnone start hself ((startsRun_iff hb hl hcount (hl.isPage start hself).1).mpr hrun)
  · intro hnone p hp hstarts
    exact hnone p ((startsRun_iff hb hl hcount (hl.isPage p hp).1).mp hstarts)

end Runs

/-! ## The call -/

/-- **A request of at least one page**: no run is free and nothing happens, or the first free run goes to the
caller. -/
lemma Heap.Split.first_fit {h : Heap} {l owned : List ℕ} (hs : h.Split l owned) {size : ℕ} (hpos : 0 < size)
    (hsize : size < 2 ^ 32) :
    MemAllocReturns h size (h, 0) ∧ (¬ ∃ start, FreeRun h l (pageCount size) start) ∨
      ∃ h' start, MemAllocReturns h size (h', start) ∧ start ≠ 0 ∧ FirstRun h l (pageCount size) start ∧
        h.Allocated h' (l.filter fun q => decide (q ∉ blockPages start (pageCount size))) ∧
        h'.freePageCount + pageCount size = h.freePageCount := by
  have hcount : 0 < pageCount size := by
    rw [pageCount_eq hsize]
    omega
  have hspec := memAlloc_spec hs.bounded hs.free hpos
  cases ht : takeRun h.heapEnd (pageCount size) l with
  | none =>
      rw [ht] at hspec
      exact .inl ⟨hspec, (takeRun_none_iff hs.bounded hs.free hcount).mp ht⟩
  | some res =>
      obtain ⟨start, l'⟩ := res
      rw [ht] at hspec
      obtain ⟨h', hret, ha⟩ := hspec
      obtain ⟨hne, -⟩ := hs.took ht ha
      -- the run is a part of the list, so the counter does not wrap
      have hlen := (takeRun_perm hs.free ht).2.length_eq
      rw [List.length_append, ← ha.free.count, ← hs.free.count] at hlen
      simp only [blockPages, List.length_map, List.length_range] at hlen
      obtain ⟨hfirst, rfl⟩ := (takeRun_some_iff hs.bounded hs.free hcount).mp ht
      exact .inr ⟨h', start, hret, hne, hfirst, ha, hlen⟩

/-- **`mem_alloc`, soundness and completeness.**  On any heap in order every call returns.  It returns a page
if and only if the size is not zero and some run of as many pages is free; the page is where the first run
in the list begins, and the list loses exactly that run; otherwise nothing has changed. -/
theorem mem_alloc_first_fit (h : Heap) (l owned : List ℕ) (hs : h.Split l owned) (size : ℕ) (hsize : size < 2 ^ 32) :
    ∃ h' p, (∀ res, MemAllocReturns h size res ↔ res = (h', p)) ∧
      (p ≠ 0 ↔ 0 < size ∧ ∃ start, FreeRun h l ((size + 4095) / 4096) start) ∧
      (p ≠ 0 → TookRun h h' l ((size + 4095) / 4096) p) ∧
      (p = 0 → h' = h) := by
  rcases Nat.eq_zero_or_pos size with rfl | hpos
  · have hret : MemAllocReturns h 0 (h, 0) := ⟨0, memAlloc_zero 0 h⟩
    exact ⟨h, 0, hret.iff_eq, by simp, by simp, fun _ => rfl⟩
  rw [← pageCount_eq hsize]
  rcases hs.first_fit hpos hsize with ⟨hret, hno⟩ | ⟨h', start, hret, hne, hfirst, ha, hlen⟩
  · exact ⟨h, 0, hret.iff_eq, by simp [hno], by simp, fun _ => rfl⟩
  · obtain ⟨before, after, heq, hrun, hbefore⟩ := id hfirst
    refine ⟨h', start, hret.iff_eq, ⟨fun _ => ⟨hpos, start, hrun⟩, fun _ => hne⟩, fun _ => ?_,
      fun h0 => absurd h0 hne⟩
    exact ⟨hfirst, ha.free.chain, by omega, by omega, ha.heapStart, ha.heapEnd, ha.sie⟩

/-- Two pages from a heap of two. -/
theorem mem_alloc_first_fit_two_pages : ∃ h l, Heap.Split h l [] ∧ l = [0x87FFA000, 0x87FFB000] ∧
    ∃ h' p, MemAllocReturns h 4097 (h', p) ∧ p ≠ 0 ∧ TookRun h h' l 2 p := by
  have hsplit := twoPageLayout.boot_split (fun _ => 0) true
  have hpages := twoPageLayout_pages (fun _ => 0) true
  generalize twoPageLayout.boot (fun _ => 0) true = h at *
  rw [hpages] at hsplit
  obtain ⟨h', p, hret, hiff, htook, -⟩ := mem_alloc_first_fit h _ [] hsplit 4097 (by decide)
  have hne : p ≠ 0 := hiff.mpr ⟨by decide, 0x87FFA000, .of_block hsplit.free (by decide)⟩
  exact ⟨h, _, hsplit, rfl, h', p, (hret _).mpr rfl, hne, htook hne⟩

end NetStack
