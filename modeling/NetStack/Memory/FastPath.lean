import NetStack.Memory.Partition

/-!
# The one-page path of `mem_alloc` and the range search

A request for one page pops the head of the list.  The range search would do the same for such a request:
the head's page ends inside the heap, exactly one list entry lies in it, and unlinking it writes `free_list`
and no link word.  `memAllocSearch` is `mem_alloc` without the fast path.
-/

namespace NetStack

open ByteMem LinkedChain

/-- `mem_alloc` without its `if (count == 1)`: every request takes the range search. -/
def memAllocSearch (limit : ℕ) (h : Heap) (size : ℕ) : Option (Heap × ℕ) :=
  if size = 0 then some (h, 0)
  else
    let count := pageCount size
    let (h, status) := allocatorIntrOff h
    if count > h.freePageCount then some (allocatorIntrRestore h status, 0)
    else searchRange limit count (count * pageSize) status limit h h.freeList

lemma memAllocSearch_mono {limit limit' size : ℕ} {h : Heap} {res : Heap × ℕ} (hlim : limit ≤ limit')
    (hr : memAllocSearch limit h size = some res) : memAllocSearch limit' h size = some res := by
  simp only [memAllocSearch] at hr ⊢
  split_ifs at hr ⊢
  · exact hr
  · exact hr
  · exact searchRange_mono hlim hlim hr

/-- **A walk that meets nothing to unlink** writes nothing. -/
lemma unlinkRange_keep {start stop : ℕ} {h : Heap} :
    ∀ {r : List ℕ} {fuel : ℕ} {link : Link}, IsChain (nextPage h.mem) 0 (h.readLink link) r →
      r.length < fuel → (∀ p ∈ r, ¬ (p ≥ start ∧ p < stop)) → unlinkRange start stop fuel h link = some h
  | _, 0, _, _, hf, _ => absurd hf (Nat.not_lt_zero _)
  | [], _ + 1, link, hc, _, _ => by
      rw [isChain_nil] at hc
      simp [unlinkRange, hc]
  | a :: r, fuel + 1, link, ⟨hp, ha, hr⟩, hf, hout => by
      have hrest : unlinkRange start stop fuel h (.next a) = some h :=
        unlinkRange_keep hr (by simpa using hf) fun p hp => hout p (List.mem_cons_of_mem _ hp)
      simp only [unlinkRange, hp, if_neg ha, if_neg (hout a List.mem_cons_self)]
      exact hrest

/-- The heap without its first free page. -/
def Heap.pop (h : Heap) : Heap :=
  { h with freeList := nextPage h.mem h.freeList, freePageCount := sub32 h.freePageCount 1 }

section OnePage

variable {h : Heap} {a limit : ℕ} {l : List ℕ}

/-- Unlinking the head's page: the head is bypassed through `free_list`, behind it nothing is in the range. -/
lemma unlinkRange_head (hl : h.Free (a :: l)) (hlim : l.length < limit) :
    unlinkRange a (a + 1 * 4096) (limit + 1) { h with sie := false } .freeList
      = some { h with sie := false, freeList := nextPage h.mem a } := by
  have hkeep : unlinkRange a (a + 1 * 4096) limit { h with sie := false, freeList := nextPage h.mem a } .freeList
      = some { h with sie := false, freeList := nextPage h.mem a } := by
    refine unlinkRange_keep (r := l) hl.chain.2.2 hlim fun p hp hin => ?_
    have hout := hl.inRun_tail p hp
    rw [inRun, decide_eq_false_iff_not] at hout
    exact hout hin
  simp only [unlinkRange, Heap.readLink, hl.chain.1, if_neg hl.chain.2.1]
  rw [if_pos ⟨le_rfl, by omega⟩]
  exact hkeep

/-- **The search, for one page**, stops at the head and unlinks it. -/
lemma searchRange_one (hb : h.Bounded) (hl : h.Free (a :: l)) (hlim : l.length < limit) {first : ℕ}
    (hfirst : first = a) (fuel : ℕ) :
    searchRange (limit + 1) 1 (1 * pageSize) h.sie (fuel + 1) { h with sie := false } first = some (h.pop, a) := by
  subst hfirst
  have hle := hl.head_le hb
  have h₁ := hb.endLe
  have h₂ := hb.startLt
  have hlen := hl.length_le hb
  have hstop : (first + 1 * 4096) % 2 ^ 64 = first + 1 * 4096 := Nat.mod_eq_of_lt (by omega)
  have hfound : foundInRange h.mem first (first + 1 * 4096) (limit + 1) h.freeList 0 = some 1 := by
    rw [foundInRange_eq first _ hl.chain (Nat.succ_lt_succ hlim) (by omega), Nat.zero_add]
    exact congrArg some hl.countP_inRun
  have hend : ¬ first + 1 * 4096 > h.heapEnd := by omega
  have hrestore : allocatorIntrRestore { h.pop with sie := false } h.sie = h.pop := allocatorIntrRestore_off h.pop
  rw [pageSize_eq, searchRange, if_neg hl.chain.2.1]
  simp only [hstop, if_neg hend, hfound, Option.bind_eq_bind, Option.bind_some, ne_eq, not_true, if_false]
  rw [unlinkRange_head hl hlim, Option.bind_some, ← hrestore, Heap.pop, hl.chain.1]

end OnePage

/-- A bounded computation that a larger bound does not change has one result. -/
lemma bounded_returns_iff {f : ℕ → Option (Heap × ℕ)} {r : Heap × ℕ} {n : ℕ}
    (hmono : ∀ {n n' r}, n ≤ n' → f n = some r → f n' = some r) (hr : f n = some r) (res : Heap × ℕ) :
    (∃ limit, f limit = some res) ↔ res = r := by
  constructor
  · rintro ⟨limit, hres⟩
    have h₁ := hmono (le_max_left limit n) hres
    have h₂ := hmono (le_max_right limit n) hr
    exact Option.some.inj (h₁.symm.trans h₂)
  · rintro rfl
    exact ⟨n, hr⟩

/-- **The fast path agrees with the search.**  On any heap in order and for any request of one page, `mem_alloc`
and `mem_alloc` without its fast path return the same pointer and leave the same state: the first page of the
list, and the list without it.  They fail exactly if the list is empty, and so does the search alone. -/
theorem fast_path_agrees (h : Heap) (l owned : List ℕ) (hs : h.Split l owned) (size : ℕ) (hpos : 0 < size)
    (hsize : size ≤ 4096) :
    ∃ h' p, (∀ res, MemAllocReturns h size res ↔ res = (h', p)) ∧
      (∀ res, (∃ limit, memAllocSearch limit h size = some res) ↔ res = (h', p)) ∧
      (∀ res, (∃ limit, searchRange limit 1 (1 * pageSize) h.sie limit { h with sie := false } h.freeList = some res)
        ↔ res = (h', p)) ∧
      h'.Free l.tail ∧ p = l.headD 0 ∧ (p = 0 ↔ l = []) := by
  have hone : pageCount size = 1 := by
    rw [pageCount_eq (by omega)]
    omega
  have hcount := hs.free.count
  cases l with
  | nil =>
      have hnull : h.freeList = 0 := hs.free.chain
      have hmore : h.freePageCount < pageCount size := by
        rw [hcount, hone]
        exact Nat.zero_lt_one
      have hnone : memAlloc 0 h size = some (h, 0) := memAlloc_tooMany hpos hmore
      refine ⟨h, 0, bounded_returns_iff memAlloc_mono hnone, bounded_returns_iff memAllocSearch_mono (n := 0) ?_,
        bounded_returns_iff (fun hle hr => searchRange_mono hle hle hr) (n := 1) ?_, hs.free, rfl, by simp⟩
      · simp only [memAllocSearch, allocatorIntrOff, gt_iff_lt, if_neg hpos.ne', if_pos hmore, allocatorIntrRestore_off]
      · rw [searchRange, if_pos hnull, allocatorIntrRestore_off]
  | cons a l =>
      have hhead : h.freeList = a := hs.free.chain.1
      have hne : a ≠ 0 := hs.free.chain.2.1
      have hmany : ¬ h.freePageCount < 1 := by
        rw [hcount, List.length_cons]
        omega
      have hsearch := searchRange_one hs.bounded hs.free (Nat.lt_succ_self l.length) hhead (l.length + 1)
      have hfast := memAlloc_one hpos hone (by omega : 0 < h.freePageCount) 0
      refine ⟨h.pop, a, bounded_returns_iff memAlloc_mono (hfast.trans (by rw [← hhead, Heap.pop])),
        bounded_returns_iff memAllocSearch_mono (n := l.length + 2) ?_,
        bounded_returns_iff (fun hle hr => searchRange_mono hle hle hr) (n := l.length + 2) hsearch, ?_, rfl,
        by simp [hne]⟩
      · simp only [memAllocSearch, allocatorIntrOff, gt_iff_lt, hone, if_neg hpos.ne', if_neg hmany]
        exact hsearch
      · refine ⟨?_, ?_, fun p hp => hs.free.isPage p (List.mem_cons_of_mem _ hp)⟩
        · simp only [Heap.pop, hhead]
          exact hs.free.chain.2.2
        · have hlen := hs.free.length_le hs.bounded
          rw [List.length_cons] at hcount hlen
          simp only [Heap.pop, hcount]
          rw [sub32_eq (by omega) (by omega), Nat.add_sub_cancel]
          rfl

/-- The first page of a heap of two. -/
theorem fast_path_agrees_two_pages : ∃ h h', Heap.Split h [0x87FFA000, 0x87FFB000] [] ∧
    MemAllocReturns h 100 (h', 0x87FFA000) ∧ ∃ limit, memAllocSearch limit h 100 = some (h', 0x87FFA000) := by
  have hsplit := twoPageLayout.boot_split (fun _ => 0) true
  rw [twoPageLayout_pages] at hsplit
  obtain ⟨h', p, hfast, hsearch, -, -, rfl, -⟩ := fast_path_agrees _ _ [] hsplit 100 (by decide) (by decide)
  exact ⟨_, h', hsplit, (hfast _).mpr rfl, (hsearch _).mpr rfl⟩

end NetStack
