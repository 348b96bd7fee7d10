import NetStack.Memory.Bump
import NetStack.Memory.FirstFit
import NetStack.Memory.PageList

/-!
# Allocating and freeing gives back what was there

Which sizes `mem_alloc` can serve depends on the set of free pages only, not on their order in the list
(`Heap.Split.succeeds_congr`).  Freeing the pages of a block, in any order, pushes them in front of the
list (`Heap.Split.freeAll`), so that after an allocation the old set of free pages is back; a block of a
single page goes back to the very place it came from.
-/

namespace NetStack

open ByteMem LinkedChain

/-- `mem_alloc(size)` returns a page. -/
def AllocSucceeds (h : Heap) (size : ℕ) : Prop := ∃ h' p, MemAllocReturns h size (h', p) ∧ p ≠ 0

/-- `mem_free`, for each of the pointers. -/
def freeAll (h : Heap) (pages : List ℕ) : Heap := pages.foldl memFree h

/-! ## What can be served -/

/-- **A request is served exactly if a run is free.** -/
lemma Heap.Split.succeeds_iff {h : Heap} {l owned : List ℕ} (hs : h.Split l owned) {size : ℕ}
    (hsize : size < 2 ^ 32) : AllocSucceeds h size ↔ 0 < size ∧ ∃ start, FreeRun h l (pageCount size) start := by
  rcases Nat.eq_zero_or_pos size with rfl | hpos
  · refine ⟨?_, fun hrun => absurd hrun.1 (lt_irrefl 0)⟩
    rintro ⟨h', p, hret, hne⟩
    have heq := hret.unique ⟨0, memAlloc_zero 0 h⟩
    exact absurd (congrArg Prod.snd heq) hne
  rcases hs.first_fit hpos hsize with ⟨hnull, hno⟩ | ⟨h', start, hret, hne, ⟨_, _, _, hrun, _⟩, -⟩
  · refine ⟨?_, fun hrun => absurd hrun.2 hno⟩
    rintro ⟨h', p, hret, hne⟩
    exact absurd (congrArg Prod.snd (hret.unique hnull)) hne
  · exact ⟨fun _ => ⟨hpos, start, hrun⟩, fun _ => ⟨h', start, hret, hne⟩⟩

/-- A free run is a matter of which pages are free. -/
lemma FreeRun.congr {h h' : Heap} {l l' : List ℕ} {count start : ℕ} (hstart : h'.heapStart = h.heapStart)
    (hend : h'.heapEnd = h.heapEnd) (hmem : ∀ q, q ∈ l → q ∈ l') (hrun : FreeRun h l count start) :
    FreeRun h' l' count start := by
  intro i hi
  obtain ⟨hpage, hfree⟩ := hrun i hi
  refine ⟨?_, hmem _ hfree⟩
  rw [Heap.IsPage, hstart, hend]
  exact hpage

/-- **The order of the list does not matter** for what can be served. -/
lemma Heap.Split.succeeds_congr {h h' : Heap} {l l' owned owned' : List ℕ} (hs : h.Split l owned)
    (hs' : h'.Split l' owned') (hstart : h'.heapStart = h.heapStart) (hend : h'.heapEnd = h.heapEnd)
    (hmem : ∀ q, q ∈ l' ↔ q ∈ l) {size : ℕ} (hsize : size < 2 ^ 32) :
    AllocSucceeds h' size ↔ AllocSucceeds h size := by
  rw [hs.succeeds_iff hsize, hs'.succeeds_iff hsize]
  refine and_congr_right fun _ => exists_congr fun start => ⟨?_, ?_⟩
  · exact FreeRun.congr hstart.symm hend.symm fun q => (hmem q).mp
  · exact FreeRun.congr hstart hend fun q => (hmem q).mpr

/-! ## Giving a block back -/

/-- **Freeing owned pages** one after the other puts them in front of the list, the last one first. -/
lemma Heap.Split.freeAll : ∀ {pages : List ℕ} {h : Heap} {l owned owned' : List ℕ}, h.Split l owned →
    owned.Perm (pages.map virtToPhys ++ owned') →
    (NetStack.freeAll h pages).Split ((pages.map virtToPhys).reverse ++ l) owned' ∧
      (NetStack.freeAll h pages).heapStart = h.heapStart ∧ (NetStack.freeAll h pages).heapEnd = h.heapEnd
  | [], _, _, _, _, hs, hperm => ⟨hs.of_perm hperm.symm, rfl, rfl⟩
  | page :: pages, h, l, owned, owned', hs, hperm => by
      have hown : virtToPhys page ∈ owned := hperm.mem_iff.mpr (by simp)
      obtain ⟨ha, hsplit⟩ := hs.memFree (hs.not_rejects hown) rfl hperm
      obtain ⟨hall, hstart, hend⟩ := Heap.Split.freeAll hsplit (List.Perm.refl _)
      rw [List.map_cons, List.reverse_cons, List.append_assoc, List.singleton_append]
      exact ⟨hall, hstart.trans ha.heapStart, hend.trans ha.heapEnd⟩

/-- **Allocate, then free.**  Whatever the state and the size, if `mem_alloc` returns a block and each of
its pages is given back once, in any order and by either of its addresses, then as many pages are free as
before, and the same ones; exactly the same sizes can be served; and a block of a single page leaves the
list as it was, order included. -/
theorem alloc_free_restores (h : Heap) (l owned : List ℕ) (hs : h.Split l owned) (size : ℕ) (hsize : size < 2 ^ 32)
    (h' : Heap) (p : ℕ) (hret : MemAllocReturns h size (h', p)) (hp : p ≠ 0) (pages : List ℕ)
    (hpages : (pages.map virtToPhys).Perm (blockPages p ((size + 4095) / 4096))) :
    (freeAll h' pages).freePageCount = h.freePageCount ∧
      (∃ l', (freeAll h' pages).Split l' owned ∧ (∀ q, q ∈ l' ↔ q ∈ l) ∧
        ((size + 4095) / 4096 = 1 → l' = l)) ∧
      ∀ size' < 2 ^ 32, AllocSucceeds (freeAll h' pages) size' ↔ AllocSucceeds h size' := by
  rw [← pageCount_eq hsize] at hpages ⊢
  have hpos : 0 < size := ((hs.succeeds_iff hsize).mp ⟨h', p, hret, hp⟩).1
  have hspec := memAlloc_spec hs.bounded hs.free hpos
  cases ht : takeRun h.heapEnd (pageCount size) l with
  | none =>
      rw [ht] at hspec
      exact absurd (congrArg Prod.snd (hret.unique hspec)) hp
  | some res =>
      obtain ⟨start, rest⟩ := res
      rw [ht] at hspec
      obtain ⟨h'', hret', ha⟩ := hspec
      obtain ⟨rfl, rfl⟩ := Prod.mk.inj (hret.unique hret')
      -- after the allocation the block is owned, after the frees it is in front of the list
      obtain ⟨-, hsplit⟩ := hs.took ht ha
      obtain ⟨hall, hstart, hend⟩ := hsplit.freeAll (hpages.symm.append_right owned)
      have hback : ((pages.map virtToPhys).reverse ++ rest).Perm l :=
        (((List.reverse_perm _).trans hpages).append_right rest).trans
          (List.perm_append_comm.trans (takeRun_perm hs.free ht).2)
      refine ⟨?_, ⟨_, hall, fun q => hback.mem_iff, fun hone => ?_⟩, fun size' hsize' => ?_⟩
      · rw [hall.free.count, hs.free.count, hback.length_eq]
      · -- one page: it was the head
        rw [hone] at ht hpages
        have hblock : pages.map virtToPhys = [p] := List.perm_singleton.mp hpages
        cases l with
        | nil => simp [takeRun] at ht
        | cons a l =>
            rw [takeRun_one hs.bounded hs.free] at ht
            obtain ⟨rfl, rfl⟩ := Prod.mk.inj (Option.some.inj ht)
            rw [hblock, List.reverse_singleton, List.singleton_append]
      · exact hs.succeeds_congr hall (hstart.trans ha.heapStart) (hend.trans ha.heapEnd)
          (fun q => hback.mem_iff) hsize'

/-- Both pages of a heap of two, freed in ascending order, one of them by its high-half address. -/
theorem alloc_free_restores_two_pages : ∃ h h' l, Heap.Split h l [] ∧
    MemAllocReturns h 8192 (h', 0x87FFA000) ∧
    (freeAll h' [0x87FFA000, 0x87FFB000 + virtOffset]).freePageCount = h.freePageCount := by
  have hsplit := twoPageLayout.boot_split (fun _ => 0) true
  rw [twoPageLayout_pages, show [0x87FFA000, 0x87FFB000] = blockPages 0x87FFA000 (2 + 0) by decide] at hsplit
  obtain ⟨h', hret, -, -⟩ := hsplit.bump (show pageCount 8192 = 2 by decide) (by decide) (by decide)
  obtain ⟨hcount, -⟩ := alloc_free_restores _ _ [] hsplit 8192 (by decide) h' 0x87FFA000 hret (by decide)
    [0x87FFA000, 0x87FFB000 + virtOffset] (by decide)
  exact ⟨_, h', _, hsplit, hret, hcount⟩

end NetStack
