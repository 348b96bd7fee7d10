import NetStack.Lib.Transition
import NetStack.Memory.AllocatorSpec

/-!
# Every page is free or owned, and never both

The allocator as a system: `page_allocator_init`, then any sequence of `mem_alloc`, `mem_free` and
client writes.  `AllocSys` adds to the heap the pages each live allocation still holds, which the
code does not record anywhere; a client may free a page it holds, through either of its two
addresses, and may write anywhere inside the pages it holds.

`AllocSys.Inv` is the partition: the pages on the free list followed by the pages of the live
allocations are a rearrangement of all pages of the heap.  One step lemma per operation, and
`allocator_partition` reads the consequences off a whole run.
-/

namespace NetStack

open ByteMem LinkedChain Transition

/-! ## Where the linker puts the heap -/

/-- `LENGTH(RAM)` of `linker.ld`. -/
def ramLength : ℕ := 0x8000000

@[simp] lemma ramLength_eq : ramLength = 134217728 := rfl

/-- The two linker symbols of `mem.c`, at their identity or high-half addresses: `__heap_start` is
the end of `.bss`, inside `RAM`, and `__stack_limit` is 16 KiB below the top of `RAM`. -/
structure LinkLayout where
  heapSym : ℕ
  stackSym : ℕ
  heap_ge : baseAddr ≤ virtToPhys heapSym
  heap_le : virtToPhys heapSym ≤ baseAddr + ramLength
  stack_eq : virtToPhys stackSym = baseAddr + ramLength - 0x4000

/-- The heap `page_allocator_init` builds under a layout. -/
def LinkLayout.boot (L : LinkLayout) (m : Mem) (sie : Bool) : Heap :=
  pageAllocatorInit m sie L.heapSym L.stackSym

lemma blockPages_succ (start n : ℕ) :
    blockPages start (n + 1) = blockPages start n ++ [start + 4096 * n] := by
  simp [blockPages, List.range_succ]

lemma Heap.pages_eq (h : Heap) :
    h.pages = blockPages h.heapStart ((h.heapEnd - h.heapStart) / 4096) := by
  simp [Heap.pages, blockPages]

lemma Heap.Bounded.of_eq {h h' : Heap} (hb : h.Bounded) (hs : h'.heapStart = h.heapStart)
    (he : h'.heapEnd = h.heapEnd) : h'.Bounded := by
  refine ⟨?_, ?_, ?_, ?_, ?_⟩
  · rw [hs]; exact hb.startPos
  · rw [hs]; exact hb.startAligned
  · rw [he]; exact hb.endAligned
  · rw [hs, he]; exact hb.endLe
  · rw [hs]; exact hb.startLt

lemma Heap.Allocated.bounded {h h' : Heap} {l' : List ℕ} (ha : h.Allocated h' l')
    (hb : h.Bounded) : h'.Bounded := hb.of_eq ha.heapStart ha.heapEnd

lemma Heap.Allocated.pages {h h' : Heap} {l' : List ℕ} (ha : h.Allocated h' l') : h'.pages = h.pages := by
  rw [Heap.pages_eq, ha.heapStart, ha.heapEnd, ← Heap.pages_eq]

lemma pushPages_step {h : Heap} {addr : ℕ} (hgt : h.heapStart < addr) :
    pushPages h addr = pushPages (h.push (addr - pageSize)) (addr - pageSize) := by
  rw [pushPages, dif_pos hgt]
  rfl

lemma pushPages_stop {h : Heap} {addr : ℕ} (hle : addr ≤ h.heapStart) :
    pushPages h addr = h := by
  rw [pushPages, dif_neg (by omega)]

/-- **The initial loop** puts the `n` pages below `addr` in front of the list, in ascending
order. -/
lemma pushPages_spec : ∀ (n : ℕ) {h : Heap} {l : List ℕ}, h.Bounded → h.Free l →
    h.heapStart + 4096 * n ≤ h.heapEnd → (∀ p ∈ l, h.heapStart + 4096 * n ≤ p) →
    h.Allocated (pushPages h (h.heapStart + 4096 * n)) (blockPages h.heapStart n ++ l)
  | 0, h, l, _, hl, _, _ => by
      rw [pushPages_stop (by omega)]
      exact ⟨by simpa [blockPages] using hl, rfl, rfl, rfl, fun _ _ => rfl⟩
  | n + 1, h, l, hb, hl, hend, hge => by
      have hal := hb.startAligned
      have hpage : h.heapStart + 4096 * (n + 1) - pageSize = h.heapStart + 4096 * n := by
        simp only [pageSize_eq]
        omega
      have hnew : h.heapStart + 4096 * n ∉ l := fun hm => by
        have := hge _ hm
        omega
      have hpush := Heap.push_allocated hb hl
        (⟨by omega, by omega, by omega⟩ : h.IsPage (h.heapStart + 4096 * n)) hnew
      have ih := pushPages_spec n (hpush.bounded hb) hpush.free
        (by rw [hpush.heapStart, hpush.heapEnd]; omega) (by
          intro p hp
          rw [hpush.heapStart]
          rcases List.mem_cons.mp hp with rfl | hp
          · exact le_rfl
          · have := hge p hp
            omega)
      rw [hpush.heapStart] at ih
      rw [pushPages_step (by omega), hpage, blockPages_succ, List.append_assoc,
        List.singleton_append]
      refine ⟨ih.free, ih.heapStart.trans hpush.heapStart, ih.heapEnd.trans hpush.heapEnd,
        ih.sie.trans hpush.sie, fun x hx => (ih.mem x hx).trans (hpush.mem x fun p hp => ?_)⟩
      exact hx p (List.mem_append_right _ hp)

/-- The heap before the initial loop has run. -/
def LinkLayout.bare (L : LinkLayout) (m : Mem) (sie : Bool) : Heap :=
  let heapStart := pageFloor (virtToPhys L.heapSym + pageSize - 1)
  { mem := m, freeList := 0, heapStart := heapStart
    heapEnd := pageFloor
      (if heapStart + maxHeapSize > virtToPhys L.stackSym then virtToPhys L.stackSym
       else heapStart + maxHeapSize)
    freePageCount := 0, sie := sie }

lemma LinkLayout.boot_eq (L : LinkLayout) (m : Mem) (sie : Bool) :
    L.boot m sie = pushPages (L.bare m sie) (L.bare m sie).heapEnd := rfl

lemma LinkLayout.bare_heapStart (L : LinkLayout) (m : Mem) (sie : Bool) :
    (L.bare m sie).heapStart = (virtToPhys L.heapSym + 4095) / 4096 * 4096 := by
  simp [LinkLayout.bare, pageFloor]

lemma LinkLayout.bare_heapEnd (L : LinkLayout) (m : Mem) (sie : Bool) :
    (L.bare m sie).heapEnd
      = (min (baseAddr + ramLength - 0x4000) ((L.bare m sie).heapStart + maxHeapSize))
          / 4096 * 4096 := by
  have hif : ∀ a b : ℕ, (if a > b then b else a) = min b a := by
    intro a b
    split <;> omega
  simp only [LinkLayout.bare, pageFloor, pageSize_eq, hif, L.stack_eq]

lemma LinkLayout.bare_bounded (L : LinkLayout) (m : Mem) (sie : Bool) :
    (L.bare m sie).Bounded ∧ baseAddr ≤ (L.bare m sie).heapStart := by
  have h₁ := L.heap_ge
  have h₂ := L.heap_le
  have hs := L.bare_heapStart m sie
  have he := L.bare_heapEnd m sie
  simp only [baseAddr_eq, ramLength_eq, maxHeapSize_eq] at h₁ h₂ he ⊢
  refine ⟨⟨?_, ?_, ?_, ?_, ?_⟩, ?_⟩ <;> omega

/-- **`page_allocator_init`** leaves exactly all pages of the heap free. -/
lemma LinkLayout.boot_allocated (L : LinkLayout) (m : Mem) (sie : Bool) :
    (L.bare m sie).Allocated (L.boot m sie) (L.bare m sie).pages := by
  obtain ⟨hb, -⟩ := L.bare_bounded m sie
  have hempty : (L.bare m sie).Free [] := ⟨rfl, rfl, fun _ hp => absurd hp List.not_mem_nil⟩
  have hs := hb.startAligned
  have he := hb.endAligned
  rw [LinkLayout.boot_eq, Heap.pages_eq]
  by_cases hle : (L.bare m sie).heapEnd ≤ (L.bare m sie).heapStart
  · rw [pushPages_stop hle, Nat.sub_eq_zero_of_le hle]
    exact ⟨hempty, rfl, rfl, rfl, fun _ _ => rfl⟩
  · have hspec := pushPages_spec (((L.bare m sie).heapEnd - (L.bare m sie).heapStart) / 4096) hb
      hempty (by omega) (fun _ hp => absurd hp List.not_mem_nil)
    rw [List.append_nil, show (L.bare m sie).heapStart
      + 4096 * (((L.bare m sie).heapEnd - (L.bare m sie).heapStart) / 4096)
        = (L.bare m sie).heapEnd by omega] at hspec
    exact hspec

/-! ## The partition, one operation at a time -/

/-- The heap's pages are the free list `l` and the pages in `owned`, each exactly once. -/
structure Heap.Split (h : Heap) (l owned : List ℕ) : Prop where
  bounded : h.Bounded
  free : h.Free l
  perm : (l ++ owned).Perm h.pages

lemma Heap.Split.nodup {h : Heap} {l owned : List ℕ} (hs : h.Split l owned) :
    (l ++ owned).Nodup := hs.perm.nodup_iff.mpr h.pages_nodup

lemma Heap.Split.notMem_free {h : Heap} {l owned : List ℕ} (hs : h.Split l owned) {p : ℕ}
    (hp : p ∈ owned) : p ∉ l :=
  fun hl => (List.nodup_append.mp hs.nodup).2.2 p hl p hp rfl

lemma Heap.Split.isPage_owned {h : Heap} {l owned : List ℕ} (hs : h.Split l owned) {p : ℕ}
    (hp : p ∈ owned) : h.IsPage p :=
  (Heap.mem_pages hs.bounded).mp (hs.perm.mem_iff.mp (List.mem_append_right _ hp))

lemma Heap.IsPage.bounds {h : Heap} (hb : h.Bounded) {p : ℕ} (hp : h.IsPage p) :
    p % 4096 = 0 ∧ p < 2 ^ 41 := by
  have h₁ := hb.endLe
  have h₂ := hb.startLt
  obtain ⟨hal, -, hlt⟩ := hp
  exact ⟨hal, by omega⟩

/-- A permuted account of the owned pages is as good. -/
lemma Heap.Split.of_perm {h : Heap} {l owned owned' : List ℕ} (hs : h.Split l owned)
    (hp : owned'.Perm owned) : h.Split l owned' :=
  ⟨hs.bounded, hs.free, (hp.append_left l).trans hs.perm⟩

lemma Heap.Split.of_allocated {h h' : Heap} {l l' owned owned' : List ℕ} (hs : h.Split l owned)
    (ha : h.Allocated h' l') (hp : (l' ++ owned').Perm (l ++ owned)) : h'.Split l' owned' := by
  refine ⟨ha.bounded hs.bounded, ha.free, ?_⟩
  rw [ha.pages]
  exact hp.trans hs.perm

/-- What `takeRun` takes is a block of pages, and nothing else leaves the list. -/
lemma takeRun_perm {h : Heap} {l l' : List ℕ} (hl : h.Free l) {heapEnd count start : ℕ}
    (ht : takeRun heapEnd count l = some (start, l')) :
    start ∈ l ∧ (l' ++ blockPages start count).Perm l := by
  rw [takeRun, Option.map_eq_some_iff] at ht
  obtain ⟨s, hfind, heq⟩ := ht
  obtain ⟨rfl, rfl⟩ := Prod.mk.inj heq
  have hmem := List.mem_of_find?_eq_some hfind
  have hstart := List.find?_some hfind
  simp only [startsRun, Bool.and_eq_true, beq_iff_eq] at hstart
  have hrun := filter_inRun_perm (hl.isPage s hmem).1 hl.nodup (fun p hp => (hl.isPage p hp).1)
    hstart.2
  exact ⟨hmem, ((hrun.symm.append_left _).trans List.perm_append_comm).trans
    (List.filter_append_perm _ _)⟩

/-- The block a run of pages makes passes to its caller. -/
lemma Heap.Split.took {h h' : Heap} {l l' owned : List ℕ} (hs : h.Split l owned) {heapEnd count start : ℕ}
    (ht : takeRun heapEnd count l = some (start, l')) (ha : h.Allocated h' l') :
    start ≠ 0 ∧ h'.Split l' (blockPages start count ++ owned) := by
  obtain ⟨hmem, hperm⟩ := takeRun_perm hs.free ht
  refine ⟨fun h0 => hs.free.chain.null_notMem (h0 ▸ hmem), hs.of_allocated ha ?_⟩
  rw [← List.append_assoc]
  exact hperm.append_right owned

/-- **One `mem_alloc`.**  It returns; it fails and changes nothing, or the block it returns moves
from the free list to its caller. -/
lemma Heap.Split.alloc {h : Heap} {l owned : List ℕ} (hs : h.Split l owned) (size : ℕ) :
    MemAllocReturns h size (h, 0) ∨
      ∃ h' start l', MemAllocReturns h size (h', start) ∧ start ≠ 0 ∧ h.Allocated h' l' ∧
        h'.Split l' (blockPages start (pageCount size) ++ owned) := by
  rcases Nat.eq_zero_or_pos size with rfl | hpos
  · exact .inl ⟨0, memAlloc_zero 0 h⟩
  have hspec := memAlloc_spec hs.bounded hs.free hpos
  cases ht : takeRun h.heapEnd (pageCount size) l with
  | none =>
      rw [ht] at hspec
      exact .inl hspec
  | some res =>
      obtain ⟨start, l'⟩ := res
      rw [ht] at hspec
      obtain ⟨h', hret, halloc⟩ := hspec
      obtain ⟨hne, hsplit⟩ := hs.took ht halloc
      exact .inr ⟨h', start, l', hret, hne, halloc, hsplit⟩

/-- **What `mem_alloc` returns**: `NULL`, and the heap is as it was, or a block of free pages. -/
lemma Heap.Split.alloc_returns {h h' : Heap} {l owned : List ℕ} {size p : ℕ} (hs : h.Split l owned)
    (hret : MemAllocReturns h size (h', p)) : p = 0 ∧ h' = h ∨
      p ≠ 0 ∧ h'.pages = h.pages ∧ ∃ l', h'.Split l' (blockPages p (pageCount size) ++ owned) := by
  rcases hs.alloc size with hfail | ⟨h'', p', l', hret', hne, halloc, hsplit⟩
  · rcases Prod.mk.inj (hret.unique hfail) with ⟨rfl, rfl⟩
    exact .inl ⟨rfl, rfl⟩
  · rcases Prod.mk.inj (hret.unique hret') with ⟨rfl, rfl⟩
    exact .inr ⟨hne, halloc.pages, l', hsplit⟩

/-- **One `mem_free`** of an owned page moves it to the front of the free list. -/
lemma Heap.Split.memFree {h : Heap} {l owned owned' : List ℕ} {p page : ℕ}
    (hs : h.Split l owned) (hok : ¬ freeRejects h page) (hphys : virtToPhys page = p)
    (hperm : owned.Perm (p :: owned')) :
    h.Allocated (NetStack.memFree h page) (p :: l) ∧
      (NetStack.memFree h page).Split (p :: l) owned' := by
  have hmem : p ∈ owned := hperm.mem_iff.mpr List.mem_cons_self
  have ha := memFree_spec hs.bounded hs.free hok (hphys ▸ hs.notMem_free hmem)
  rw [hphys] at ha
  refine ⟨ha, hs.of_allocated ha ?_⟩
  rw [List.cons_append]
  exact List.perm_middle.symm.trans (hperm.symm.append_left l)

/-- **A write outside the free pages** is invisible to the allocator. -/
lemma Heap.Split.write_outside {h : Heap} {l owned : List ℕ} (hs : h.Split l owned) {m : Mem}
    (hw : ∀ x, m x ≠ h.mem x → pageFloor x ∉ l) : Heap.Split { h with mem := m } l owned := by
  have hkeep : ∀ p ∈ l, nextPage h.mem p = nextPage m p := by
    intro p hp
    refine nextPage_congr fun i hi => ?_
    by_contra hne
    have hal := (hs.free.isPage p hp).1
    have hfloor : pageFloor (p + i) = p := by
      simp only [pageFloor, pageSize_eq]
      omega
    exact hw (p + i) (Ne.symm hne) (hfloor.symm ▸ hp)
  exact ⟨hs.bounded.of_eq rfl rfl, ⟨hs.free.chain.congr hkeep, hs.free.count, hs.free.isPage⟩,
    hs.perm⟩

/-- A write inside an owned page is one. -/
lemma Heap.Split.write {h : Heap} {l owned : List ℕ} (hs : h.Split l owned) {m : Mem}
    (hw : ∀ x, m x ≠ h.mem x → pageFloor x ∈ owned) : Heap.Split { h with mem := m } l owned :=
  hs.write_outside fun x hx => hs.notMem_free (hw x hx)

/-! ## The allocator and its clients -/

/-- The heap and, for each live allocation, the pages of it that have not been freed. -/
structure AllocSys where
  heap : Heap
  live : List (List ℕ)

/-- The pages clients own. -/
def AllocSys.owned (s : AllocSys) : List ℕ := s.live.flatten

/-- Operations of the clients. -/
inductive AllocOp where
  | alloc (size : ℕ)
  | free (page : ℕ)
  | write (x : ℕ) (v : UInt8)

/-- The live allocations once page `p` has been given back. -/
def dropPage (live : List (List ℕ)) (p : ℕ) : List (List ℕ) :=
  live.map fun block => block.filter (· ≠ p)

/-- One client operation.  A pointer given to `mem_free` is one its guard rejects, or a page of a
live allocation by its identity address or its high-half alias; a write goes to an owned page. -/
inductive AllocStep : AllocSys → AllocOp → AllocSys → Prop
  | alloc {s : AllocSys} {size : ℕ} {h' : Heap} {start : ℕ} (hsize : size < 2 ^ 32)
      (hret : MemAllocReturns s.heap size (h', start)) :
      AllocStep s (.alloc size)
        ⟨h', if start = 0 then s.live else blockPages start (pageCount size) :: s.live⟩
  | free {s : AllocSys} {page : ℕ}
      (harg : freeRejects s.heap page ∨ ∃ p ∈ s.owned, page = p ∨ page = p + virtOffset) :
      AllocStep s (.free page)
        ⟨memFree s.heap page,
          if freeRejects s.heap page then s.live else dropPage s.live (virtToPhys page)⟩
  | write {s : AllocSys} {x : ℕ} {v : UInt8} (hown : pageFloor x ∈ s.owned) :
      AllocStep s (.write x v) ⟨{ s.heap with mem := ByteMem.write s.heap.mem x v }, s.live⟩

/-- Free pages and owned pages partition the heap. -/
def AllocSys.Inv (s : AllocSys) : Prop := ∃ l, s.heap.Split l s.owned

lemma flatten_dropPage {live : List (List ℕ)} {p : ℕ} (hnd : live.flatten.Nodup)
    (hp : p ∈ live.flatten) : live.flatten.Perm (p :: (dropPage live p).flatten) := by
  have hflat : (dropPage live p).flatten = live.flatten.erase p := by
    rw [dropPage, ← List.filter_flatten, hnd.erase_eq_filter]
    congr 1
    funext x
    by_cases hx : x = p <;> simp [hx]
  rw [hflat]
  exact List.perm_cons_erase hp

/-- Both addresses of a heap page name that page, as far as the guard lets them through. -/
lemma virtToPhys_of_alias {h : Heap} (hb : h.Bounded) {p page : ℕ} (hp : h.IsPage p)
    (halias : page = p ∨ page = p + virtOffset) (hok : ¬ freeRejects h page) :
    virtToPhys page = p := by
  have h₁ := hb.endLe
  have h₂ := hb.startLt
  obtain ⟨-, hlo, hhi⟩ := hp
  rw [freeRejects_iff] at hok
  push Not at hok
  obtain ⟨-, -, hlt, -⟩ := hok
  simp only [virtToPhys, kernelBaseVa_eq, virtOffset_eq, ge_iff_le] at hlt halias ⊢
  split_ifs at hlt ⊢ <;> omega

/-- A byte outside the free pages is in no free page's link word. -/
lemma Heap.Split.off_link_words {h : Heap} {l owned : List ℕ} (hs : h.Split l owned) {x : ℕ}
    (hx : pageFloor x ∉ l) : ∀ p ∈ l, x < p ∨ p + 8 ≤ x := by
  intro p hp
  have hal := (hs.free.isPage p hp).1
  have hne : p ≠ pageFloor x := fun h => hx (h ▸ hp)
  simp only [pageFloor, pageSize_eq] at hne
  omega

/-- Neither an owned page nor what is outside the heap is free. -/
lemma Heap.Split.notMem_free_of {h : Heap} {l owned : List ℕ} (hs : h.Split l owned) {p : ℕ}
    (hp : p ∈ owned ∨ p ∉ h.pages) : p ∉ l := by
  rcases hp with hp | hp
  · exact hs.notMem_free hp
  · exact fun hl => hp (hs.perm.mem_iff.mp (List.mem_append_left _ hl))

/-- **One step keeps the partition**, also in the presence of pages `extra` that belong to
somebody who takes no part in the step; these are left as they are, and so is everything outside
the heap. -/
lemma AllocStep.split {s s' : AllocSys} {op : AllocOp} (hstep : AllocStep s op s')
    {l : List ℕ} (extra : List ℕ) (hs : s.heap.Split l (s.owned ++ extra)) :
    (∃ l', s'.heap.Split l' (s'.owned ++ extra)) ∧
      s'.heap.heapStart = s.heap.heapStart ∧ s'.heap.heapEnd = s.heap.heapEnd ∧
      ∀ x, pageFloor x ∈ extra ∨ pageFloor x ∉ s.heap.pages → s'.heap.mem x = s.heap.mem x := by
  cases hstep with
  | @alloc size h' start hsize hret =>
      rcases hs.alloc size with hfail | ⟨h'', start', l', hret', hne, halloc, hsplit⟩
      · obtain ⟨rfl, rfl⟩ := Prod.mk.inj (hret.unique hfail)
        exact ⟨⟨l, hs⟩, rfl, rfl, fun _ _ => rfl⟩
      · obtain ⟨rfl, rfl⟩ := Prod.mk.inj (hret.unique hret')
        rw [← List.append_assoc] at hsplit
        rw [if_neg hne]
        refine ⟨⟨l', hsplit⟩, halloc.heapStart, halloc.heapEnd, fun x hx => halloc.mem x ?_⟩
        rw [← halloc.pages] at hx
        exact hsplit.off_link_words (hsplit.notMem_free_of (hx.imp_left (List.mem_append_right _)))
  | @free page harg =>
      by_cases hrej : freeRejects s.heap page
      · rw [memFree_of_rejects hrej, if_pos hrej]
        exact ⟨⟨l, hs⟩, rfl, rfl, fun _ _ => rfl⟩
      · obtain ⟨p, hp, halias⟩ := harg.resolve_left hrej
        have hpage := hs.isPage_owned (List.mem_append_left extra hp)
        have hphys := virtToPhys_of_alias hs.bounded hpage halias hrej
        have hnd := (List.nodup_append.mp (List.nodup_append.mp hs.nodup).2.1).1
        have hperm := (flatten_dropPage hnd hp).append_right extra
        obtain ⟨halloc, hsplit⟩ := hs.memFree hrej hphys hperm
        rw [if_neg hrej, hphys]
        refine ⟨⟨_, hsplit⟩, halloc.heapStart, halloc.heapEnd, fun x hx => halloc.mem x ?_⟩
        rw [← halloc.pages] at hx
        exact hsplit.off_link_words (hsplit.notMem_free_of (hx.imp_left (List.mem_append_right _)))
  | @write x v hown =>
      have hsame : ∀ y, ByteMem.write s.heap.mem x v y ≠ s.heap.mem y → y = x := by
        intro y hy
        by_contra hne
        exact hy (ByteMem.write_of_ne _ _ hne)
      refine ⟨⟨l, hs.write fun y hy => ?_⟩, rfl, rfl, fun y hy => ?_⟩
      · rw [hsame y hy]
        exact List.mem_append_left _ hown
      · by_contra hne
        rw [hsame y hne] at hy
        rcases hy with hy | hy
        · have hnd := (List.nodup_append.mp (List.nodup_append.mp hs.nodup).2.1).2.2
          exact hnd _ hown _ hy rfl
        · exact hy (hs.perm.mem_iff.mp (List.mem_append_right _ (List.mem_append_left _ hown)))

/-- The system right after `page_allocator_init`: nothing is allocated. -/
def LinkLayout.start (L : LinkLayout) (m : Mem) (sie : Bool) : AllocSys := ⟨L.boot m sie, []⟩

lemma LinkLayout.boot_split (L : LinkLayout) (m : Mem) (sie : Bool) :
    (L.boot m sie).Split (L.boot m sie).pages [] := by
  have ha := L.boot_allocated m sie
  refine ⟨ha.bounded (L.bare_bounded m sie).1, ha.pages ▸ ha.free, ?_⟩
  rw [List.append_nil]

/-- **What every run keeps.** -/
lemma LinkLayout.run_inv {L : LinkLayout} {m : Mem} {sie : Bool} {ops : List AllocOp}
    {s : AllocSys} (hrun : Run AllocStep (L.start m sie) ops s) :
    s.Inv ∧ s.heap.heapStart = (L.boot m sie).heapStart ∧
      s.heap.heapEnd = (L.boot m sie).heapEnd := by
  refine hrun.invariant (P := fun s => s.Inv ∧ s.heap.heapStart = (L.boot m sie).heapStart ∧
    s.heap.heapEnd = (L.boot m sie).heapEnd) ?_ ⟨⟨_, L.boot_split m sie⟩, rfl, rfl⟩
  rintro s op s' hstep ⟨hinv, hs, he⟩
  obtain ⟨l, hl⟩ := hinv
  obtain ⟨⟨l', hl'⟩, hs', he', -⟩ := hstep.split [] (by rwa [List.append_nil])
  rw [List.append_nil] at hl'
  exact ⟨⟨l', hl'⟩, hs'.trans hs, he'.trans he⟩

/-- **The allocator's partition.**  After any run of allocations, frees and client writes the
chain from `free_list` ends, repeats nothing, consists of heap pages and has length
`free_page_count`; every heap page is in it or owned by a client, never both; live allocations
are pairwise disjoint; and the next `mem_alloc` returns, whatever its size. -/
theorem allocator_partition (L : LinkLayout) (m : Mem) (sie : Bool) (ops : List AllocOp)
    (s : AllocSys) (hrun : Run AllocStep (L.start m sie) ops s) :
    (∃ l, IsChain (nextPage s.heap.mem) 0 s.heap.freeList l ∧ l.Nodup ∧
      (∀ p ∈ l, p % pageSize = 0 ∧ (L.boot m sie).heapStart ≤ p ∧ p < (L.boot m sie).heapEnd) ∧
      l.length = s.heap.freePageCount ∧
      l.Disjoint s.owned ∧
      (∀ p, p ∈ l ∨ p ∈ s.owned ↔
        p % pageSize = 0 ∧ (L.boot m sie).heapStart ≤ p ∧ p < (L.boot m sie).heapEnd)) ∧
    s.owned.Nodup ∧ s.live.Pairwise List.Disjoint ∧
    (∀ p ∈ s.owned, ∀ page, page = p ∨ page = p + virtOffset →
      ¬ freeRejects s.heap page ∧ virtToPhys page = p) ∧
    ∀ size, ∃ res, MemAllocReturns s.heap size res := by
  obtain ⟨⟨l, hs⟩, hstart, hend⟩ := LinkLayout.run_inv hrun
  have hnd := List.nodup_append.mp hs.nodup
  have hpage : ∀ p, s.heap.IsPage p ↔
      p % pageSize = 0 ∧ (L.boot m sie).heapStart ≤ p ∧ p < (L.boot m sie).heapEnd := by
    intro p
    rw [Heap.IsPage, hstart, hend, pageSize_eq]
  refine ⟨⟨l, hs.free.chain, hs.free.nodup, fun p hp => (hpage p).mp (hs.free.isPage p hp),
    hs.free.count.symm, fun p hp hq => hnd.2.2 p hp p hq rfl, fun p => ?_⟩, hnd.2.1, ?_, ?_, ?_⟩
  · rw [← List.mem_append, hs.perm.mem_iff, Heap.mem_pages hs.bounded, hpage]
  · exact (List.nodup_flatten.mp hnd.2.1).2
  · intro p hp page halias
    have hbase : baseAddr ≤ s.heap.heapStart := by
      rw [hstart, (L.boot_allocated m sie).heapStart]
      exact (L.bare_bounded m sie).2
    obtain ⟨hal, hlo, hhi⟩ := hs.isPage_owned hp
    have h₁ := hs.bounded.endLe
    have h₂ := hs.bounded.startLt
    have hphys : virtToPhys page = p := by
      simp only [virtToPhys, kernelBaseVa_eq, virtOffset_eq, baseAddr_eq, ge_iff_le] at *
      split_ifs <;> omega
    refine ⟨?_, hphys⟩
    rw [freeRejects_iff, hphys]
    simp only [virtOffset_eq, baseAddr_eq] at *
    omega
  · intro size
    rcases hs.alloc size with hfail | ⟨h', start, _, hret, _⟩
    · exact ⟨_, hfail⟩
    · exact ⟨_, hret⟩

lemma virtToPhys_stackLimit :
    virtToPhys (kernelBaseVa + ramLength - 0x4000) = baseAddr + ramLength - 0x4000 := by decide

/-- A layout whose `.bss` ends two pages below the stack: a heap of two pages. -/
def twoPageLayout : LinkLayout where
  heapSym := kernelBaseVa + ramLength - 0x6000
  stackSym := kernelBaseVa + ramLength - 0x4000
  heap_ge := by decide
  heap_le := by decide
  stack_eq := virtToPhys_stackLimit

lemma twoPageLayout_pages (m : Mem) (sie : Bool) :
    (twoPageLayout.boot m sie).pages = [0x87FFA000, 0x87FFB000] := by
  have ha := twoPageLayout.boot_allocated m sie
  have hs : (twoPageLayout.boot m sie).heapStart = 0x87FFA000 := by
    rw [ha.heapStart, LinkLayout.bare_heapStart]
    decide
  have he : (twoPageLayout.boot m sie).heapEnd = 0x87FFC000 := by
    rw [ha.heapEnd, LinkLayout.bare_heapEnd, ← ha.heapStart, hs]
    decide
  rw [Heap.pages_eq, hs, he]
  decide

lemma twoPageLayout_boot (m : Mem) (sie : Bool) :
    (twoPageLayout.boot m sie).freeList = 0x87FFA000 ∧
      (twoPageLayout.boot m sie).freePageCount = 2 := by
  have hsplit := twoPageLayout.boot_split m sie
  rw [twoPageLayout_pages] at hsplit
  exact ⟨hsplit.free.chain.1, hsplit.free.count⟩

/-- The partition after one page has been taken and given back through its high-half alias. -/
theorem allocator_partition_two_pages :
    ∃ s, Run AllocStep (twoPageLayout.start (fun _ => 0) true)
        [.alloc 4096, .free (0x87FFA000 + virtOffset)] s ∧
      s.owned.Nodup ∧ s.live.Pairwise List.Disjoint := by
  obtain ⟨hhead, hcount⟩ := twoPageLayout_boot (fun _ => 0) true
  have hret : MemAllocReturns (twoPageLayout.boot (fun _ => 0) true) 4096 (_, _) :=
    ⟨0, memAlloc_one (by decide) (by decide) (by omega) 0⟩
  rw [hhead] at hret
  have hrun : Run AllocStep (twoPageLayout.start (fun _ => 0) true)
      [.alloc 4096, .free (0x87FFA000 + virtOffset)] _ :=
    .cons (.alloc (by decide) hret)
      (.cons (.free (.inr ⟨0x87FFA000, by decide, .inr rfl⟩)) (.nil _))
  have hpart := allocator_partition twoPageLayout (fun _ => 0) true _ _ hrun
  exact ⟨_, hrun, hpart.2.1, hpart.2.2.1⟩

end NetStack
