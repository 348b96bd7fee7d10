import NetStack.Lib.ByteMem

/-!
# The page allocator of `mem.c`

The free list is threaded through the free pages themselves: the first word of a free page is its
`struct free_page.next`.  `Heap` collects the allocator's four static variables, the memory they
describe, and `sstatus.SIE`, which `allocator_intr_off` / `allocator_intr_restore` save and
restore around every update.

The three pointer walks of `mem_alloc` (the search over `first`, the count over `page`, the
unlinking through `link`) follow whatever the link words say, and on a corrupted list they need
not end.  They take a bound on the number of iterations and return `none` when it is used up;
`AllocatorSpec` shows that on a well-formed list any bound above its length is enough.
-/

namespace NetStack

open ByteMem

/-! ## Constants of `mem.h` -/

def baseAddr : ℕ := 0x80000000
def virtOffset : ℕ := 0xFFFFFFC000000000
def kernelBaseVa : ℕ := baseAddr + virtOffset
def maxHeapSize : ℕ := 0x1000000
def pgShift : ℕ := 12
def pageSize : ℕ := 1 <<< pgShift

@[simp] lemma baseAddr_eq : baseAddr = 2147483648 := rfl
@[simp] lemma virtOffset_eq : virtOffset = 18446743798831644672 := rfl
@[simp] lemma kernelBaseVa_eq : kernelBaseVa = 18446743800979128320 := rfl
@[simp] lemma maxHeapSize_eq : maxHeapSize = 16777216 := rfl
@[simp] lemma pgShift_eq : pgShift = 12 := rfl
@[simp] lemma pageSize_eq : pageSize = 4096 := rfl

/-- `x & ~(PAGE_SIZE - 1)`. -/
def pageFloor (x : ℕ) : ℕ := x / pageSize * pageSize

/-- `a - b` on `uint32_t`. -/
def sub32 (a b : ℕ) : ℕ := (a + 2 ^ 32 - b) % 2 ^ 32

/-- `virt_to_phys`: high-half kernel addresses are moved down, every other address is itself. -/
def virtToPhys (addr : ℕ) : ℕ :=
  if addr ≥ kernelBaseVa then addr - virtOffset else addr

/-! ## State -/

/-- The static variables of `mem.c`, the memory, and `sstatus.SIE`. -/
structure Heap where
  mem : Mem
  freeList : ℕ
  heapStart : ℕ
  heapEnd : ℕ
  freePageCount : ℕ
  sie : Bool

/-- `page->next`: the link word of a free page. -/
def nextPage (m : Mem) (page : ℕ) : ℕ := loadLE m 8 page

/-! ## `page_allocator_init` -/

/-- The loop that pushes the pages from `addr` down to `heap_start`.  `addr` is a multiple of the
page size above `heap_start`, so the subtraction does not wrap. -/
def pushPages (h : Heap) (addr : ℕ) : Heap :=
  if _hgt : addr > h.heapStart then
    let page := addr - pageSize
    pushPages
      { h with
        mem := storeLE h.mem 8 page h.freeList
        freeList := page
        freePageCount := (h.freePageCount + 1) % 2 ^ 32 }
      page
  else h
termination_by addr
decreasing_by simp only [pageSize_eq]; omega

/-- `page_allocator_init`, for the two linker symbols `__heap_start` and `__stack_limit`. -/
def pageAllocatorInit (m : Mem) (sie : Bool) (heapSym stackSym : ℕ) : Heap :=
  let heapStart := pageFloor (virtToPhys heapSym + pageSize - 1)
  let heapEnd := heapStart + maxHeapSize
  let stackLimit := virtToPhys stackSym
  let heapEnd := if heapEnd > stackLimit then stackLimit else heapEnd
  let heapEnd := pageFloor heapEnd
  pushPages
    { mem := m, freeList := 0, heapStart := heapStart, heapEnd := heapEnd,
      freePageCount := 0, sie := sie }
    heapEnd

/-! ## `mem_alloc` -/

/-- `csrrc status, sstatus, SIE`: the old status, with interrupts masked from here on. -/
def allocatorIntrOff (h : Heap) : Heap × Bool := ({ h with sie := false }, h.sie)

/-- Interrupts come back on only if the saved status had them on. -/
def allocatorIntrRestore (h : Heap) (status : Bool) : Heap :=
  if status then { h with sie := true } else h

/-- `((uint64_t)size + PAGE_SIZE - 1) >> PGSHIFT`, as `uint32_t`. -/
def pageCount (size : ℕ) : ℕ := ((size + pageSize - 1) >>> pgShift) % 2 ^ 32

/-- The inner loop of the range search: how many list entries lie in `[start, stop)`. -/
def foundInRange (m : Mem) (start stop : ℕ) : (fuel page found : ℕ) → Option ℕ
  | 0, _, _ => none
  | fuel + 1, page, found =>
      if page = 0 then some found
      else foundInRange m start stop fuel (nextPage m page)
        (if page ≥ start ∧ page < stop then (found + 1) % 2 ^ 32 else found)

/-- Where a `struct free_page **link` points: at `free_list` or at the link word of a page. -/
inductive Link where
  | freeList
  | next (page : ℕ)
  deriving DecidableEq, Repr

/-- `*link`. -/
def Heap.readLink (h : Heap) : Link → ℕ
  | .freeList => h.freeList
  | .next page => nextPage h.mem page

/-- `*link = v`. -/
def Heap.writeLink (h : Heap) (link : Link) (v : ℕ) : Heap :=
  match link with
  | .freeList => { h with freeList := v }
  | .next page => { h with mem := storeLE h.mem 8 page v }

/-- The unlinking loop: every entry in `[start, stop)` is bypassed, every other one becomes the
place the next link is read from. -/
def unlinkRange (start stop : ℕ) : (fuel : ℕ) → Heap → Link → Option Heap
  | 0, _, _ => none
  | fuel + 1, h, link =>
      let addr := h.readLink link
      if addr = 0 then some h
      else if addr ≥ start ∧ addr < stop then
        unlinkRange start stop fuel (h.writeLink link (nextPage h.mem addr)) link
      else unlinkRange start stop fuel h (.next addr)

/-- The outer loop over `first`.  `limit` bounds the walks inside it. -/
def searchRange (limit count bytes : ℕ) (status : Bool) :
    (fuel : ℕ) → Heap → (first : ℕ) → Option (Heap × ℕ)
  | 0, _, _ => none
  | fuel + 1, h, first =>
      if first = 0 then some (allocatorIntrRestore h status, 0)
      else
        let start := first
        let stop := (start + bytes) % 2 ^ 64
        if stop > h.heapEnd then searchRange limit count bytes status fuel h (nextPage h.mem first)
        else do
          let found ← foundInRange h.mem start stop limit h.freeList 0
          if found ≠ count then
            searchRange limit count bytes status fuel h (nextPage h.mem first)
          else do
            let h ← unlinkRange start stop limit h .freeList
            let h := { h with freePageCount := sub32 h.freePageCount count }
            some (allocatorIntrRestore h status, start)

/-- `mem_alloc`; the result is the returned address, `0` for `NULL`. -/
def memAlloc (limit : ℕ) (h : Heap) (size : ℕ) : Option (Heap × ℕ) :=
  if size = 0 then some (h, 0)
  else
    let count := pageCount size
    let (h, status) := allocatorIntrOff h
    if count > h.freePageCount then some (allocatorIntrRestore h status, 0)
    else if count = 1 then
      let page := h.freeList
      let h := { h with
        freeList := nextPage h.mem page
        freePageCount := sub32 h.freePageCount 1 }
      some (allocatorIntrRestore h status, page)
    else
      searchRange limit count (count * pageSize) status limit h h.freeList

/-! ## `mem_free` -/

/-- The guard of `mem_free`: these pointers are ignored. -/
def freeRejects (h : Heap) (page : ℕ) : Prop :=
  let addr := virtToPhys page
  page = 0 ∨ addr < h.heapStart ∨ addr ≥ h.heapEnd ∨ addr &&& (pageSize - 1) ≠ 0

instance (h : Heap) (page : ℕ) : Decidable (freeRejects h page) :=
  inferInstanceAs (Decidable (_ ∨ _ ∨ _ ∨ _))

/-- `mem_free`: push the page on the free list. -/
def memFree (h : Heap) (page : ℕ) : Heap :=
  if freeRejects h page then h
  else
    let (h, status) := allocatorIntrOff h
    let node := virtToPhys page
    let h := { h with
      mem := storeLE h.mem 8 node h.freeList
      freeList := node
      freePageCount := (h.freePageCount + 1) % 2 ^ 32 }
    allocatorIntrRestore h status

end NetStack
